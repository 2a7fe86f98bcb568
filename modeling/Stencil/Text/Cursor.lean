/-
  A place in a text together with what is still to be read there.

  `next?` reads a character, and nothing moves a cursor on but `next?`: `skip` reads so many
  characters and `takeUntil` those up to the first place where a condition holds.  Everything that
  is read is a prefix of what was to be read, and the position moves past exactly that prefix
  (`next?_eq_some_iff`, `takeUntil_append`, `takeUntil_pos`).
-/
import Stencil.Text.Position

namespace Stencil

structure Cursor where
  pos : Position
  rest : List Char
  deriving DecidableEq, Repr

/-- A character and where it stands. -/
structure Located where
  char : Char
  pos : Position
  deriving DecidableEq, Repr

namespace Cursor

/-- At the start of a text. -/
def ofString (text : String) : Cursor := ⟨.start, text.toList⟩

/-- Read one character. -/
def next? (cur : Cursor) : Option (Located × Cursor) :=
  match cur.rest with
  | [] => none
  | c :: rest => some (⟨c, cur.pos⟩, ⟨cur.pos.advance c, rest⟩)

/-- The character to be read next. -/
def peek? (cur : Cursor) : Option Char := cur.rest.head?

def hasNext (cur : Cursor) : Bool := !cur.rest.isEmpty

/-- Read one character if it is `c`. -/
def nextIf? (cur : Cursor) (c : Char) : Option (Located × Cursor) :=
  if cur.peek? = some c then cur.next? else none

/-! ## Reading one character -/

theorem next?_eq_some_iff {cur cur' : Cursor} {l : Located} :
    cur.next? = some (l, cur') ↔
      cur.rest = l.char :: cur'.rest ∧ l.pos = cur.pos ∧ cur'.pos = cur.pos.advance l.char := by
  obtain ⟨pos, rest⟩ := cur
  obtain ⟨pos', rest'⟩ := cur'
  obtain ⟨c, lpos⟩ := l
  cases rest with
  | nil => simp [next?]
  | cons d rest =>
    simp only [next?, Option.some.injEq, Prod.mk.injEq, Located.mk.injEq, Cursor.mk.injEq,
      List.cons.injEq]
    constructor
    · rintro ⟨⟨rfl, rfl⟩, rfl, rfl⟩; simp
    · rintro ⟨⟨rfl, rfl⟩, rfl, h⟩; simp [h]

theorem next?_eq_none_iff {cur : Cursor} : cur.next? = none ↔ cur.rest = [] := by
  obtain ⟨pos, rest⟩ := cur
  cases rest <;> simp [next?]

theorem next?_of_nextIf? {cur : Cursor} {c : Char} {step : Located × Cursor}
    (h : cur.nextIf? c = some step) : cur.next? = some step := by
  unfold nextIf? at h
  split at h
  · exact h
  · cases h

@[simp] theorem peek?_cons (pos : Position) (c : Char) (rest : List Char) :
    (Cursor.mk pos (c :: rest)).peek? = some c := rfl

@[simp] theorem peek?_nil (pos : Position) : (Cursor.mk pos []).peek? = none := rfl

theorem hasNext_iff {cur : Cursor} : cur.hasNext = true ↔ cur.rest ≠ [] := by
  simp [hasNext]

theorem next?_length_lt {cur stop : Cursor} {l : Located} (h : cur.next? = some (l, stop)) :
    stop.rest.length < cur.rest.length := by
  rw [(next?_eq_some_iff.mp h).1, List.length_cons]
  exact Nat.lt_succ_self _

/-! ## Reading several characters -/

/-- What is left to read, each character in its place. -/
def remaining (cur : Cursor) : List Located :=
  match _h : cur.next? with
  | none => []
  | some (l, stop) => l :: stop.remaining
termination_by cur.rest.length
decreasing_by exact next?_length_lt _h

theorem remaining_of_next? {cur stop : Cursor} {l : Located} (h : cur.next? = some (l, stop)) :
    cur.remaining = l :: stop.remaining := by
  rw [remaining]
  split <;> simp_all

/-- It is the text that is left. -/
theorem map_char_remaining (cur : Cursor) : cur.remaining.map Located.char = cur.rest := by
  fun_induction remaining cur with
  | case1 cur h => exact (next?_eq_none_iff.mp h).symm
  | case2 cur l stop h ih => rw [List.map_cons, ih, (next?_eq_some_iff.mp h).1]

/-- Past the next `n` characters, or at the end where there are fewer. -/
def skip (cur : Cursor) : Nat → Cursor
  | 0 => cur
  | n + 1 =>
    match cur.next? with
    | some (_, stop) => stop.skip n
    | none => cur

/-- The characters up to the first place where `stop` holds (or the end), and the cursor there. -/
def takeUntil (stop : Position → List Char → Bool) (cur : Cursor) : List Char × Cursor :=
  match _h : cur.next? with
  | none => ([], cur)
  | some (l, next) =>
    if stop cur.pos cur.rest then ([], cur)
    else
      let (text, last) := takeUntil stop next
      (l.char :: text, last)
termination_by cur.rest.length
decreasing_by exact next?_length_lt _h

theorem skip_eq (cur : Cursor) (n : Nat) :
    cur.skip n = ⟨cur.pos.after (cur.rest.take n), cur.rest.drop n⟩ := by
  induction n generalizing cur with
  | zero => rfl
  | succ n ih =>
    obtain ⟨pos, rest⟩ := cur
    cases rest with
    | nil => rfl
    | cons c rest => exact ih ⟨pos.advance c, rest⟩

@[simp] theorem skip_rest (cur : Cursor) (n : Nat) : (cur.skip n).rest = cur.rest.drop n := by
  rw [skip_eq]

@[simp] theorem skip_pos (cur : Cursor) (n : Nat) :
    (cur.skip n).pos = cur.pos.after (cur.rest.take n) := by
  rw [skip_eq]

/-- At the end there is nothing to pass. -/
theorem skip_of_rest_eq_nil {cur : Cursor} (h : cur.rest = []) (n : Nat) : cur.skip n = cur := by
  obtain ⟨pos, rest⟩ := cur
  obtain rfl : rest = [] := h
  rw [skip_eq, List.take_nil, List.drop_nil, Position.after_nil]

theorem skip_add (cur : Cursor) (m n : Nat) : cur.skip (m + n) = (cur.skip m).skip n := by
  rw [skip_eq, skip_eq, skip_eq, List.take_add, Position.after_append, List.drop_drop]

theorem skip_length (cur : Cursor) (n : Nat) :
    (cur.skip n).rest.length = cur.rest.length - n := by simp

/-! ## Reading up to a place -/

@[simp] theorem takeUntil_nil (stop : Position → List Char → Bool) (pos : Position) :
    (Cursor.mk pos []).takeUntil stop = ([], ⟨pos, []⟩) := by
  rw [takeUntil]
  rfl

/-- Where a condition does not hold, reading up to it takes the next character. -/
theorem takeUntil_cons {stop : Position → List Char → Bool} {pos : Position} {c : Char}
    {rest : List Char} (h : stop pos (c :: rest) = false) :
    (Cursor.mk pos (c :: rest)).takeUntil stop
      = (c :: ((Cursor.mk (pos.advance c) rest).takeUntil stop).1,
          ((Cursor.mk (pos.advance c) rest).takeUntil stop).2) := by
  rw [takeUntil]
  simp only [next?, h, Bool.false_eq_true, if_false]

theorem takeUntil_of_stop {stop : Position → List Char → Bool} {pos : Position} {c : Char}
    {rest : List Char} (h : stop pos (c :: rest) = true) :
    (Cursor.mk pos (c :: rest)).takeUntil stop = ([], ⟨pos, c :: rest⟩) := by
  rw [takeUntil]
  simp only [next?, h, if_true]

/-- Conditions that agree on what is left to read stop at one place. -/
theorem takeUntil_congr {stop stop' : Position → List Char → Bool}
    (h : ∀ pos c rest, stop pos (c :: rest) = stop' pos (c :: rest)) (cur : Cursor) :
    cur.takeUntil stop = cur.takeUntil stop' := by
  obtain ⟨pos, rest⟩ := cur
  induction rest generalizing pos with
  | nil => rw [takeUntil_nil, takeUntil_nil]
  | cons c rest ih =>
    cases hc : stop pos (c :: rest) with
    | true => rw [takeUntil_of_stop hc, takeUntil_of_stop (h .. ▸ hc)]
    | false => rw [takeUntil_cons hc, takeUntil_cons (h .. ▸ hc), ih]

/-- What is read and what is left make up what was there. -/
theorem takeUntil_append (stop : Position → List Char → Bool) (cur : Cursor) :
    (cur.takeUntil stop).1 ++ (cur.takeUntil stop).2.rest = cur.rest := by
  fun_induction takeUntil stop cur with
  | case1 | case2 => rfl
  | case3 cur l next h _ text last hread ih =>
    rw [hread] at ih
    rw [(next?_eq_some_iff.mp h).1, ← ih]
    rfl

/-- The position moves past what is read. -/
theorem takeUntil_pos (stop : Position → List Char → Bool) (cur : Cursor) :
    (cur.takeUntil stop).2.pos = cur.pos.after (cur.takeUntil stop).1 := by
  fun_induction takeUntil stop cur with
  | case1 | case2 => rfl
  | case3 cur l next h _ text last hread ih =>
    rw [hread, (next?_eq_some_iff.mp h).2.2] at ih
    exact ih

theorem takeUntil_length_le (stop : Position → List Char → Bool) (cur : Cursor) :
    (cur.takeUntil stop).2.rest.length ≤ cur.rest.length := by
  have h := congrArg List.length (takeUntil_append stop cur)
  rw [List.length_append] at h
  omega

/-- Where `stop` does not hold at once, something is read. -/
theorem takeUntil_length_lt {stop : Position → List Char → Bool} {cur : Cursor}
    (hne : cur.rest ≠ []) (h : stop cur.pos cur.rest = false) :
    (cur.takeUntil stop).2.rest.length < cur.rest.length := by
  obtain ⟨pos, rest⟩ := cur
  cases rest with
  | nil => exact absurd rfl hne
  | cons c rest =>
    rw [takeUntil_cons h]
    exact Nat.lt_succ_of_le (takeUntil_length_le stop ⟨pos.advance c, rest⟩)

/-- Reading ends at the end of the text or where `stop` holds. -/
theorem takeUntil_stops (stop : Position → List Char → Bool) (cur : Cursor) :
    (cur.takeUntil stop).2.rest = [] ∨
      stop (cur.takeUntil stop).2.pos (cur.takeUntil stop).2.rest = true := by
  fun_induction takeUntil stop cur with
  | case1 cur h => exact .inl (next?_eq_none_iff.mp h)
  | case2 cur _ _ _ h => exact .inr h
  | case3 cur l next _ _ text last hread ih =>
    rw [hread] at ih
    exact ih

example : (ofString "ab\nc").takeUntil (fun _ rest => rest.head? == some '\n')
    = (['a', 'b'], ⟨⟨0, 2⟩, ['\n', 'c']⟩) := by decide +kernel
example : ((ofString "x").nextIf? 'y') = none := by decide +kernel

end Cursor

end Stencil
