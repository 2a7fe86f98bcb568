/-
  Moving a cursor over a text.

  A cursor that has passed a text stands behind it: the text is gone from what is to be read, and
  the position has moved past exactly its characters (`Cursor.Passes`).  Every reader of this
  library is a chain of such moves, so `Passes.trans` is all that is needed to say where a reader
  stops.  The position behind a text that starts at the first row is given in closed form by
  `Position.behind`.
-/
import Stencil.Text.Cursor

namespace Stencil

namespace Position

/-! ## Positions without recursion -/

/-- The characters of a text behind its last line break. -/
def lastLine (text : List Char) : List Char := (text.reverse.takeWhile (· ≠ '\n')).reverse

/-- The place behind a text: as many rows as it has line breaks, and as many columns as there are
    characters since the last one. -/
def behind (text : List Char) : Position := ⟨text.count '\n', (lastLine text).length⟩

theorem lastLine_append_newline (text : List Char) : lastLine (text ++ ['\n']) = [] := by
  simp [lastLine]

theorem lastLine_append_of_ne {c : Char} (text : List Char) (h : c ≠ '\n') :
    lastLine (text ++ [c]) = lastLine text ++ [c] := by
  simp [lastLine, h]

/-- One character further, the closed form moves as `advance` does. -/
theorem behind_append (text : List Char) (c : Char) :
    behind (text ++ [c]) = (behind text).advance c := by
  by_cases h : c = '\n'
  · subst h
    simp [behind, lastLine_append_newline, List.count_append]
  · rw [advance_of_ne _ h, behind, lastLine_append_of_ne text h]
    simp [behind, List.count_append, h]

/-- Moving past `more` from behind `text` leads behind both. -/
theorem after_behind (text more : List Char) :
    (behind text).after more = behind (text ++ more) := by
  induction more generalizing text with
  | nil => simp
  | cons c more ih =>
    rw [after_cons, ← behind_append, ih]
    simp

example : behind ['a', '\n', 'b', 'c'] = ⟨1, 2⟩ := by decide

end Position

namespace Cursor

/-! ## Passing a text -/

/-- Going from `cur` to `stop` passes exactly `text`. -/
structure Passes (cur : Cursor) (text : List Char) (stop : Cursor) : Prop where
  rest_eq : cur.rest = text ++ stop.rest
  pos_eq : stop.pos = cur.pos.after text

namespace Passes

theorem refl (cur : Cursor) : cur.Passes [] cur := ⟨rfl, rfl⟩

theorem trans {a b c : Cursor} {s t : List Char} (h : a.Passes s b) (h' : b.Passes t c) :
    a.Passes (s ++ t) c := by
  refine ⟨?_, ?_⟩
  · rw [h.rest_eq, h'.rest_eq, List.append_assoc]
  · rw [h'.pos_eq, h.pos_eq, Position.after_append]

/-- Where a text stands at the cursor, skipping its length passes it. -/
theorem skip {cur : Cursor} (text : List Char) {rest : List Char} (h : cur.rest = text ++ rest) :
    cur.Passes text (cur.skip text.length) := by
  refine ⟨?_, ?_⟩
  · rw [skip_rest, h, List.drop_left]
  · rw [skip_pos, h, List.take_left]

theorem takeUntil (stop : Position → List Char → Bool) (cur : Cursor) :
    cur.Passes (cur.takeUntil stop).1 (cur.takeUntil stop).2 :=
  ⟨(takeUntil_append stop cur).symm, takeUntil_pos stop cur⟩

end Passes

/-! ## What is read up to a place -/

/-- Where a condition looks at the next character only, what is read up to it satisfies none of
    its instances. -/
theorem not_stop_of_mem_takeUntil {p : Char → Bool} {stop : Position → List Char → Bool}
    (hstop : ∀ pos c rest, stop pos (c :: rest) = p c) (cur : Cursor) :
    ∀ c ∈ (cur.takeUntil stop).1, p c = false := by
  obtain ⟨pos, rest⟩ := cur
  induction rest generalizing pos with
  | nil => simp
  | cons c rest ih =>
    by_cases h : stop pos (c :: rest) = true
    · simp [takeUntil_of_stop h]
    · rw [Bool.not_eq_true] at h
      rw [takeUntil_cons h]
      intro x hx
      rcases List.mem_cons.mp hx with rfl | hx
      · rw [← hstop pos x rest, h]
      · exact ih _ x hx

/-- Reading up to a place behind `text` takes `text`, when the condition does not hold where the
    characters of `text` stand. -/
theorem takeUntil_eq_at {stop : Position → List Char → Bool} {text rest : List Char}
    {pos : Position}
    (hno : ∀ front c back, text = front ++ c :: back →
      stop (pos.after front) (c :: (back ++ rest)) = false)
    (hstop : rest = [] ∨ stop (pos.after text) rest = true) :
    (Cursor.mk pos (text ++ rest)).takeUntil stop = (text, ⟨pos.after text, rest⟩) := by
  induction text generalizing pos with
  | nil =>
    cases rest with
    | nil => exact takeUntil_nil stop pos
    | cons c rest => exact takeUntil_of_stop (hstop.resolve_left (by simp))
  | cons c text ih =>
    have hc : stop pos (c :: (text ++ rest)) = false := hno [] c text rfl
    have hno' : ∀ front c' back, text = front ++ c' :: back →
        stop ((pos.advance c).after front) (c' :: (back ++ rest)) = false :=
      fun front c' back h => hno (c :: front) c' back (by rw [h]; rfl)
    rw [List.cons_append, takeUntil_cons hc, ih hno' hstop, Position.after_cons]

/-- Reading up to a place behind `text` takes `text`, when the condition holds at none of the
    characters of `text`, wherever they stand. -/
theorem takeUntil_eq {stop : Position → List Char → Bool} {text rest : List Char}
    (hno : ∀ s, s ≠ [] → s <:+ text → ∀ pos, stop pos (s ++ rest) = false)
    (hstop : rest = [] ∨ ∀ pos, stop pos rest = true) (pos : Position) :
    (Cursor.mk pos (text ++ rest)).takeUntil stop = (text, ⟨pos.after text, rest⟩) :=
  takeUntil_eq_at
    (fun front c back h => hno (c :: back) (List.cons_ne_nil c back) ⟨front, h.symm⟩ _)
    (hstop.imp_right fun h => h _)

/-- The condition holds at none of the characters that are read, in the place where it stands. -/
theorem not_stop_of_takeUntil_eq {stop : Position → List Char → Bool} (cur : Cursor)
    {front back : List Char} {c : Char} (h : (cur.takeUntil stop).1 = front ++ c :: back) :
    stop (cur.pos.after front) (c :: (back ++ (cur.takeUntil stop).2.rest)) = false := by
  obtain ⟨pos, rest⟩ := cur
  induction rest generalizing pos front with
  | nil => simp at h
  | cons d rest ih =>
    by_cases hd : stop pos (d :: rest) = true
    · simp [takeUntil_of_stop hd] at h
    · rw [Bool.not_eq_true] at hd
      rw [takeUntil_cons hd] at h ⊢
      cases front with
      | nil =>
        -- the first character: what was read behind it and what is left are what stood there
        obtain ⟨rfl, hback⟩ := List.cons.inj h
        rw [← hback, takeUntil_append]
        exact hd
      | cons d' front =>
        obtain ⟨rfl, hfront⟩ := List.cons.inj h
        exact ih _ hfront

/-- A condition that does not look at the place holds at none of the characters that are read. -/
theorem stop_of_suffix_takeUntil {stop : Position → List Char → Bool}
    (hstop : ∀ p q rest, stop p rest = stop q rest) (cur : Cursor) {s : List Char} (hs : s ≠ [])
    (h : s <:+ (cur.takeUntil stop).1) (pos : Position) :
    stop pos (s ++ (cur.takeUntil stop).2.rest) = false := by
  obtain ⟨front, hfront⟩ := h
  obtain ⟨c, back, rfl⟩ := List.exists_cons_of_ne_nil hs
  rw [hstop pos (cur.pos.after front)]
  exact not_stop_of_takeUntil_eq cur hfront.symm

/-- Reading on while the next character is of some class. -/
theorem takeUntil_class {p : Char → Bool} {text rest : List Char} (hall : ∀ c ∈ text, p c = true)
    (hrest : rest.head?.any p = false) (pos : Position) :
    (Cursor.mk pos (text ++ rest)).takeUntil (fun _ rest => !(rest.head?.any p))
      = (text, ⟨pos.after text, rest⟩) := by
  refine takeUntil_eq (fun s hs hsuffix _ => ?_) (Or.inr fun _ => by rw [hrest]; rfl) pos
  cases s with
  | nil => exact absurd rfl hs
  | cons c s => simp [hall c (hsuffix.subset List.mem_cons_self)]

theorem head?_takeUntil_class {p : Char → Bool} (cur : Cursor) :
    (cur.takeUntil fun _ rest => !(rest.head?.any p)).2.rest.head?.any p = false := by
  rcases takeUntil_stops (fun _ rest => !(rest.head?.any p)) cur with h | h
  · rw [h]
    rfl
  · simpa using h

theorem of_mem_takeUntil_class {p : Char → Bool} (cur : Cursor) :
    ∀ c ∈ (cur.takeUntil fun _ rest => !(rest.head?.any p)).1, p c = true := by
  intro c hc
  have := not_stop_of_mem_takeUntil (p := fun c => !p c) (fun _ _ _ => by simp) cur c hc
  simpa using this

end Cursor

end Stencil
