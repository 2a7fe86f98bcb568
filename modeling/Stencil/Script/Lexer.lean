/-
  A script that is read character by character.

  The characters of the script stand in an array, and beside the index of the next one a row and a
  column are counted.  `advance` is the only way on: whatever is read, the lexer stops where some
  number of steps leads (`Reaches`).  A step takes one off the number of characters left
  (`left_advance`), so that everything that reads a script comes to an end.
-/
import Stencil.Text.Position

namespace Stencil.Script

/-- A script, how far it is read, and the row and the column there. -/
structure Lexer where
  input : Array Char
  index : Nat
  row : Nat
  column : Nat
  deriving DecidableEq, Repr

namespace Lexer

/-- At the start of a script. -/
def ofString (script : String) : Lexer := ⟨script.toList.toArray, 0, 0, 0⟩

/-- Where the lexer stands. -/
def pos (r : Lexer) : Position := ⟨r.row, r.column⟩

/-- The character to be read next. -/
def peek? (r : Lexer) : Option Char := r.input[r.index]?

/-- The character that is `offset` further on. -/
def peekAt? (r : Lexer) (offset : Nat) : Option Char := r.input[r.index + offset]?

/-- Read one character, if there is one. -/
def advance (r : Lexer) : Option Char × Lexer :=
  match r.peek? with
  | none => (none, r)
  | some c =>
    (some c,
      if c = '\n' then { r with index := r.index + 1, row := r.row + 1, column := 0 }
      else { r with index := r.index + 1, column := r.column + 1 })

/-- Past the next `n` characters, or at the end where there are fewer. -/
def advanceBy (r : Lexer) : Nat → Lexer
  | 0 => r
  | n + 1 => r.advance.2.advanceBy n

/-- How many characters are left. -/
def left (r : Lexer) : Nat := r.input.size - r.index

/-! ## One step -/

theorem peekAt?_zero (r : Lexer) : r.peekAt? 0 = r.peek? := rfl

theorem advance_fst (r : Lexer) : r.advance.1 = r.peek? := by
  unfold advance
  split <;> simp_all

theorem advance_of_none {r : Lexer} (h : r.peek? = none) : r.advance = (none, r) := by
  simp [advance, h]

theorem advance_eq_some {r stop : Lexer} {c : Char} (h : r.advance = (some c, stop)) :
    r.peek? = some c ∧ r.advance.2 = stop := by
  rw [← advance_fst, h]
  exact ⟨rfl, rfl⟩

@[simp] theorem input_advance (r : Lexer) : r.advance.2.input = r.input := by
  unfold advance
  split
  · rfl
  · dsimp only
    split <;> rfl

theorem index_advance {r : Lexer} {c : Char} (h : r.peek? = some c) :
    r.advance.2.index = r.index + 1 := by
  simp only [advance, h]
  split <;> rfl

/-- A step counts rows and columns as positions do. -/
theorem pos_advance {r : Lexer} {c : Char} (h : r.peek? = some c) :
    r.advance.2.pos = r.pos.advance c := by
  simp only [advance, h, Position.advance]
  split <;> rfl

theorem left_advance {r : Lexer} {c : Char} (h : r.peek? = some c) :
    r.advance.2.left + 1 = r.left := by
  have hlt : r.index < r.input.size := (Array.getElem?_eq_some_iff.mp h).1
  rw [left, left, input_advance, index_advance h]
  omega

theorem left_advance_le (r : Lexer) : r.advance.2.left ≤ r.left := by
  cases h : r.peek? with
  | none => exact Nat.le_of_eq (by rw [advance_of_none h])
  | some c => exact Nat.le_of_lt (Nat.lt_of_succ_le (Nat.le_of_eq (left_advance h)))

/-! ## Any number of steps -/

theorem advanceBy_add (r : Lexer) (m n : Nat) :
    r.advanceBy (m + n) = (r.advanceBy m).advanceBy n := by
  induction m generalizing r with
  | zero => rw [Nat.zero_add]; rfl
  | succ m ih => rw [Nat.succ_add]; exact ih r.advance.2

theorem left_advanceBy_le (r : Lexer) (n : Nat) : (r.advanceBy n).left ≤ r.left := by
  induction n generalizing r with
  | zero => exact Nat.le_refl _
  | succ n ih => exact Nat.le_trans (ih r.advance.2) r.left_advance_le

/-- Steps lead from the one to the other. -/
def Reaches (r stop : Lexer) : Prop := ∃ n, stop = r.advanceBy n

namespace Reaches

variable {r mid stop : Lexer}

theorem refl (r : Lexer) : r.Reaches r := ⟨0, rfl⟩

theorem trans (h : r.Reaches mid) (h' : mid.Reaches stop) : r.Reaches stop := by
  obtain ⟨m, rfl⟩ := h
  obtain ⟨n, rfl⟩ := h'
  exact ⟨m + n, (r.advanceBy_add m n).symm⟩

/-- One step, and what is reached from there. -/
theorem step (h : r.advance.2.Reaches stop) : r.Reaches stop := by
  obtain ⟨n, rfl⟩ := h
  exact ⟨n + 1, rfl⟩

theorem advanceBy (r : Lexer) (n : Nat) : r.Reaches (r.advanceBy n) := ⟨n, rfl⟩

theorem left_le (h : r.Reaches stop) : stop.left ≤ r.left := by
  obtain ⟨n, rfl⟩ := h
  exact r.left_advanceBy_le n

theorem of_advance {c : Char} (hadvance : r.advance = (some c, mid)) (h : mid.Reaches stop) :
    r.Reaches stop :=
  .step ((advance_eq_some hadvance).2 ▸ h)

end Reaches

/-- Where there is a character, what is reached past it is strictly further on. -/
theorem left_lt_of_peek? {r stop : Lexer} {c : Char} (hpeek : r.peek? = some c)
    (h : r.advance.2.Reaches stop) : stop.left < r.left := by
  rw [← left_advance hpeek]
  exact Nat.lt_succ_of_le h.left_le

theorem left_lt_of_advance {r mid stop : Lexer} {c : Char} (hadvance : r.advance = (some c, mid))
    (h : mid.Reaches stop) : stop.left < r.left :=
  left_lt_of_peek? (advance_eq_some hadvance).1 ((advance_eq_some hadvance).2 ▸ h)

/-! ## Characters of a class -/

/-- The characters up to the first that is not of the class `p`. -/
def takeWhile (p : Char → Bool) (r : Lexer) : List Char × Lexer :=
  match _h : r.peek? with
  | none => ([], r)
  | some c =>
    if p c then
      let (text, stop) := takeWhile p r.advance.2
      (c :: text, stop)
    else ([], r)
termination_by r.left
decreasing_by exact left_lt_of_peek? _h (.refl _)

/-- The same, of at most so many characters. -/
def takeUpTo (p : Char → Bool) (r : Lexer) : Nat → List Char × Lexer
  | 0 => ([], r)
  | n + 1 =>
    match r.peek? with
    | none => ([], r)
    | some c =>
      if p c then
        let (text, stop) := takeUpTo p r.advance.2 n
        (c :: text, stop)
      else ([], r)

/-- Whether `text` stands here. -/
def startsWith (r : Lexer) (text : List Char) : Bool :=
  text.zipIdx.all fun p => r.peekAt? p.2 == some p.1

theorem reaches_takeWhile (p : Char → Bool) (r : Lexer) : r.Reaches (r.takeWhile p).2 := by
  fun_induction takeWhile p r with
  | case1 | case3 => exact .refl _
  | case2 r c h hp text stop hread ih =>
    rw [hread] at ih
    exact .step ih

theorem reaches_takeUpTo (p : Char → Bool) (r : Lexer) (n : Nat) :
    r.Reaches (r.takeUpTo p n).2 := by
  fun_induction takeUpTo p r n with
  | case1 | case2 | case4 => exact .refl _
  | case3 r n c h hp text stop hread ih =>
    rw [hread] at ih
    exact .step ih

theorem takeWhile_of_peek? {p : Char → Bool} {r : Lexer} {c : Char} (h : r.peek? = some c)
    (hp : ¬p c = true) : r.takeWhile p = ([], r) := by
  rw [takeWhile]
  split
  · rfl
  · rename_i d hd
    obtain rfl : c = d := Option.some.inj (h.symm.trans hd)
    exact if_neg hp

/-- Past a character of the class there is at least its own step. -/
theorem reaches_takeWhile_of_peek? {p : Char → Bool} {r : Lexer} {c : Char}
    (h : r.peek? = some c) (hp : p c = true) : r.advance.2.Reaches (r.takeWhile p).2 := by
  rw [takeWhile]
  split
  · simp_all
  · rename_i d hd
    obtain rfl : c = d := Option.some.inj (h.symm.trans hd)
    rw [if_pos hp]
    exact reaches_takeWhile p r.advance.2

example : ((ofString "a\nb").advanceBy 2).pos = ⟨1, 0⟩ := by decide +kernel
example : ((ofString "ab").advanceBy 5).index = 2 := by decide +kernel

end Lexer

end Stencil.Script
