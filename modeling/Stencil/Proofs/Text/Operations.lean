/-
  A cursor under operations of any kind and number.

  A cursor reads the next character, shows it, says whether there is one, or reads it only if it is
  the one asked for.  Whatever the operations, what they read and what they leave make up what was
  there (`taken_append_remaining`).  What each of them answers depends on nothing but how many
  characters of the text are read (`Performs`), and a character is given with the place that the
  text before it says in closed form.  One operation keeps a cursor where its count says
  (`StandsBehind.perform`), and so does any number of them (`StandsBehind.performAll`).
-/
import Stencil.Proofs.Text.Passes

namespace Stencil.Cursor

/-! ## Operations -/

/-- What a cursor can be asked for. -/
inductive Operation where
  | next
  | peek
  | hasNext
  | nextIf (c : Char)
  deriving DecidableEq, Repr

/-- What a cursor answers: the character that was read, if one was; the one that would be; or
    whether there is one. -/
inductive Answer where
  | read (l : Option Located)
  | shown (c : Option Char)
  | more (b : Bool)
  deriving DecidableEq, Repr

/-- The character that was read. -/
def Answer.taken? : Answer → Option Located
  | read l => l
  | shown _ | more _ => none

/-- What came of reading a character; where none was read, the cursor stays. -/
def afterRead (cur : Cursor) : Option (Located × Cursor) → Answer × Cursor
  | some (l, stop) => (.read (some l), stop)
  | none => (.read none, cur)

def perform (cur : Cursor) : Operation → Answer × Cursor
  | .next => cur.afterRead cur.next?
  | .peek => (.shown cur.peek?, cur)
  | .hasNext => (.more cur.hasNext, cur)
  | .nextIf c => cur.afterRead (cur.nextIf? c)

/-- One operation after the other. -/
def performAll (cur : Cursor) : List Operation → List Answer × Cursor
  | [] => ([], cur)
  | op :: ops =>
    let (answer, stop) := cur.perform op
    let (answers, stop) := stop.performAll ops
    (answer :: answers, stop)

/-- The characters that were read, in the order of the answers. -/
def taken (answers : List Answer) : List Located := answers.filterMap Answer.taken?

theorem taken_cons_none {answer : Answer} {answers : List Answer} (h : answer.taken? = none) :
    taken (answer :: answers) = taken answers := List.filterMap_cons_none h

theorem taken_cons_some {answer : Answer} {answers : List Answer} {l : Located}
    (h : answer.taken? = some l) : taken (answer :: answers) = l :: taken answers :=
  List.filterMap_cons_some h

/-- An operation reads the next character, or leaves the cursor where it is. -/
theorem perform_cases (cur : Cursor) (op : Operation) :
    ((cur.perform op).1.taken? = none ∧ (cur.perform op).2 = cur) ∨
      ∃ l, (cur.perform op).1.taken? = some l ∧ cur.next? = some (l, (cur.perform op).2) := by
  cases op with
  | next =>
    rw [perform]
    cases hread : cur.next? with
    | none => exact .inl ⟨rfl, rfl⟩
    | some step => exact .inr ⟨step.1, rfl, rfl⟩
  | peek | hasNext => exact .inl ⟨rfl, rfl⟩
  | nextIf c =>
    rw [perform]
    cases hread : cur.nextIf? c with
    | none => exact .inl ⟨rfl, rfl⟩
    | some step => exact .inr ⟨step.1, rfl, next?_of_nextIf? hread⟩

/-- **Operations read in order and lose nothing**: with what is left they give what was left. -/
theorem taken_append_remaining (cur : Cursor) (ops : List Operation) :
    taken (cur.performAll ops).1 ++ (cur.performAll ops).2.remaining = cur.remaining := by
  induction ops generalizing cur with
  | nil => rfl
  | cons op ops ih =>
    rw [performAll]
    rcases cur.perform_cases op with ⟨hnone, hstays⟩ | ⟨l, hsome, hnext⟩
    · rw [taken_cons_none hnone, ih, hstays]
    · rw [taken_cons_some hsome, List.cons_append, ih, remaining_of_next? hnext]

/-! ## The operations by counting -/

/-- What is answered when `n` characters of the text are read, and how many are read then. -/
inductive Performs (text : List Char) (n : Nat) : Operation → Answer → Nat → Prop where
  | next {c : Char} (h : text[n]? = some c) :
      Performs text n .next (.read (some ⟨c, .behind (text.take n)⟩)) (n + 1)
  | nextAtEnd (h : text[n]? = none) : Performs text n .next (.read none) n
  | peek : Performs text n .peek (.shown text[n]?) n
  | hasNext : Performs text n .hasNext (.more (n < text.length)) n
  | nextIf {c : Char} (h : text[n]? = some c) :
      Performs text n (.nextIf c) (.read (some ⟨c, .behind (text.take n)⟩)) (n + 1)
  | nextIfOther {c : Char} (h : text[n]? ≠ some c) : Performs text n (.nextIf c) (.read none) n

/-- The same for one operation after the other. -/
inductive PerformsAll (text : List Char) : Nat → List Operation → List Answer → Nat → Prop where
  | nil {n : Nat} : PerformsAll text n [] [] n
  | cons {n m k : Nat} {op : Operation} {ops : List Operation} {answer : Answer}
      {answers : List Answer} (h : Performs text n op answer m)
      (hrest : PerformsAll text m ops answers k) :
      PerformsAll text n (op :: ops) (answer :: answers) k

variable {text : List Char}

/-- An operation reads the next character of the text, in its place, or nothing. -/
theorem Performs.taken_cases {n m : Nat} {op : Operation} {answer : Answer}
    (h : Performs text n op answer m) :
    (answer.taken? = none ∧ m = n) ∨
      ∃ c, text[n]? = some c ∧ answer.taken? = some ⟨c, .behind (text.take n)⟩ ∧ m = n + 1 := by
  cases h with
  | next h => exact .inr ⟨_, h, rfl, rfl⟩
  | nextIf h => exact .inr ⟨_, h, rfl, rfl⟩
  | nextAtEnd | peek | hasNext | nextIfOther => exact .inl ⟨rfl, rfl⟩

/-- What is read counts, and each character is given with the place that is behind the text before
    it. -/
theorem PerformsAll.taken_eq {n m : Nat} {ops : List Operation} {answers : List Answer}
    (h : PerformsAll text n ops answers m) :
    n + (taken answers).length = m ∧
    ∀ (i : Nat) (l : Located), (taken answers)[i]? = some l →
      l.pos = .behind (text.take (n + i)) := by
  induction h with
  | nil => exact ⟨rfl, by simp [taken]⟩
  | @cons n m k op ops answer answers h hrest ih =>
    obtain ⟨hcount, hplaces⟩ := ih
    rcases h.taken_cases with ⟨hnone, rfl⟩ | ⟨c, hc, hsome, rfl⟩
    · rw [taken_cons_none hnone]
      exact ⟨hcount, hplaces⟩
    · rw [taken_cons_some hsome]
      refine ⟨by rw [List.length_cons]; omega, fun i l hl => ?_⟩
      cases i with
      | zero =>
        rw [List.getElem?_cons_zero, Option.some.injEq] at hl
        rw [← hl, Nat.add_zero]
      | succ i =>
        rw [hplaces i l hl, Nat.add_right_comm, Nat.add_assoc]

/-! ## Cursors by counting -/

/-- The cursor stands in the text behind its first `n` characters. -/
structure StandsBehind (text : List Char) (n : Nat) (cur : Cursor) : Prop where
  le_length : n ≤ text.length
  rest_eq : cur.rest = text.drop n
  pos_eq : cur.pos = .behind (text.take n)

theorem standsBehind_start (text : String) : (ofString text).StandsBehind text.toList 0 :=
  ⟨Nat.zero_le _, rfl, rfl⟩

namespace StandsBehind

variable {n : Nat} {cur stop : Cursor}

/-- What a cursor passes counts. -/
theorem passes {u : List Char} (h : cur.StandsBehind text n) (hpass : cur.Passes u stop) :
    stop.StandsBehind text (n + u.length) := by
  have hdrop : text.drop n = u ++ stop.rest := h.rest_eq.symm.trans hpass.rest_eq
  have htake : text.take (n + u.length) = text.take n ++ u := by
    rw [List.take_add, hdrop, List.take_left]
  refine ⟨?_, ?_, ?_⟩
  · have hlength := congrArg List.length hdrop
    rw [List.length_drop, List.length_append] at hlength
    have := h.le_length
    omega
  · rw [← List.drop_drop, hdrop, List.drop_left]
  · rw [hpass.pos_eq, h.pos_eq, Position.after_behind, htake]

theorem peek?_eq (h : cur.StandsBehind text n) : cur.peek? = text[n]? := by
  rw [peek?, h.rest_eq, List.head?_drop]

theorem hasNext_eq (h : cur.StandsBehind text n) : cur.hasNext = decide (n < text.length) := by
  rw [hasNext, h.rest_eq, Bool.eq_iff_iff]
  simp

/-- Where there is a character, reading it gives it with its place and counts one more. -/
theorem next?_some {c : Char} (h : cur.StandsBehind text n) (hc : text[n]? = some c) :
    ∃ stop, cur.next? = some (⟨c, .behind (text.take n)⟩, stop) ∧
      stop.StandsBehind text (n + 1) := by
  have hrest : cur.rest = c :: text.drop (n + 1) := by
    obtain ⟨hlt, hget⟩ := List.getElem?_eq_some_iff.mp hc
    rw [h.rest_eq, List.drop_eq_getElem_cons hlt, hget]
  refine ⟨⟨cur.pos.advance c, text.drop (n + 1)⟩, ?_, h.passes (u := [c]) ⟨hrest, rfl⟩⟩
  rw [next?_eq_some_iff]
  exact ⟨hrest, h.pos_eq.symm, rfl⟩

theorem next?_none (h : cur.StandsBehind text n) (hc : text[n]? = none) : cur.next? = none := by
  rw [next?_eq_none_iff, h.rest_eq, List.drop_eq_nil_iff]
  exact List.getElem?_eq_none_iff.mp hc

/-- **One operation** answers what the count says. -/
theorem perform (h : cur.StandsBehind text n) (op : Operation) :
    ∃ m, Performs text n op (cur.perform op).1 m ∧ (cur.perform op).2.StandsBehind text m := by
  cases op with
  | next =>
    cases hc : text[n]? with
    | none =>
      rw [Cursor.perform, h.next?_none hc]
      exact ⟨n, .nextAtEnd hc, h⟩
    | some c =>
      obtain ⟨stop, hnext, hstop⟩ := h.next?_some hc
      rw [Cursor.perform, hnext]
      exact ⟨n + 1, .next hc, hstop⟩
  | peek =>
    rw [Cursor.perform, h.peek?_eq]
    exact ⟨n, .peek, h⟩
  | hasNext =>
    rw [Cursor.perform, h.hasNext_eq]
    exact ⟨n, .hasNext, h⟩
  | nextIf c =>
    rw [Cursor.perform, nextIf?, h.peek?_eq]
    by_cases hc : text[n]? = some c
    · obtain ⟨stop, hnext, hstop⟩ := h.next?_some hc
      rw [if_pos hc, hnext]
      exact ⟨n + 1, .nextIf hc, hstop⟩
    · rw [if_neg hc]
      exact ⟨n, .nextIfOther hc, h⟩

/-- **Any number of operations** answer what the counts say. -/
theorem performAll (h : cur.StandsBehind text n) (ops : List Operation) :
    ∃ m, PerformsAll text n ops (cur.performAll ops).1 m ∧
      (cur.performAll ops).2.StandsBehind text m := by
  induction ops generalizing cur n with
  | nil => exact ⟨n, .nil, h⟩
  | cons op ops ih =>
    obtain ⟨m, hop, hstop⟩ := h.perform op
    obtain ⟨k, hops, hend⟩ := ih hstop
    exact ⟨k, .cons hop hops, hend⟩

end StandsBehind

end Stencil.Cursor
