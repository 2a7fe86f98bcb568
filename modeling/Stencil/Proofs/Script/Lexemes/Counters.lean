/-
  The two counters of rows and columns.

  A template is read by a cursor, which is what is left of the text; a script is read by a lexer,
  which is an index into an array with a row and a column counted beside it.  A cursor answers, and
  stands, as the number of characters read says (`Cursor.StandsBehind.performAll`).  A lexer does
  so too, since each of its steps is a step of the cursor that it stands for
  (`Lexer.toCursor_advanceBy`).  So the two agree wherever they have read as much of the same text,
  in whatever way and past the end too (`counts_agree`), and the places of lexemes are places of
  the lexer's counter (`lexemes_reached`).
-/
import Stencil.Proofs.Script.Lexemes.Cursors
import Stencil.Proofs.Text.Operations

namespace Stencil.Script

namespace Lexer

variable {lexer : Lexer}

/-! ## Any number of steps -/

@[simp] theorem input_advanceBy (lexer : Lexer) (n : Nat) :
    (lexer.advanceBy n).input = lexer.input := by
  induction n generalizing lexer with
  | zero => rfl
  | succ n ih => rw [advanceBy, ih, input_advance]

/-- The index goes up by one, or stays at the end. -/
theorem index_advance_eq_min (h : lexer.index ≤ lexer.input.size) :
    lexer.advance.2.index = min (lexer.index + 1) lexer.input.size := by
  cases hpeek : lexer.peek? with
  | none =>
    have hend : lexer.input.size ≤ lexer.index := Array.getElem?_eq_none_iff.mp hpeek
    rw [advance_of_none hpeek, Nat.min_eq_right (Nat.le_succ_of_le hend)]
    exact Nat.le_antisymm h hend
  | some c =>
    have hlt : lexer.index < lexer.input.size := (Array.getElem?_eq_some_iff.mp hpeek).1
    rw [index_advance hpeek, Nat.min_eq_left hlt]

/-- It counts the steps, up to the end. -/
theorem index_advanceBy (h : lexer.index ≤ lexer.input.size) (n : Nat) :
    (lexer.advanceBy n).index = min (lexer.index + n) lexer.input.size := by
  induction n generalizing lexer with
  | zero => exact (Nat.min_eq_left h).symm
  | succ n ih =>
    have hstep := index_advance_eq_min h
    have hle : lexer.advance.2.index ≤ lexer.advance.2.input.size := by
      rw [hstep, input_advance]
      exact Nat.min_le_right _ _
    rw [advanceBy, ih hle, input_advance, hstep]
    omega

/-- **Any number of steps** from the start of a script pass as many of its characters, and the
    counted place is the one behind them. -/
theorem advanceBy_ofString (script : String) (n : Nat) :
    ((ofString script).advanceBy n).index = min n script.toList.length ∧
    ((ofString script).advanceBy n).pos = .behind (script.toList.take n) ∧
    ∀ k, ((ofString script).advanceBy n).peekAt? k
      = script.toList[min n script.toList.length + k]? := by
  have hindex : ((ofString script).advanceBy n).index = min n script.toList.length := by
    rw [index_advanceBy (Nat.zero_le _), ofString, Nat.zero_add, List.size_toArray]
  refine ⟨hindex, ?_, fun k => ?_⟩
  · rw [← toCursor_pos, toCursor_advanceBy, toCursor_ofString, Cursor.skip_pos]
    exact Position.after_behind [] (script.toList.take n)
  · rw [peekAt?, hindex, input_advanceBy, ofString, List.getElem?_toArray]

/-! ## Lexemes -/

/-- Every lexeme stands where some number of steps leads. -/
theorem lexemesFrom_reached {broken : Bool} {row : List Lexeme}
    (h : lexer.lexemesFrom broken = .ok row) : ∀ l ∈ row, ∃ n, l.pos = (lexer.advanceBy n).pos := by
  -- what is reached behind an item is reached from in front of it
  have hbehind {lexer stop : Lexer} {c : Char} {i : Item} {row : List Lexeme}
      (hpeek : lexer.peek? = some c) (hread : lexer.readItem c = .ok (i, stop))
      (hrow : ∀ l ∈ row, ∃ n, l.pos = (stop.advanceBy n).pos) :
      ∀ l ∈ row, ∃ n, l.pos = (lexer.advanceBy n).pos := by
    obtain ⟨m, rfl⟩ := Reaches.step (reaches_readItem hpeek hread)
    intro l hl
    obtain ⟨n, hn⟩ := hrow l hl
    exact ⟨m + n, by rw [hn, advanceBy_add]⟩
  fun_induction lexemesFrom broken lexer generalizing row with
  | case1 => cases h; simp
  | case2 => cases h
  | case3 broken lexer c hpeek breaks stop hread ih => exact hbehind hpeek hread (ih h)
  | case4 => cases h
  | case5 broken lexer c hpeek w stop hread others hrest ih =>
    cases h
    exact List.forall_mem_cons.mpr ⟨⟨0, rfl⟩, hbehind hpeek hread (ih hrest)⟩

end Lexer

theorem lexemes_reached {script : String} {row : List Lexeme} (h : lexemes script = .ok row) :
    ∀ l ∈ row, ∃ n, l.pos = ((Lexer.ofString script).advanceBy n).pos :=
  Lexer.lexemesFrom_reached h

/-! ## Agreement -/

/-- **Rows and columns are counted alike everywhere.**  Whatever is asked of a cursor at the start
    of a text, in any order and past the end too, is answered by the count of characters read: they
    are a first part of the text, each with the place behind the text before it, and an operation
    that reads none leaves the cursor where it is.  A lexer takes any number of steps over the same
    text, past the end too: each gives the next character, and where it has taken as many of them,
    it has counted the same row and column and sees the same text ahead. -/
theorem counts_agree (text : String) (ops : List Cursor.Operation) :
    let answers := ((Cursor.ofString text).performAll ops).1
    let stop := ((Cursor.ofString text).performAll ops).2
    let count := (Cursor.taken answers).length
    Cursor.PerformsAll text.toList 0 ops answers count ∧
    (Cursor.taken answers).map Located.char ++ stop.rest = text.toList ∧
    (∀ (i : Nat) (l : Located), (Cursor.taken answers)[i]? = some l →
      l.pos = .behind (text.toList.take i)) ∧
    stop.pos = .behind (text.toList.take count) ∧
    (∀ op, (stop.perform op).1.taken? = none → (stop.perform op).2 = stop) ∧
    ((Lexer.ofString text).advanceBy count).index = count ∧
    ∀ n,
      let lexer := (Lexer.ofString text).advanceBy n
      lexer.index = min n text.toList.length ∧
      lexer.pos = .behind (text.toList.take n) ∧
      lexer.advance.1 = text.toList[n]? ∧
      (lexer.index = count → lexer.pos = stop.pos ∧ lexer.peek? = stop.peek? ∧
        ∀ k, lexer.peekAt? k = stop.rest[k]?) := by
  intro answers stop count
  obtain ⟨m, hperforms, hstop⟩ := (Cursor.standsBehind_start text).performAll ops
  obtain ⟨hcount, hplaces⟩ := hperforms.taken_eq
  rw [Nat.zero_add] at hcount
  subst hcount
  refine ⟨hperforms, ?_, fun i l hl => ?_, hstop.pos_eq, fun op hnone => ?_, ?_, fun n => ?_⟩
  · have hkept := congrArg (List.map Located.char) (Cursor.taken_append_remaining (.ofString text) ops)
    rwa [List.map_append, Cursor.map_char_remaining, Cursor.map_char_remaining] at hkept
  · rw [hplaces i l hl, Nat.zero_add]
  · rcases stop.perform_cases op with ⟨-, hstays⟩ | ⟨l, hsome, -⟩
    · exact hstays
    · cases hnone.symm.trans hsome
  · rw [(Lexer.advanceBy_ofString text count).1]
    exact Nat.min_eq_left hstop.le_length
  · obtain ⟨hindex, hpos, hpeek⟩ := Lexer.advanceBy_ofString text n
    refine ⟨hindex, hpos, ?_, fun hsame => ?_⟩
    · rw [Lexer.advance_fst, ← Lexer.peekAt?_zero, hpeek, Nat.add_zero]
      rcases Nat.le_total n text.toList.length with hle | hle
      · rw [Nat.min_eq_left hle]
      · rw [Nat.min_eq_right hle, List.getElem?_eq_none (Nat.le_refl _), List.getElem?_eq_none hle]
    · have hahead : ∀ k, ((Lexer.ofString text).advanceBy n).peekAt? k = stop.rest[k]? := by
        intro k
        rw [hpeek, ← hindex, hsame, hstop.rest_eq, List.getElem?_drop]
      have hread : text.toList.take n = text.toList.take count := by
        rw [List.take_eq_take_iff, ← hindex, hsame, Nat.min_eq_left hstop.le_length]
      refine ⟨by rw [hpos, hread, hstop.pos_eq], ?_, hahead⟩
      rw [← Lexer.peekAt?_zero, hahead, Cursor.peek?, List.head?_eq_getElem?]

end Stencil.Script
