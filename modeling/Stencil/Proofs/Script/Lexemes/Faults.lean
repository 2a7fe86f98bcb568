/-
  Where the lexemes of a script stand, and where a script cannot be cut into lexemes.

  A lexeme stands at the first of its characters.  What cannot be read is a fault of syntax, placed
  at a character of the script too, with one exception: where the script ends behind a backslash,
  the escape that is cut off is missed at the end (`lexemes_fault`).
-/
import Stencil.Proofs.Script.Lexemes.Rows

namespace Stencil

namespace Cursor

/-- One of the characters still to be read stands at `p`. -/
def Ahead (cur : Cursor) (p : Position) : Prop :=
  ∃ front c back, cur.rest = front ++ c :: back ∧ p = cur.pos.after front

variable {cur stop : Cursor} {p : Position}

theorem ahead_here {c : Char} {rest : List Char} (h : cur.rest = c :: rest) : cur.Ahead cur.pos :=
  ⟨[], c, rest, h, rfl⟩

/-- What is ahead behind a text that is passed is ahead before it. -/
theorem Ahead.of_passes {u : List Char} (hpass : cur.Passes u stop) (h : stop.Ahead p) :
    cur.Ahead p := by
  obtain ⟨front, c, back, hrest, hp⟩ := h
  refine ⟨u ++ front, c, back, ?_, ?_⟩
  · rw [hpass.rest_eq, hrest, List.append_assoc]
  · rw [hp, hpass.pos_eq, Position.after_append]

theorem passes_skip (cur : Cursor) (n : Nat) : cur.Passes (cur.rest.take n) (cur.skip n) :=
  ⟨by rw [skip_rest, List.take_append_drop], skip_pos cur n⟩

end Cursor

namespace Script

/-- The fault is that the text, which ends in a backslash, ends too early. -/
structure CutOff (cur : Cursor) (e : ScriptError) : Prop where
  fault_eq : e.fault = .unterminatedString
  getLast?_eq : cur.rest.getLast? = some '\\'
  pos_eq : e.pos = cur.pos.after cur.rest

/-- The fault stands at a character that is ahead, or the end of the text cuts an escape off. -/
def FaultAhead (cur : Cursor) (e : ScriptError) : Prop := cur.Ahead e.pos ∨ CutOff cur e

theorem CutOff.of_passes {cur stop : Cursor} {e : ScriptError} {u : List Char}
    (hpass : cur.Passes u stop) (h : CutOff stop e) : CutOff cur e where
  fault_eq := h.fault_eq
  getLast?_eq := by rw [hpass.rest_eq, List.getLast?_append, h.getLast?_eq, Option.some_or]
  pos_eq := by rw [h.pos_eq, hpass.pos_eq, hpass.rest_eq, Position.after_append]

theorem FaultAhead.of_passes {cur stop : Cursor} {e : ScriptError} {u : List Char}
    (hpass : cur.Passes u stop) (h : FaultAhead stop e) : FaultAhead cur e :=
  h.imp (·.of_passes hpass) (·.of_passes hpass)

/-! ## Literals -/

theorem readHexEscape_ne_cutOff (letter : Char) (count : Nat) (rest : List Char) :
    readHexEscape letter count rest ≠ .cutOff := by
  simp only [readHexEscape]
  split
  · split <;> simp
  · simp

theorem readBracedEscape_ne_cutOff (rest : List Char) : readBracedEscape rest ≠ .cutOff := by
  simp only [readBracedEscape]
  split
  · simp
  · split <;> simp

/-- An escape is cut off only by the end of the script. -/
theorem readEscape_cutOff {rest : List Char} (h : readEscape rest = .cutOff) : rest = [] := by
  unfold readEscape at h
  split at h
  · rfl
  · cases h
  · cases h
  · cases h
  · cases h
  · exact absurd h (readHexEscape_ne_cutOff _ _ _)
  · exact absurd h (readBracedEscape_ne_cutOff _)
  · exact absurd h (readHexEscape_ne_cutOff _ _ _)
  · split at h <;> cases h

/-- What goes wrong behind some characters of a literal goes wrong in the literal. -/
theorem fault_of_skip {cur : Cursor} {n : Nat} {start : Position} {e : ScriptError}
    (h : e.isSyntax = true ∧ (e.pos = start ∨ FaultAhead (cur.skip n) e)) :
    e.isSyntax = true ∧ (e.pos = start ∨ FaultAhead cur e) :=
  ⟨h.1, h.2.imp_right (·.of_passes (cur.passes_skip n))⟩

/-- The fault of a string literal stands at its opening quote, or behind a backslash in it. -/
theorem readString_fault {quote : Char} {start : Position} {cur : Cursor} {e : ScriptError}
    (h : readString quote start cur = .error e) :
    e.isSyntax = true ∧ (e.pos = start ∨ FaultAhead cur e) := by
  fun_induction readString quote start cur with
  | case1 cur hrest =>
    cases h
    exact ⟨rfl, Or.inl rfl⟩
  | case2 cur rest hrest =>
    cases h
    exact ⟨rfl, Or.inl rfl⟩
  | case3 => cases h
  | case4 cur rest hescape hrest =>
    cases h
    -- nothing stands behind the backslash, so what is left of the text is the backslash alone
    rw [readEscape_cutOff hescape] at hrest
    have hend : CutOff cur ⟨.unterminatedString, (cur.skip 1).pos⟩ :=
      ⟨rfl, by rw [hrest]; rfl, by rw [Cursor.skip_pos, hrest]; rfl⟩
    exact ⟨rfl, Or.inr (Or.inr hend)⟩
  | case5 cur rest shown hescape hrest =>
    cases h
    refine ⟨rfl, Or.inr (Or.inl ?_)⟩
    -- the character behind the backslash is what makes the escape faulty
    cases rest with
    | nil => cases hescape
    | cons c rest =>
      have hskip : (cur.skip 1).rest = c :: rest := by rw [Cursor.skip_rest, hrest]; rfl
      exact (Cursor.ahead_here hskip).of_passes (cur.passes_skip 1)
  | case6 cur _ _ _ _ _ _ _ _ _ ih =>
    cases h
    exact fault_of_skip (ih ‹_›)
  | case7 => cases h
  | case8 cur _ _ _ _ _ _ _ hrec ih =>
    cases h
    exact fault_of_skip (ih hrec)
  | case9 => cases h

theorem endNumber_fault {start : Position} {n : Numeral} {written : List Char} {cur : Cursor}
    {e : ScriptError} (h : endNumber start n written cur = .error e) :
    e.isSyntax = true ∧ e.pos = start := by
  unfold endNumber at h
  split at h
  · split at h <;> cases h
    exact ⟨rfl, rfl⟩
  · cases h

theorem readPower_fault {start : Position} {whole fraction written : List Char} {cur : Cursor}
    {e : ScriptError} (h : readPower start whole fraction written cur = .error e) :
    e.isSyntax = true ∧ e.pos = start := by
  simp only [readPower] at h
  split at h
  · split at h
    · cases h
      exact ⟨rfl, rfl⟩
    · exact endNumber_fault h
  · exact endNumber_fault h

theorem readNumber_fault {cur : Cursor} {e : ScriptError} (h : readNumber cur = .error e) :
    e.isSyntax = true ∧ e.pos = cur.pos := readPower_fault h

/-! ## Items and rows -/

theorem readItem_fault {cur : Cursor} {c : Char} {rest : List Char} {e : ScriptError}
    (hrest : cur.rest = c :: rest) (h : readItem cur c = .error e) :
    e.isSyntax = true ∧ FaultAhead cur e := by
  have hhere : ∀ fault, fault.isSyntax = true → (⟨fault, cur.pos⟩ : ScriptError) = e →
      e.isSyntax = true ∧ FaultAhead cur e := by
    rintro fault hfault rfl
    exact ⟨hfault, Or.inl (Cursor.ahead_here hrest)⟩
  unfold readItem at h
  split at h
  · cases h
  split at h
  · cases h
  split at h
  · cases h
  split at h
  · unfold readBlockComment at h
    dsimp only at h
    split at h
    · exact hhere _ rfl (Except.error.inj h)
    · cases h
  split at h
  · split at h
    · rename_i hstring
      cases h
      obtain ⟨hkind, hpos⟩ := readString_fault hstring
      refine ⟨hkind, ?_⟩
      rcases hpos with hpos | hahead
      · exact Or.inl (hpos ▸ Cursor.ahead_here hrest)
      · exact hahead.of_passes (cur.passes_skip 1)
    · cases h
  split at h
  · split at h
    · rename_i hnumber
      cases h
      obtain ⟨hkind, hpos⟩ := readNumber_fault hnumber
      exact ⟨hkind, Or.inl (hpos ▸ Cursor.ahead_here hrest)⟩
    · cases h
  split at h
  · cases h
  split at h
  · cases h
  · exact hhere _ rfl (Except.error.inj h)

theorem lexemesFrom_fault {b : Bool} {cur : Cursor} {e : ScriptError}
    (h : lexemesFrom b cur = .error e) : e.isSyntax = true ∧ FaultAhead cur e := by
  fun_induction lexemesFrom b cur with
  | case1 => cases h
  | case2 b cur c rest hrest e' hitem =>
    cases h
    exact readItem_fault hrest hitem
  | case3 b cur c rest hrest breaks stop hitem ih =>
    obtain ⟨u, hpass, -⟩ := readItem_sound hrest hitem
    exact ⟨(ih h).1, (ih h).2.of_passes hpass⟩
  | case4 b cur c rest hrest w stop hitem e' hothers ih =>
    cases h
    obtain ⟨u, hpass, -⟩ := readItem_sound hrest hitem
    exact ⟨(ih hothers).1, (ih hothers).2.of_passes hpass⟩
  | case5 => cases h

/-- **A script that cannot be cut into lexemes has a fault of syntax, and it stands at one of the
    script's characters**, or at the end of a script that cuts an escape off. -/
theorem lexemes_fault {script : String} {e : ScriptError} (h : lexemes script = .error e) :
    e.isSyntax = true ∧ FaultAhead (.ofString script) e :=
  lexemesFrom_fault (lexemes_eq script ▸ h)

/-- Every lexeme stands at one of the characters of its text. -/
theorem SpellsRow.ahead {b : Bool} {pos : Position} {text : List Char} {row : List Lexeme}
    (h : SpellsRow b pos text row) : ∀ l ∈ row, (Cursor.mk pos text).Ahead l.pos := by
  induction h with
  | nil => simp
  | space _ _ ih => exact fun l hl => (ih l hl).of_passes ⟨rfl, rfl⟩
  | @word b pos w u rest row h _ ih =>
    obtain ⟨c, u, rfl⟩ := List.exists_cons_of_ne_nil h.ne_nil
    rw [List.forall_mem_cons]
    exact ⟨Cursor.ahead_here (List.cons_append ..), fun l hl => (ih l hl).of_passes ⟨rfl, rfl⟩⟩

theorem lexemes_ahead {script : String} {row : List Lexeme} (h : lexemes script = .ok row) :
    ∀ l ∈ row, (Cursor.ofString script).Ahead l.pos :=
  (lexemes_eq_ok_iff.mp h).ahead

end Script

end Stencil
