/-
  Writing words as a text.

  Words are written on one line with a space between any two.  A text literal is written with
  escapes, a number in any spelling that is read back as the same number, and every other word as
  itself (`Word.Spelled`).  What a script is made of can be written that way (`Writable`), and what
  is written has the words that it was written from (`Written.spellsRow`).
-/
import Stencil.Template.Fragment
import Stencil.Proofs.Script.Lexemes.Rows
import Stencil.Proofs.Script.Print.Words

namespace Stencil

/-! ## Escapes -/

/-- The escape of a control is read as the control. -/
theorem charOfHex?_control : ∀ n < 0xA0,
    (Nat.toDigits 16 n).all Script.isHexDigit = true ∧ Nat.toDigits 16 n ≠ [] ∧
      (Nat.toDigits 16 n).length ≤ 6 ∧
      Script.charOfHex? (Nat.toDigits 16 n) = some (Char.ofNat n) := by decide +kernel

theorem lt_of_isControl {c : Char} (h : isControl c = true) : c.toNat < 0xA0 := by
  simp only [isControl, Bool.or_eq_true, Bool.and_eq_true, decide_eq_true_eq] at h
  omega

namespace Script

theorem readEscape_control {c : Char} (h : isControl c = true) (rest : List Char) :
    readEscape ('u' :: '\x7b' :: (Nat.toDigits 16 c.toNat ++ ['\x7d']) ++ rest)
      = .char c (Nat.toDigits 16 c.toNat).length.succ.succ.succ := by
  obtain ⟨hall, hne, hlen, hc⟩ := charOfHex?_control c.toNat (lt_of_isControl h)
  rw [Char.ofNat_toNat] at hc
  have hread := readBracedEscape_eq (List.all_eq_true.mp hall) hne hlen hc rest
  simpa [readEscape] using hread

/-- One character of a text literal, and what follows it. -/
theorem SpellsText.escapeChar (c : Char) {u text : List Char} (h : SpellsText '\x22' u text) :
    SpellsText '\x22' (Stencil.escapeChar c ++ u) (c :: text) := by
  unfold Stencil.escapeChar
  split
  · rename_i hc; rw [hc]; exact .escape (e := ['\x22']) (fun _ => rfl) h
  split
  · rename_i hc; rw [hc]; exact .escape (e := ['\\']) (fun _ => rfl) h
  split
  · rename_i hc; rw [hc]; exact .escape (e := ['n']) (fun _ => rfl) h
  split
  · rename_i hc; rw [hc]; exact .escape (e := ['r']) (fun _ => rfl) h
  split
  · rename_i hc; rw [hc]; exact .escape (e := ['t']) (fun _ => rfl) h
  split
  · rename_i hc; rw [hc]; exact .escape (e := ['0']) (fun _ => rfl) h
  split
  · rename_i hcontrol
    refine .escape (e := 'u' :: '\x7b' :: (Nat.toDigits 16 c.toNat ++ ['\x7d'])) (fun rest => ?_) h
    rw [readEscape_control hcontrol]
    simp
  · rename_i hquote hescape hline _ _ _ _
    exact .plain hline hquote hescape h

/-- A text literal is read as the text that it was written from. -/
theorem spells_escapeString (text : List Char) (rest : List Char) :
    Spells (.word (.text (String.ofList text))) (escapeString text) rest := by
  refine .text (Or.inl rfl) ?_
  induction text with
  | nil => exact .nil
  | cons c text ih =>
    rw [List.flatMap_cons]
    exact ih.escapeChar c

/-! ## Single words -/

/-- How a word is written. -/
def Word.Spelled : Word → List Char → Prop
  | .number x, u => Spells (.word (.number x)) u []
  | .text s, u => u = escapeString s.toList
  | .name s, u => u = s.toList
  | .keyword k, u => u = k.spelling.toList
  | .symbol s, u => u = s.spelling

/-- A word that some spelling is read as. -/
def Writable (w : Word) : Prop := ∃ u, Spells (.word w) u []

theorem Word.ofName_spelling (k : Keyword) : Word.ofName k.spelling = .keyword k := by
  rw [ofName, Keyword.ofString?_spelling]

/-- A reserved word is spelled like a name. -/
theorem spells_keyword (k : Keyword) : Spells (.word (.keyword k)) k.spelling.toList [] := by
  have hname : ∃ c u, k.spelling.toList = c :: u ∧ isNameStart c = true ∧
      u.all isNamePart = true := by
    cases k <;> exact ⟨_, _, rfl, by decide +kernel, by decide +kernel⟩
  obtain ⟨c, u, hk, hc, hu⟩ := hname
  have h : Spells (.word (.ofName (String.ofList (c :: u)))) (c :: u) [] :=
    .name hc (List.all_eq_true.mp hu) rfl
  rwa [← hk, String.ofList_toList, Word.ofName_spelling] at h

/-- A name is spelled like itself, and not like a reserved word. -/
theorem Spells.of_name {s : String} {u rest : List Char} (h : Spells (.word (.name s)) u rest) :
    u = s.toList ∧ Word.ofName s = .name s := by
  generalize hi : Item.word (.name s) = i at h
  cases h with
  | @name c u _ _ _ _ =>
    have hname : Word.name s = .ofName (String.ofList (c :: u)) := Item.word.inj hi
    have hs : s = String.ofList (c :: u) := by
      unfold Word.ofName at hname
      split at hname
      · cases hname
      · exact Word.name.inj hname
    subst hs
    exact ⟨String.toList_ofList.symm, hname.symm⟩
  | _ => cases hi

namespace Writable

theorem symbol (s : Symbol) : Writable (.symbol s) := ⟨_, s.spells⟩

theorem keyword (k : Keyword) : Writable (.keyword k) := ⟨_, spells_keyword k⟩

theorem text (s : String) : Writable (.text s) := by
  have h := spells_escapeString s.toList []
  rw [String.ofList_toList] at h
  exact ⟨_, h⟩

variable {w : Word} {u : List Char}

/-- What a word is written as is read as the word. -/
theorem spells (hw : Writable w) (hu : w.Spelled u) : Spells (.word w) u [] := by
  obtain ⟨v, hv⟩ := hw
  cases w with
  | number x => exact hu
  | text s =>
    have h := spells_escapeString s.toList []
    rw [String.ofList_toList] at h
    rw [Word.Spelled] at hu
    rwa [hu]
  | name s =>
    rw [Word.Spelled] at hu
    rw [hu, ← hv.of_name.1]
    exact hv
  | keyword k =>
    rw [Word.Spelled] at hu
    rw [hu]
    exact spells_keyword k
  | symbol s =>
    rw [Word.Spelled] at hu
    rw [hu]
    exact s.spells

theorem ofName_eq {s : String} (hw : Writable (.name s)) : Word.ofName s = .name s := by
  obtain ⟨v, hv⟩ := hw
  exact hv.of_name.2

theorem exists_spelled (hw : Writable w) : ∃ u, w.Spelled u := by
  obtain ⟨v, hv⟩ := hw
  cases w with
  | number x => exact ⟨v, hv⟩
  | _ => exact ⟨_, rfl⟩

end Writable

/-- Every word of a script can be written. -/
theorem SpellsRow.writable {b : Bool} {pos : Position} {text : List Char} {row : List Lexeme}
    (h : SpellsRow b pos text row) : ∀ l ∈ row, Writable l.word := by
  induction h with
  | nil => exact fun l hl => absurd hl List.not_mem_nil
  | space _ _ ih => exact ih
  | word h _ ih =>
    intro l hl
    rcases List.mem_cons.mp hl with rfl | hl
    · exact ⟨_, h.alone⟩
    · exact ih l hl

/-! ## Words one behind the other -/

/-- A text that words are written as, on one line with a space between any two. -/
inductive Written : List Word → List Char → Prop where
  | nil : Written [] []
  | one {w : Word} {u : List Char} (h : w.Spelled u) : Written [w] u
  | more {w v : Word} {ws : List Word} {u text : List Char} (h : w.Spelled u)
      (hrest : Written (v :: ws) text) : Written (w :: v :: ws) (u ++ ' ' :: text)

theorem exists_written : ∀ {ws : List Word}, (∀ w ∈ ws, Writable w) → ∃ text, Written ws text
  | [], _ => ⟨[], .nil⟩
  | [w], h => by
    obtain ⟨u, hu⟩ := (h w List.mem_cons_self).exists_spelled
    exact ⟨u, .one hu⟩
  | w :: v :: ws, h => by
    obtain ⟨u, hu⟩ := (h w List.mem_cons_self).exists_spelled
    obtain ⟨text, htext⟩ := exists_written fun x hx => h x (List.mem_cons_of_mem w hx)
    exact ⟨_, .more hu htext⟩

/-- A row that consists of the words `ws` on one line. -/
def Line (ws : List Word) (row : List Lexeme) : Prop :=
  row.map (fun l => (l.word, l.afterBreak)) = ws.map (·, false)

/-- **What is written has the words that it was written from**, and no line break among them. -/
theorem Written.spellsRow {ws : List Word} {text : List Char} (h : Written ws text)
    (hws : ∀ w ∈ ws, Writable w) (pos : Position) :
    ∃ row, SpellsRow false pos text row ∧ Line ws row := by
  induction h generalizing pos with
  | nil => exact ⟨[], .nil, rfl⟩
  | @one w u hu =>
    have hspells := (hws w List.mem_cons_self).spells hu
    refine ⟨[⟨w, pos, false⟩], ?_, rfl⟩
    rw [← List.append_nil u] at hspells ⊢
    exact .word (by rwa [List.append_nil] at hspells) .nil
  | @more w v ws u text hu _ ih =>
    have hspells := (hws w List.mem_cons_self).spells hu
    obtain ⟨row, hrow, hline⟩ := ih (fun x hx => hws x (List.mem_cons_of_mem w hx))
      ((pos.after u).after [' '])
    refine ⟨⟨w, pos, false⟩ :: row, .word ?_ (@SpellsRow.space _ false _ [' '] _ _ ?_ hrow), ?_⟩
    · exact hspells.change_gap (a := []) .nil (.space text) (Or.inl ⟨w, rfl⟩)
    · exact .blank (by decide +kernel) (by decide)
    · simp only [Line, List.map_cons] at hline ⊢
      rw [hline]

end Script

end Stencil
