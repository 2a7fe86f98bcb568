/-
  The order of the lexemes.

  Every character moves the position ahead, so the lexemes of a script stand one behind the other
  and no two of them at one position.  A position therefore says what is left of the row
  (`eq_of_suffix_of_pos`).
-/
import Stencil.Proofs.Script.Lexemes.Forms
import Stencil.Proofs.Script.Lexemes.Rows

namespace Stencil

/-! ## Positions -/

namespace Position

/-- Further up, or further left in the same row. -/
def Before (p q : Position) : Prop := p.row < q.row ∨ p.row = q.row ∧ p.column < q.column

variable {p q r : Position}

theorem before_irrefl (p : Position) : ¬ p.Before p := by
  unfold Before
  omega

theorem Before.trans (h : p.Before q) (h' : q.Before r) : p.Before r := by
  unfold Before at *
  omega

theorem before_advance (p : Position) (c : Char) : p.Before (p.advance c) := by
  unfold advance Before
  split
  · exact Or.inl (Nat.lt_succ_self _)
  · exact Or.inr ⟨rfl, Nat.lt_succ_self _⟩

/-- A text moves the position ahead. -/
theorem before_after (p : Position) {text : List Char} (h : text ≠ []) :
    p.Before (p.after text) := by
  induction text generalizing p with
  | nil => exact absurd rfl h
  | cons c rest ih =>
    by_cases hrest : rest = []
    · exact hrest ▸ p.before_advance c
    · exact (p.before_advance c).trans (ih _ hrest)

end Position

namespace Script

/-! ## Lexemes -/

/-- Lexemes stand where their text does or further ahead, one behind the other. -/
theorem SpellsRow.ascending {b : Bool} {pos : Position} {text : List Char} {row : List Lexeme}
    (h : SpellsRow b pos text row) :
    (∀ l ∈ row, pos = l.pos ∨ pos.Before l.pos) ∧
      row.Pairwise (fun l l' => l.pos.Before l'.pos) := by
  induction h with
  | nil => exact ⟨by simp, .nil⟩
  | @space _ _ pos u _ _ hu _ ih =>
    have hahead := pos.before_after hu.ne_nil
    refine ⟨fun l hl => Or.inr ?_, ih.2⟩
    rcases ih.1 l hl with heq | hbefore
    · exact heq ▸ hahead
    · exact hahead.trans hbefore
  | @word _ pos _ u _ row hu _ ih =>
    have hahead := pos.before_after hu.ne_nil
    have hrest : ∀ l ∈ row, pos.Before l.pos := fun l hl => by
      rcases ih.1 l hl with heq | hbefore
      · exact heq ▸ hahead
      · exact hahead.trans hbefore
    refine ⟨List.forall_mem_cons.mpr ⟨Or.inl rfl, fun l hl => Or.inr (hrest l hl)⟩, ?_⟩
    exact List.pairwise_cons.mpr ⟨hrest, ih.2⟩

/-- The lexemes of a script stand one behind the other. -/
theorem lexemes_ascending {script : String} {row : List Lexeme} (h : lexemes script = .ok row) :
    row.Pairwise fun l l' => l.pos.Before l'.pos :=
  (lexemes_eq_ok_iff.mp h).ascending.2

section

variable {row after after' : List Lexeme} {l l' : Lexeme}

/-- Further on in the row, no lexeme stands at the position again. -/
theorem suffix_tail_pos_ne (h : row.Pairwise fun l l' => l.pos.Before l'.pos)
    (hl : l :: after <:+ row) (hl' : l' ∈ after) : l.pos ≠ l'.pos := fun heq =>
  l.pos.before_irrefl (heq ▸ List.rel_of_pairwise_cons (h.sublist hl.sublist) hl')

/-- A position says what is left of the row. -/
theorem eq_of_suffix_of_pos (h : row.Pairwise fun l l' => l.pos.Before l'.pos)
    (hl : l :: after <:+ row) (hl' : l' :: after' <:+ row) (hpos : l.pos = l'.pos) :
    l :: after = l' :: after' := by
  rcases List.suffix_or_suffix_of_suffix hl hl' with hsub | hsub
  · rcases List.suffix_cons_iff.mp hsub with heq | hin
    · exact heq
    · exact absurd hpos.symm (suffix_tail_pos_ne h hl' (hin.subset List.mem_cons_self))
  · rcases List.suffix_cons_iff.mp hsub with heq | hin
    · exact heq.symm
    · exact absurd hpos (suffix_tail_pos_ne h hl (hin.subset List.mem_cons_self))

end

end Script

end Stencil
