/-
  The single steps of a reader, as equations.

  What a look ahead finds, when a word is taken, and when a step succeeds at all.  The readers of
  the grammar are sequences of these steps, and nothing else about a reader is ever unfolded.
-/
import Stencil.Proofs.Script.Grammar.Derivation

namespace Stencil.Script

open Grammar (next? breaks)

namespace Reader

variable {α β : Type}

/-! ## Looking ahead -/

theorem peek?_bind (f : Option Word → Reader β) (row : List Lexeme) :
    (peek? >>= f) row = f (next? row) row := rfl

theorem upcoming_bind (f : List Word → Reader β) (row : List Lexeme) :
    (upcoming >>= f) row = f (row.map Lexeme.word) row := rfl

theorem afterBreak_bind (f : Bool → Reader β) (row : List Lexeme) :
    (afterBreak >>= f) row = f (breaks row) row := rfl

theorem here_bind (last : Position) (f : Position → Reader β) (l : Lexeme) (row : List Lexeme) :
    (here last >>= f) (l :: row) = f l.pos (l :: row) := rfl

theorem here_bind_nil (last : Position) (f : Position → Reader β) :
    (here last >>= f) [] = f last [] := rfl

theorem sees_bind_of_eq {s : Symbol} {l : Lexeme} (h : l.word = .symbol s) (f : Bool → Reader β)
    (row : List Lexeme) : (sees s >>= f) (l :: row) = f true (l :: row) := by
  simp [bind_apply, sees, h]

theorem sees_bind_of_ne {s : Symbol} {row : List Lexeme} (h : next? row ≠ some (.symbol s))
    (f : Bool → Reader β) : (sees s >>= f) row = f false row := by
  have hb : (row.head?.map Lexeme.word == some (.symbol s)) = false := beq_eq_false_iff_ne.mpr h
  simp [bind_apply, sees, hb]

/-! ## Taking a word -/

theorem drop_bind (f : Unit → Reader β) (l : Lexeme) (row : List Lexeme) :
    (drop >>= f) (l :: row) = f () row := rfl

theorem takes_bind_of_eq {s : Symbol} {l : Lexeme} (h : l.word = .symbol s) (f : Bool → Reader β)
    (row : List Lexeme) : (takes s >>= f) (l :: row) = f true row := by
  simp [bind_apply, takes, h]

theorem takes_bind_of_ne {s : Symbol} {row : List Lexeme} (h : next? row ≠ some (.symbol s))
    (f : Bool → Reader β) : (takes s >>= f) row = f false row := by
  cases row with
  | nil => rfl
  | cons l row =>
    have hl : l.word ≠ .symbol s := by simpa using h
    simp [bind_apply, takes, hl]

theorem takesKeyword_bind_of_eq {k : Keyword} {l : Lexeme} (h : l.word = .keyword k)
    (f : Bool → Reader β) (row : List Lexeme) :
    (takesKeyword k >>= f) (l :: row) = f true row := by
  simp [bind_apply, takesKeyword, h]

theorem takesKeyword_bind_of_ne {k : Keyword} {row : List Lexeme}
    (h : next? row ≠ some (.keyword k)) (f : Bool → Reader β) :
    (takesKeyword k >>= f) row = f false row := by
  cases row with
  | nil => rfl
  | cons l row =>
    have hl : l.word ≠ .keyword k := by simpa using h
    simp [bind_apply, takesKeyword, hl]

theorem expect_bind_of_eq {last : Position} {s : Symbol} {l : Lexeme} (h : l.word = .symbol s)
    (f : Unit → Reader β) (row : List Lexeme) : (expect last s >>= f) (l :: row) = f () row := by
  simp [bind_apply, expect, takes, h, pure_apply]

theorem expectName_bind_of_eq {last : Position} {s : String} {l : Lexeme} (h : l.word = .name s)
    (f : String → Reader β) (row : List Lexeme) :
    (expectName last >>= f) (l :: row) = f s row := by
  obtain ⟨w, pos, b⟩ := l
  obtain rfl : w = .name s := h
  rfl

/-! ## When a step succeeds -/

theorem unexpected_ne_ok {last : Position} {expected : Expected} {row : List Lexeme}
    {out : α × List Lexeme} : unexpected last expected row ≠ .ok out := by
  cases row <;> simp [unexpected]

theorem pure_eq_ok {a b : α} {row rest : List Lexeme} :
    (pure a : Reader α) row = .ok (b, rest) ↔ a = b ∧ row = rest := by
  simp [pure_apply]

/-- A look at a symbol that may be taken: it was there and is taken, or it was not there. -/
theorem takes_eq_ok {s : Symbol} {b : Bool} {row rest : List Lexeme}
    (h : takes s row = .ok (b, rest)) :
    (b = true ∧ ∃ l, row = l :: rest ∧ l.word = .symbol s) ∨
      (b = false ∧ row = rest ∧ next? row ≠ some (.symbol s)) := by
  cases row with
  | nil =>
    simp only [takes, Except.ok.injEq, Prod.mk.injEq] at h
    exact Or.inr ⟨h.1.symm, h.2, by simp⟩
  | cons l row =>
    simp only [takes] at h
    split at h
    · rename_i hl
      simp only [Except.ok.injEq, Prod.mk.injEq] at h
      exact Or.inl ⟨h.1.symm, l, by rw [h.2], hl⟩
    · rename_i hl
      simp only [Except.ok.injEq, Prod.mk.injEq] at h
      exact Or.inr ⟨h.1.symm, h.2, by simpa using hl⟩

theorem takesKeyword_eq_ok {k : Keyword} {b : Bool} {row rest : List Lexeme}
    (h : takesKeyword k row = .ok (b, rest)) :
    (b = true ∧ ∃ l, row = l :: rest ∧ l.word = .keyword k) ∨
      (b = false ∧ row = rest ∧ next? row ≠ some (.keyword k)) := by
  cases row with
  | nil =>
    simp only [takesKeyword, Except.ok.injEq, Prod.mk.injEq] at h
    exact Or.inr ⟨h.1.symm, h.2, by simp⟩
  | cons l row =>
    simp only [takesKeyword] at h
    split at h
    · rename_i hl
      simp only [Except.ok.injEq, Prod.mk.injEq] at h
      exact Or.inl ⟨h.1.symm, l, by rw [h.2], hl⟩
    · rename_i hl
      simp only [Except.ok.injEq, Prod.mk.injEq] at h
      exact Or.inr ⟨h.1.symm, h.2, by simpa using hl⟩

theorem expect_eq_ok {last : Position} {s : Symbol} {u : Unit} {row rest : List Lexeme}
    (h : expect last s row = .ok (u, rest)) : ∃ l, row = l :: rest ∧ l.word = .symbol s := by
  obtain ⟨b, mid, hb, h'⟩ := bind_eq_ok.mp h
  rcases takes_eq_ok hb with ⟨rfl, l, rfl, hl⟩ | ⟨rfl, -, -⟩
  · rw [if_pos rfl] at h'
    obtain ⟨-, rfl⟩ := pure_eq_ok.mp h'
    exact ⟨l, rfl, hl⟩
  · rw [if_neg (by simp)] at h'
    exact absurd h' unexpected_ne_ok

theorem expectName_eq_ok {last : Position} {s : String} {row rest : List Lexeme}
    (h : expectName last row = .ok (s, rest)) : ∃ l, row = l :: rest ∧ l.word = .name s := by
  unfold expectName at h
  split at h
  · simp only [Except.ok.injEq, Prod.mk.injEq] at h
    obtain ⟨rfl, rfl⟩ := h
    exact ⟨_, rfl, rfl⟩
  · exact absurd h unexpected_ne_ok

end Reader

namespace Grammar

open Reader

theorem tooDeep_ne_ok {α : Type} {last : Position} {row : List Lexeme} {out : α × List Lexeme} :
    tooDeep last row ≠ .ok out := by
  simp [tooDeep, bind_apply, here, fail]

/-- A look at the end of a statement takes nothing. -/
theorem atStatementEnd_bind {β : Type} (f : Bool → Reader β) (row : List Lexeme) :
    (atStatementEnd >>= f) row = f (atEnd row) row := by
  have h : atStatementEnd row = .ok (atEnd row, row) := by
    rw [atStatementEnd, peek?_bind, atEnd]
    cases row with
    | nil => rfl
    | cons l row =>
      rw [next?_cons]
      dsimp only
      rw [afterBreak_bind]
      by_cases hline : breaks (l :: row) = true
      · simp [hline, pure_apply]
      · simp [hline, pure_apply]
  rw [bind_apply, h]

theorem placeOf_eq_ok {e : Expr} {p : Place} {row rest : List Lexeme} :
    placeOf e row = .ok (p, rest) ↔ e.toPlace? = some p ∧ row = rest := by
  cases h : e.toPlace? with
  | none => simp [placeOf, fail, h]
  | some p' => simp [placeOf, pure_apply, h]

end Grammar

end Stencil.Script
