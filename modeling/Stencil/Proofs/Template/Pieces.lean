/-
  The script of a template is read piece by piece.

  Each token's piece ends in a line break, so its lexemes are the same behind any other pieces
  (`SpellsRow.append`), and the piece that follows stands on a new line, where it cannot go on with
  a statement unless it begins with one of few words (`runsOn`).  A call of the output function
  never does.  So pieces that are scripts by themselves make up one script, each moved down to the
  row where it begins (`parse_ofTokens`).
-/
import Stencil.Proofs.Script.Grammar.Complete
import Stencil.Proofs.Script.Grammar.Extend
import Stencil.Proofs.Template.Rows

namespace Stencil

open Script Script.Grammar

namespace Token

/-! ## One piece -/

/-- The name of the output function, in front of its arguments. -/
theorem spells_appendName (rest : List Char) :
    Spells (.word (.name "append")) "append".toList ('(' :: rest) := by
  have hparts : ['p', 'p', 'e', 'n', 'd'].all isNamePart = true := by decide +kernel
  have hstop : isNamePart '(' = false := by decide +kernel
  exact Spells.name (c := 'a') (by decide +kernel) (List.all_eq_true.mp hparts) hstop

/-- A call of the output function begins with the function's name. -/
theorem first_appendCall {b : Bool} {pos : Position} {argument : List Char} {row : List Lexeme}
    (h : SpellsRow b pos (appendCall argument) row) : next? row = some (.name "append") := by
  have hread := lexemesFrom_word (spells_appendName (argument ++ [')', ';', '\n'])) pos (b := b)
  have heq : appendCall argument = "append".toList ++ '(' :: (argument ++ [')', ';', '\n']) := by
    rw [appendCall, List.append_assoc]
    rfl
  rw [← heq, h.complete] at hread
  split at hread
  · cases hread
  · cases hread
    rfl

end Token

namespace Fragment

/-! ## All pieces -/

/-- The statements of the pieces from the row `n` on, each moved down to where its piece begins. -/
def placed (n : Nat) (tokens : List Token) (bodies : List (List Stmt)) : List Stmt :=
  (List.zipWith (fun body o => body.map (Stmt.mapPos (Position.down o.1))) bodies
    (originsFrom n tokens)).flatten

theorem placed_cons (n : Nat) (t : Token) (tokens : List Token) (body : List Stmt)
    (bodies : List (List Stmt)) :
    placed n (t :: tokens) (body :: bodies)
      = body.map (Stmt.mapPos (Position.down n)) ++ placed (n + t.rows) tokens bodies := rfl

/-- A piece that spells a row by itself spells it in front of the pieces that follow. -/
theorem spellsRow_piece {t : Token} {b : Bool} {n : Nat} {row k : List Lexeme} {rest : List Char}
    (h : SpellsRow b .start t.piece row) (hk : SpellsRow true ⟨n + t.rows, 0⟩ rest k) :
    SpellsRow b ⟨n, 0⟩ (t.piece ++ rest) (moved (Position.down n) row k) := by
  have hpos : (Position.start.after t.piece).down n = ⟨n + t.rows, 0⟩ := by
    rw [t.after_piece, Position.down, Nat.add_comm]
  have hstart : Position.start.down n = ⟨n, 0⟩ := by
    rw [Position.down, Position.start, Nat.zero_add]
  obtain ⟨line, hline⟩ := t.exists_piece_eq
  rw [← hpos, hline] at hk
  rw [hline] at h ⊢
  have := h.append n hk
  rwa [hstart, ← List.singleton_append, ← List.append_assoc] at this

/-- The first word of a token's piece, which may be missing. -/
def firstWord? (t : Token) : Option Word :=
  match lexemes (ofTokens [t]).code with
  | .ok row => next? row
  | .error _ => none

/-- Whether a piece can only be a statement of its own. -/
def StartsAfresh (t : Token) : Prop :=
  t.kind = .line ∨ t.kind = .block → ∀ w, firstWord? t = some w → runsOn w = false

/-- No piece that starts afresh runs on from what stands before it. -/
theorem StartsAfresh.runsOn {t : Token} {row : List Lexeme} (h : StartsAfresh t)
    (hrow : SpellsRow false .start t.piece row) (w : Word) (hw : next? row = some w) :
    runsOn w = false := by
  have hlexemes : lexemes (ofTokens [t]).code = .ok row :=
    lexemes_eq_ok_iff.mpr (by rwa [toList_code_singleton])
  have hfirst : firstWord? t = some w := by rw [firstWord?, hlexemes, ← hw]
  have hcall {argument : List Char} (hpiece : t.piece = appendCall argument) :
      Grammar.runsOn w = false := by
    rw [hpiece] at hrow
    rw [Token.first_appendCall hrow] at hw
    cases hw
    rfl
  cases hkind : t.kind with
  | line => exact h (Or.inl hkind) w hfirst
  | block => exact h (Or.inr hkind) w hfirst
  | chunk => exact hcall (by rw [Token.piece, hkind])
  | expression => exact hcall (by rw [Token.piece, hkind])

/-- A piece that is a script by itself spells a row that the grammar derives. -/
theorem derives_piece {t : Token} {body : List Stmt} (last : Position)
    (h : parse (ofTokens [t]).code = .ok body) :
    ∃ row, SpellsRow false .start t.piece row ∧
      DerivesProgram ⟨last, false, false⟩ row body := by
  have := (parse_eq_ok_iff last).mp h
  rwa [toList_code_singleton] at this

/-- Pieces behind a line break that start afresh are read one after the other, and nothing before
    them runs on into them. -/
theorem derives_pieces (last : Position) {tokens : List Token} {bodies : List (List Stmt)}
    (h : tokens.map (fun t => parse (ofTokens [t]).code) = bodies.map .ok)
    (hfresh : ∀ t ∈ tokens, StartsAfresh t) (n : Nat) :
    ∃ row, SpellsRow true ⟨n, 0⟩ (tokens.flatMap Token.piece) row ∧
      DerivesProgram ⟨last, false, false⟩ row (placed n tokens bodies) ∧ Separate row := by
  induction tokens generalizing bodies n with
  | nil =>
    obtain rfl : bodies = [] := by simpa using h.symm
    exact ⟨[], .nil, .nil, .nil⟩
  | cons t tokens ih =>
    obtain ⟨body, bodies, rfl⟩ : ∃ body others, bodies = body :: others := by
      cases bodies with
      | nil => simp at h
      | cons body others => exact ⟨body, others, rfl⟩
    obtain ⟨hbody, hothers⟩ := List.cons.inj h
    obtain ⟨row, hrow, hderives⟩ := derives_piece last hbody
    obtain ⟨k, hk, hkderives, hseparate⟩ :=
      ih hothers (fun t' ht' => hfresh t' (List.mem_cons_of_mem t ht')) (n + t.rows)
    have hrun := (hfresh t List.mem_cons_self).runsOn hrow
    refine ⟨_, spellsRow_piece hrow.breakBefore hk, ?_, hderives.separate hrun hseparate⟩
    rw [placed_cons]
    exact hderives.breakBefore.append hseparate hkderives

/-- **Pieces that are scripts by themselves make up the script of their statements**, in order and
    each moved down to the row where it begins, unless a directive behind the first piece begins
    with a word that can go on with the statement before it. -/
theorem parse_ofTokens {tokens : List Token} {bodies : List (List Stmt)}
    (h : tokens.map (fun t => parse (ofTokens [t]).code) = bodies.map .ok)
    (hfresh : ∀ t ∈ tokens.tail, StartsAfresh t) :
    parse (ofTokens tokens).code = .ok (List.zipWith
      (fun body o => body.map (Stmt.mapPos (Position.down o.1))) bodies
      (ofTokens tokens).origins).flatten := by
  change parse (ofTokens tokens).code = .ok (placed 0 tokens bodies)
  rw [parse_eq_ok_iff .start, toList_code]
  cases tokens with
  | nil =>
    obtain rfl : bodies = [] := by simpa using h.symm
    exact ⟨[], .nil, .nil⟩
  | cons t tokens =>
    obtain ⟨body, bodies, rfl⟩ : ∃ body others, bodies = body :: others := by
      cases bodies with
      | nil => simp at h
      | cons body others => exact ⟨body, others, rfl⟩
    obtain ⟨hbody, hothers⟩ := List.cons.inj h
    obtain ⟨row, hrow, hderives⟩ := derives_piece .start hbody
    obtain ⟨k, hk, hkderives, hseparate⟩ := derives_pieces .start hothers hfresh (0 + t.rows)
    -- the first piece stands at the start of the script and behind no line break
    exact ⟨_, spellsRow_piece hrow hk, hderives.append hseparate hkderives⟩

/-- A directive line, a directive block without a last semicolon, and literal text. -/
theorem parse_ofTokens_directives :
    parse (ofTokens [⟨.line, "x", ⟨0, 0⟩⟩, ⟨.block, "y", ⟨1, 0⟩⟩, ⟨.chunk, "a", ⟨4, 0⟩⟩]).code
      = .ok [.expr (.name ⟨0, 0⟩ "x"), .expr (.name ⟨1, 0⟩ "y"),
          .expr (.call ⟨3, 0⟩ (.name ⟨3, 0⟩ "append") [.text ⟨3, 7⟩ "a"])] := by
  have hx : lexemes (ofTokens [⟨.line, "x", ⟨0, 0⟩⟩]).code = .ok [⟨.name "x", ⟨0, 0⟩, false⟩] := by
    decide +kernel
  have hy : lexemes (ofTokens [⟨.block, "y", ⟨1, 0⟩⟩]).code = .ok [⟨.name "y", ⟨0, 0⟩, false⟩] := by
    decide +kernel
  have ha : lexemes (ofTokens [⟨.chunk, "a", ⟨4, 0⟩⟩]).code
      = .ok [⟨.name "append", ⟨0, 0⟩, false⟩, ⟨.symbol .leftParen, ⟨0, 6⟩, false⟩,
          ⟨.text "a", ⟨0, 7⟩, false⟩, ⟨.symbol .rightParen, ⟨0, 10⟩, false⟩,
          ⟨.symbol .semicolon, ⟨0, 11⟩, false⟩] := by
    decide +kernel
  have horigins : (ofTokens [⟨.line, "x", ⟨0, 0⟩⟩, ⟨.block, "y", ⟨1, 0⟩⟩,
      ⟨.chunk, "a", ⟨4, 0⟩⟩]).origins = [(0, ⟨0, 0⟩), (1, ⟨1, 0⟩), (3, ⟨4, 0⟩)] := by
    decide +kernel
  have h := @parse_ofTokens
    [⟨.line, "x", ⟨0, 0⟩⟩, ⟨.block, "y", ⟨1, 0⟩⟩, ⟨.chunk, "a", ⟨4, 0⟩⟩]
    [[.expr (.name ⟨0, 0⟩ "x")], [.expr (.name ⟨0, 0⟩ "y")],
      [.expr (.call ⟨0, 0⟩ (.name ⟨0, 0⟩ "append") [.text ⟨0, 7⟩ "a"])]]
    (by
      rw [List.map_cons, List.map_cons, List.map_cons, parse, hx, parse, hy, parse, ha]
      rfl)
    (by
      intro t ht _ w hw
      rcases List.mem_cons.mp ht with rfl | ht
      · rw [firstWord?, hy] at hw
        cases hw
        rfl
      · obtain rfl := List.mem_singleton.mp ht
        rw [firstWord?, ha] at hw
        cases hw
        rfl)
  rw [h, horigins]
  rfl

end Fragment

end Stencil
