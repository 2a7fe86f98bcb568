/-
  Faults are traced back to the token that they come from.

  The map of rows leads from any character of a template's script to the token whose piece it lies
  in (`Fragment.origin?_piece`).  A fault that is met while a template is rendered stands at a
  character of the template's script, with one exception: where the innermost active call is that of
  a function that an earlier script left in the environment, the code was read elsewhere, and its
  positions are those of that earlier script (`render_located`).
-/
import Stencil.Proofs.Script.Run.Located
import Stencil.Proofs.Template.Pieces
import Stencil.Template

namespace Stencil

open Script

namespace Script

/-- What a run fails with stands in the script that is run, or was met in code that was there
    before. -/
theorem runForOutput_located {limits : Limits} {script : String} {env env' : Environment}
    {e : ScriptError} (h : runForOutput limits script env = .failed e env') :
    MetInHeld limits script (prepare env) e ∨ AtLexeme script e := by
  unfold runForOutput at h
  split at h <;> cases h
  rename_i hfailed
  exact execute_located hfailed

end Script

namespace Fragment

/-- A script of pieces ends in a line break, if it does not end at once. -/
theorem getLast?_code_ne (tokens : List Token) :
    (ofTokens tokens).code.toList.getLast? ≠ some '\\' := by
  rw [toList_code]
  rcases List.eq_nil_or_concat tokens with rfl | ⟨front, t, rfl⟩
  · simp
  · rw [List.concat_eq_append, List.flatMap_append, List.flatMap_singleton, List.getLast?_append,
      t.getLast?_piece]
    simp

end Fragment

namespace Template

/-- The position stands in the script of the token `t` of the template, and leads back to it. -/
def LocatedAt (template : Template) (p : Position) (t : Token) : Prop :=
  ∃ before rest front c back, template.tokens = before ++ t :: rest ∧
    t.piece = front ++ c :: back ∧ p = Position.start.after (before.flatMap Token.piece ++ front)

/-- What stands at a lexeme of the template's script is traced back to the token whose piece it
    lies in. -/
theorem locate?_of_atLexeme {d : Delimiters} {source : String} {e : ScriptError}
    (h : AtLexeme (compile d source).fragment.code e) :
    ∃ t, (compile d source).LocatedAt e.pos t ∧ (compile d source).locate? e = some t.pos := by
  have hahead : (Cursor.ofString (compile d source).fragment.code).Ahead e.pos := by
    rcases h with herror | ⟨row, hrow, l, hl, hpos⟩
    · exact (lexemes_fault herror).2.resolve_right fun hend =>
        Fragment.getLast?_code_ne _ hend.getLast?_eq
    · exact hpos ▸ lexemes_ahead hrow l hl
  obtain ⟨front, c, back, hrest, hpos⟩ := hahead
  have hpieces : (compile d source).tokens.flatMap Token.piece = front ++ c :: back := by
    rw [← hrest]
    exact (Fragment.toList_code _).symm
  obtain ⟨before, t, rest, front', back', htokens, hpiece, hfront⟩ :=
    Token.exists_of_flatMap_piece hpieces
  have hpos' : e.pos = Position.start.after (before.flatMap Token.piece ++ front') := by
    rw [hpos, hfront]
    rfl
  refine ⟨t, ⟨before, rest, front', c, back', htokens, hpiece, hpos'⟩, ?_⟩
  have horigin := Fragment.origin?_piece hpiece before rest
  rwa [← htokens, ← hpos'] at horigin

/-- **A fault met while a template is rendered stands in the template's own script, and is traced
    back to the token that it comes from, unless it was met in code that the environment held
    before**: in a call of a function of that code, which is the innermost one active.  Such code
    carries the positions of the script that it was read in.  Preparing the environment for output
    brings no function into it. -/
theorem render_located (d : Delimiters) (source : String) (limits : Limits) {env env' : Environment}
    {e : ScriptError} (h : (compile d source).render limits env = .failed e env') :
    MetInHeld limits (compile d source).fragment.code (prepare env) e ∨
      AtLexeme (compile d source).fragment.code e ∧
        ∃ t, (compile d source).LocatedAt e.pos t ∧
          (compile d source).locate? e = some t.pos :=
  (runForOutput_located h).imp_right fun hlexeme => ⟨hlexeme, locate?_of_atLexeme hlexeme⟩

/-- A name that is not defined, in the expression of a template. -/
theorem render_located_missing :
    let template := compile .standard "a\n#|missing|#"
    (∃ env', template.render {} [] = .failed ⟨.undefinedVariable "missing", ⟨1, 7⟩⟩ env') ∧
      ∃ t, template.LocatedAt ⟨1, 7⟩ t ∧
        template.locate? ⟨.undefinedVariable "missing", ⟨1, 7⟩⟩ = some t.pos := by
  intro template
  have hlexemes : lexemes template.fragment.code = .ok
      [⟨.name "append", ⟨0, 0⟩, false⟩, ⟨.symbol .leftParen, ⟨0, 6⟩, false⟩,
       ⟨.text "a\n", ⟨0, 7⟩, false⟩, ⟨.symbol .rightParen, ⟨0, 12⟩, false⟩,
       ⟨.symbol .semicolon, ⟨0, 13⟩, false⟩, ⟨.name "append", ⟨1, 0⟩, true⟩,
       ⟨.symbol .leftParen, ⟨1, 6⟩, false⟩, ⟨.name "missing", ⟨1, 7⟩, false⟩,
       ⟨.symbol .rightParen, ⟨1, 14⟩, false⟩, ⟨.symbol .semicolon, ⟨1, 15⟩, false⟩] := by
    decide +kernel
  have hrun : template.render {} [] = .failed ⟨.undefinedVariable "missing", ⟨1, 7⟩⟩
      [("_output", .text "a\n"), ("append", .native .append)] := by
    rw [render, runForOutput, execute, parse, hlexemes]
    rfl
  refine ⟨⟨_, hrun⟩, ?_⟩
  rcases render_located .standard "a\n#|missing|#" {} hrun with
    ⟨-, -, number, f, ⟨g, hg, -⟩, -⟩ | ⟨-, h⟩
  · cases hg
  · exact h

/-- A fault in a function of an earlier script is traced to a token that has nothing to do with
    it: the call stands in the first token, the fault stands in a row of the earlier script, and
    that row leads to the literal text behind the call. -/
theorem not_always_located :
    let template := compile .standard "#|f()|#\nplain"
    let e : ScriptError := ⟨.undefinedVariable "missing", ⟨1, 22⟩⟩
    ∃ env env', execute {} "\nfunction f() \x7b return missing; \x7d" [] = .done () env ∧
      template.render {} env = .failed e env' ∧
      MetInHeld {} template.fragment.code (prepare env) e ∧ ¬ AtLexeme template.fragment.code e ∧
      template.tokens.map (fun t => (t.kind, t.pos)) = [(.expression, ⟨0, 0⟩), (.chunk, ⟨0, 7⟩)] ∧
      template.locate? e = some ⟨0, 7⟩ := by
  intro template e
  have hdeclares : lexemes "\nfunction f() \x7b return missing; \x7d" = .ok
      [⟨.keyword .kwFunction, ⟨1, 0⟩, true⟩, ⟨.name "f", ⟨1, 9⟩, false⟩,
       ⟨.symbol .leftParen, ⟨1, 10⟩, false⟩, ⟨.symbol .rightParen, ⟨1, 11⟩, false⟩,
       ⟨.symbol .leftBrace, ⟨1, 13⟩, false⟩, ⟨.keyword .kwReturn, ⟨1, 15⟩, false⟩,
       ⟨.name "missing", ⟨1, 22⟩, false⟩, ⟨.symbol .semicolon, ⟨1, 29⟩, false⟩,
       ⟨.symbol .rightBrace, ⟨1, 31⟩, false⟩] := by decide +kernel
  have hcalls : lexemes template.fragment.code = .ok
      [⟨.name "append", ⟨0, 0⟩, false⟩, ⟨.symbol .leftParen, ⟨0, 6⟩, false⟩,
       ⟨.name "f", ⟨0, 7⟩, false⟩, ⟨.symbol .leftParen, ⟨0, 8⟩, false⟩,
       ⟨.symbol .rightParen, ⟨0, 9⟩, false⟩, ⟨.symbol .rightParen, ⟨0, 10⟩, false⟩,
       ⟨.symbol .semicolon, ⟨0, 11⟩, false⟩, ⟨.name "append", ⟨1, 0⟩, true⟩,
       ⟨.symbol .leftParen, ⟨1, 6⟩, false⟩, ⟨.text "\nplain", ⟨1, 7⟩, false⟩,
       ⟨.symbol .rightParen, ⟨1, 16⟩, false⟩, ⟨.symbol .semicolon, ⟨1, 17⟩, false⟩] := by
    decide +kernel
  let f : Function := ⟨⟨1, 0⟩, "f", [], [.ret (some (.name ⟨1, 22⟩ "missing"))]⟩
  have hrender : template.render {} [("f", .function 1 f)]
      = .failed e (prepare [("f", .function 1 f)]) := by
    rw [render, runForOutput, execute, parse, hcalls]
    rfl
  have helsewhere : ¬ AtLexeme template.fragment.code e := by
    rintro (herror | ⟨row, hrow, hl⟩)
    · rw [hcalls] at herror
      cases herror
    · rw [hcalls] at hrow
      cases hrow
      revert hl
      decide
  refine ⟨[("f", .function 1 f)], prepare [("f", .function 1 f)], ?_, hrender,
    (runForOutput_located hrender).resolve_right helsewhere, helsewhere, ?_, ?_⟩
  · rw [execute, parse, hdeclares]
    rfl
  · decide +kernel
  · decide +kernel

end Template

end Stencil
