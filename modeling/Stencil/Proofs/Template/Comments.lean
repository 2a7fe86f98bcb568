/-
  A comment at the end of an expression.

  The text of an expression is the argument of a call on one line, so a comment at its end takes in
  the words that end the call.  Where the text ends in a comment already they are no part of the
  script anyway, and one comment more changes nothing; everywhere else the parenthesis that the
  call opens stays open, and brackets stand in pairs in every script that is accepted
  (`render_comment`).
-/
import Stencil.Proofs.Script.Grammar.Balance
import Stencil.Proofs.Script.Grammar.Faults
import Stencil.Proofs.Script.Lexemes.Cuts
import Stencil.Proofs.Template.Chunks
import Stencil.Proofs.Template.Pieces
import Stencil.Template

namespace Stencil

open Script Script.Grammar

/-! ## Calls with a comment in their argument -/

namespace Script

theorem appendCall_eq (argument : List Char) :
    appendCall argument = Native.append.name.toList ++ '(' :: (argument ++ callEnd) := by
  rw [appendCall, List.append_assoc]
  rfl

/-- A call begins with the function's name and a parenthesis. -/
theorem lexemesFrom_appendName : ∃ name opening pos,
    name.word = .name Native.append.name ∧ opening.word = .symbol .leftParen ∧
    ∀ rest, lexemesFrom false ⟨.start, Native.append.name.toList ++ '(' :: rest⟩
      = (lexemesFrom false ⟨pos, rest⟩).map ([name, opening] ++ ·) := by
  let behind := Position.start.after Native.append.name.toList
  let inside := behind.after Symbol.leftParen.spelling
  refine ⟨⟨.name Native.append.name, .start, false⟩, ⟨.symbol .leftParen, behind, false⟩, inside,
    rfl, rfl, fun rest => ?_⟩
  have hname : lexemesFrom false ⟨.start, Native.append.name.toList ++ '(' :: rest⟩
      = (lexemesFrom false ⟨behind, '(' :: rest⟩).map
        (⟨.name Native.append.name, .start, false⟩ :: ·) :=
    lexemesFrom_word_eq_map (Token.spells_appendName rest) false .start
  have hopening : lexemesFrom false ⟨behind, '(' :: rest⟩
      = (lexemesFrom false ⟨inside, rest⟩).map (⟨.symbol .leftParen, behind, false⟩ :: ·) :=
    lexemesFrom_word_eq_map (u := Symbol.leftParen.spelling) (.symbol rfl rfl rfl rfl) false behind
  rw [hname, hopening]
  cases lexemesFrom false ⟨inside, rest⟩ <;> rfl

/-- A script is read from its lexemes. -/
theorem parse_congr {script script' : String} (h : lexemes script = lexemes script') :
    parse script = parse script' := by
  rw [parse, parse, h]

variable {argument comment : List Char}

/-- A comment behind another one changes nothing. -/
theorem parse_comment_of_endsInComment (h : EndsInComment argument) (hcomment : '\n' ∉ comment) :
    parse (String.ofList (appendCall (argument ++ comment)))
      = parse (String.ofList (appendCall argument)) := by
  obtain ⟨name, opening, pos, -, -, hcall⟩ := lexemesFrom_appendName
  obtain ⟨row, hrow⟩ := h.lexemesFrom false pos
  have hlexemes (more : List Char) (hmore : '\n' ∉ more) :
      lexemes (String.ofList (appendCall (argument ++ more))) = .ok ([name, opening] ++ row) := by
    have hread := hrow (more ++ [')', ';']) (by simp [hmore])
    rw [lexemes_eq, Cursor.ofString, String.toList_ofList, appendCall_eq, hcall]
    have htext : argument ++ more ++ callEnd = argument ++ (more ++ [')', ';'] ++ ['\n']) := by
      simp [callEnd]
    rw [htext, hread]
    rfl
  have hbare := hlexemes [] (by simp)
  rw [List.append_nil] at hbare
  exact parse_congr ((hlexemes comment hcomment).trans hbare.symm)

/-- A comment at the end of any other argument leaves the call's parenthesis open. -/
theorem parse_comment_fault {body : List Stmt} (h : ¬ EndsInComment argument)
    (hcomment : '\n' ∉ comment) (hparse : parse (String.ofList (appendCall argument)) = .ok body) :
    ∃ e, parse (String.ofList (appendCall (argument ++ ' ' :: '/' :: '/' :: comment))) = .error e ∧
      e.isSyntax = true := by
  obtain ⟨name, opening, pos, hname, hopening, hcall⟩ := lexemesFrom_appendName
  have hread (text : List Char) : lexemes (String.ofList (appendCall text))
      = (lexemesFrom false ⟨pos, text ++ callEnd⟩).map ([name, opening] ++ ·) := by
    rw [lexemes_eq, Cursor.ofString, String.toList_ofList, appendCall_eq, hcall]
  obtain ⟨all, hall, hderives⟩ := (parse_eq_ok_iff .start).mp hparse
  have hcut : CutBefore callEnd argument := by
    have hlexemes := (hread argument).symm.trans (lexemes_eq_ok_iff.mpr hall)
    cases hargument : lexemesFrom false ⟨pos, argument ++ callEnd⟩ with
    | error e =>
      rw [hargument] at hlexemes
      cases hlexemes
    | ok row => exact (lexemesFrom_eq_ok_iff.mp hargument).cut_or_comment.resolve_right h
  obtain ⟨row, closing, semicolon, hrow, hclosing, hsemicolon, hcommented⟩ :=
    hcut.lexemesFrom_comment false pos
  cases hresult : parse (String.ofList
      (appendCall (argument ++ ' ' :: '/' :: '/' :: comment))) with
  | error e => exact ⟨e, rfl, (parse_fault hresult).1⟩
  | ok body' =>
    -- both rows of lexemes are balanced, and they differ by a closing parenthesis
    obtain ⟨all', hall', hderives'⟩ := (parse_eq_ok_iff .start).mp hresult
    have hwith : all = [name, opening] ++ (row ++ [closing, semicolon]) := by
      have hlexemes := (hread argument).symm.trans (lexemes_eq_ok_iff.mpr hall)
      rw [hrow] at hlexemes
      exact (Except.ok.inj hlexemes).symm
    have hwithout : all' = [name, opening] ++ row := by
      have hlexemes := (hread _).symm.trans (lexemes_eq_ok_iff.mpr hall')
      have htext : argument ++ ' ' :: '/' :: '/' :: comment ++ callEnd
          = argument ++ (' ' :: '/' :: '/' :: (comment ++ [')', ';']) ++ ['\n']) := by
        simp [callEnd]
      rw [htext, hcommented _ (by simp [hcomment])] at hlexemes
      exact (Except.ok.inj hlexemes).symm
    have hnet := hderives.net_eq_zero .paren
    have hnet' := hderives'.net_eq_zero .paren
    have hweight : Bracket.paren.weight (.symbol .rightParen) = -1 := by decide
    simp only [hwith, hwithout, Bracket.net_append, Bracket.net_cons, Bracket.net_nil, hclosing,
      hsemicolon, hweight, Bracket.weight_semicolon] at hnet hnet'
    omega

end Script

namespace Token

/-- A pair that ends in none of the characters that are added does not come into being. -/
theorem not_pair_infix_append {x y : Char} {text more : List Char} (hy : y ∉ more)
    (h : ¬ [x, y] <:+: text) : ¬ [x, y] <:+: text ++ more := by
  induction more using List.reverseRecOn with
  | nil => rwa [List.append_nil]
  | append_singleton more z ih =>
    rw [List.mem_append, not_or, List.mem_singleton] at hy
    rw [← List.append_assoc]
    exact fun hinfix => ih hy.1 (pair_infix_of_append hy.2 hinfix)

/-- A template that is one expression. -/
theorem ofTemplate_expression {text : String} (h : ¬ ['|', '#'] <:+: text.toList) :
    ofTemplate .standard ("#|" ++ text ++ "|#") = [⟨.expression, text, .start⟩] := by
  have hclosing : ¬ ['|', '#'] <:+: text.toList ++ ['|'] :=
    fun hinfix => h (pair_infix_of_append (by decide) hinfix)
  have htext : ("#|" ++ text ++ "|#").toList = '#' :: '|' :: (text.toList ++ ['|', '#']) := by
    rw [String.toList_append, String.toList_append]
    rfl
  have hnext : next .standard ⟨.start, '#' :: '|' :: (text.toList ++ ['|', '#'])⟩
      = (⟨.expression, String.ofList text.toList, .start⟩, _) :=
    next_expression (d := .standard) (by decide) hclosing
  rw [ofTemplate, Cursor.ofString, htext, scan_of_next (by simp) hnext, scan_nil,
    String.ofList_toList]

end Token

namespace Template

/-- A template that is one expression renders as the call of the output function does. -/
theorem render_expression {text : String} (h : ¬ ['|', '#'] <:+: text.toList) (limits : Limits)
    (env : Environment) :
    (compile .standard ("#|" ++ text ++ "|#")).render limits env
      = runForOutput limits (String.ofList (appendCall text.toList)) env := by
  have hcode : (Fragment.ofTokens [⟨.expression, text, .start⟩]).code
      = String.ofList (appendCall text.toList) := by
    rw [Fragment.ofTokens, List.flatMap_singleton]
    rfl
  rw [render, compile, Token.ofTemplate_expression h]
  exact congrArg (runForOutput limits · env) hcode

theorem runForOutput_of_parse_eq {script script' : String} (h : parse script = parse script')
    (limits : Limits) (env : Environment) :
    runForOutput limits script env = runForOutput limits script' env := by
  rw [runForOutput, runForOutput, execute, execute, h]

theorem runForOutput_of_parse_error {script : String} {e : ScriptError}
    (h : parse script = .error e) (limits : Limits) (env : Environment) :
    runForOutput limits script env = .failed e (prepare env) := by
  rw [runForOutput, execute, h]

/-- What runs for output has been read. -/
theorem parse_of_runForOutput {script : String} {limits : Limits} {env env' : Environment}
    {out : String} (h : runForOutput limits script env = .done out env') :
    ∃ body, parse script = .ok body := by
  cases hparse : parse script with
  | ok body => exact ⟨body, rfl⟩
  | error e =>
    rw [runForOutput_of_parse_error hparse] at h
    cases h

/-- What is rendered by a script that is no more than `append("a");`. -/
theorem render_call {source : String}
    (h : lexemes (compile .standard source).fragment.code = .ok
      [⟨.name "append", ⟨0, 0⟩, false⟩, ⟨.symbol .leftParen, ⟨0, 6⟩, false⟩,
       ⟨.text "a", ⟨0, 7⟩, false⟩, ⟨.symbol .rightParen, ⟨0, 10⟩, false⟩,
       ⟨.symbol .semicolon, ⟨0, 11⟩, false⟩]) :
    (compile .standard source).render {} []
      = .done "a" [("_output", .text "a"), ("append", .native .append)] := by
  rw [render, runForOutput, execute, parse, h]
  rfl

/-- **A comment at the end of an expression takes in the end of its call.**  Let the text of one
    expression be rendered, so that no end marker stands in it.  With a line comment behind it, it
    is rendered to the same if its text ends in a comment already; any other expression is refused
    with a fault of syntax, before anything runs. -/
theorem render_comment (limits : Limits) (env env' : Environment) (e c out : String)
    (he : ¬ ['|', '#'] <:+: e.toList) (hc : '\n' ∉ c.toList ∧ '#' ∉ c.toList)
    (h : (compile .standard ("#|" ++ e ++ "|#")).render limits env = .done out env') :
    (EndsInComment e.toList →
      (compile .standard ("#|" ++ (e ++ " // " ++ c) ++ "|#")).render limits env
        = .done out env') ∧
    (¬ EndsInComment e.toList → ∃ fault : ScriptError, fault.isSyntax = true ∧
      (compile .standard ("#|" ++ (e ++ " // " ++ c) ++ "|#")).render limits env
        = .failed fault (prepare env)) := by
  have htext : (e ++ " // " ++ c).toList = e.toList ++ ' ' :: '/' :: '/' :: ' ' :: c.toList := by
    rw [String.toList_append, String.toList_append, List.append_assoc]
    rfl
  have hcomment : '\n' ∉ ' ' :: c.toList := by simp [hc.1]
  have hpair : ¬ ['|', '#'] <:+: (e ++ " // " ++ c).toList :=
    htext ▸ Token.not_pair_infix_append (by simp [hc.2]) he
  rw [render_expression he] at h
  rw [render_expression hpair, htext]
  constructor
  · intro hends
    rw [← h]
    have hparse := parse_comment_of_endsInComment hends
      (show '\n' ∉ ' ' :: '/' :: '/' :: ' ' :: c.toList by simp [hc.1])
    exact runForOutput_of_parse_eq hparse limits env
  · intro hopen
    obtain ⟨body, hparse⟩ := parse_of_runForOutput h
    obtain ⟨fault, hfault, hsyntax⟩ := parse_comment_fault hopen hcomment hparse
    exact ⟨fault, hsyntax, runForOutput_of_parse_error hfault limits env⟩

/-- A text is rendered, and the text with a comment behind it is refused; behind a text that ends
    its call itself and goes on with a comment, another comment changes nothing. -/
theorem render_comment_text :
    (∃ fault : ScriptError, fault.isSyntax = true ∧
      (compile .standard ("#|" ++ ("\"a\"" ++ " // " ++ "x") ++ "|#")).render {} []
        = .failed fault (prepare [])) ∧
    (compile .standard ("#|" ++ ("\"a\"); //" ++ " // " ++ "x") ++ "|#")).render {} []
      = .done "a" [("_output", .text "a"), ("append", .native .append)] := by
  have hopen : ¬ EndsInComment "\"a\"".toList := by
    rintro ⟨front, back, htext, -, -⟩
    have hmem : '/' ∈ "\"a\"".toList := htext ▸ by simp
    exact absurd hmem (by decide)
  have hends : EndsInComment "\"a\"); //".toList := by
    refine ⟨['\x22', 'a', '\x22', ')', ';', ' '], [], by decide, by decide, ?_⟩
    have hblank : CutBefore ['/', '/'] [' '] := .item (.blank rfl (by decide)) .nil
    have hsemicolon : CutBefore ['/', '/'] (';' :: [' ']) :=
      .item (u := Symbol.semicolon.spelling) (.symbol rfl rfl rfl rfl) hblank
    have hclosing : CutBefore ['/', '/'] (')' :: [';', ' ']) :=
      .item (u := Symbol.rightParen.spelling) (.symbol rfl rfl rfl rfl) hsemicolon
    exact .item (u := ['\x22', 'a', '\x22'])
      (.text (u := ['a']) (.inl rfl) (.plain (by decide) (by decide) (by decide) .nil)) hclosing
  exact ⟨(render_comment {} [] _ "\"a\"" "x" "a" (by decide) (by decide)
      (render_call (by decide +kernel))).2 hopen,
    (render_comment {} [] _ "\"a\"); //" "x" "a" (by decide) (by decide)
      (render_call (by decide +kernel))).1 hends⟩

/-- A comment behind a text keeps the template from being rendered. -/
theorem not_always_render_comment :
    ¬ ∀ (limits : Limits) (env : Environment) (e c out : String),
      '\n' ∉ c.toList ∧ '|' ∉ c.toList ∧ '#' ∉ c.toList →
      (∃ env', (compile .standard ("#|" ++ e ++ "|#")).render limits env = .done out env') →
      ∃ env', (compile .standard ("#|" ++ (e ++ " // " ++ c) ++ "|#")).render limits env
        = .done out env' := by
  intro h
  have hcommented : lexemes
      (compile .standard ("#|" ++ ("\"a\"" ++ " // " ++ "x") ++ "|#")).fragment.code = .ok
      [⟨.name "append", ⟨0, 0⟩, false⟩, ⟨.symbol .leftParen, ⟨0, 6⟩, false⟩,
       ⟨.text "a", ⟨0, 7⟩, false⟩] := by
    decide +kernel
  obtain ⟨env', hdone⟩ :=
    h {} [] "\"a\"" "x" "a" (by decide) ⟨_, render_call (by decide +kernel)⟩
  rw [render, runForOutput, execute, parse, hcommented] at hdone
  cases hdone

end Template

end Stencil
