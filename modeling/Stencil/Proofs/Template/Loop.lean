/-
  A loop around literal text repeats it once per item.

  The head of the loop, its body and its closing brace are tokens of their own.  What stands behind
  a directive line in the script is a comment and spells nothing (`spellsRow_note`), so the head's
  words, the calls of the body and the brace are read as one statement (`parse_loop`).  Running it
  outputs the body once for each item, and what the loop declares is gone afterwards.
-/
import Stencil.Proofs.Template.Literal

namespace Stencil

open Script Script.Grammar

/-! ## Directive lines -/

/-- A position in words stands on one line. -/
theorem Position.newline_not_mem_describe (p : Position) : '\n' ∉ p.describe.toList := by
  have hdigits : ∀ n : Nat, '\n' ∉ (toString n).toList := by
    intro n hn
    have hmem : '\n' ∈ Nat.toDigits 10 n := by
      rwa [Nat.toString_eq_repr, Nat.repr, String.toList_ofList] at hn
    exact absurd (Nat.isDigit_of_mem_toDigits (by omega) (by omega) hmem) (by decide)
  simp only [describe, String.toList_append, List.mem_append, not_or]
  exact ⟨⟨⟨by decide, hdigits _⟩, by decide⟩, hdigits _⟩

namespace Token

/-- What stands behind the text of a directive line in the script spells nothing. -/
theorem spellsRow_note (b : Bool) {pos : Position} (p : Position) {rest : List Char}
    {more : List Lexeme}
    (h : SpellsRow true (pos.after (" // ~ ".toList ++ p.describe.toList ++ ['\n'])) rest more) :
    SpellsRow b pos (" // ~ ".toList ++ p.describe.toList ++ ['\n'] ++ rest) more := by
  let comment := '/' :: '/' :: (" ~ ".toList ++ p.describe.toList)
  have htext : ∀ rest, " // ~ ".toList ++ p.describe.toList ++ ['\n'] ++ rest
      = [' '] ++ (comment ++ (['\n'] ++ rest)) := fun rest => by simp [comment]
  have hnote := htext []
  rw [List.append_nil, List.append_nil] at hnote
  have hline : '\n' ∉ " ~ ".toList ++ p.describe.toList := by
    rw [List.mem_append, not_or]
    exact ⟨by decide, p.newline_not_mem_describe⟩
  rw [hnote, Position.after_append, Position.after_append] at h
  rw [htext]
  refine .space (.blank (by decide +kernel) (by decide)) ?_
  refine .space (.lineComment hline (Or.inr rfl)) ?_
  refine .space .lineBreak ?_
  rwa [Bool.or_true]

/-- The line that closes a block spells its brace. -/
theorem spellsRow_close (b : Bool) (pos p : Position) :
    SpellsRow b pos (Token.mk .line "\x7d" p).piece [⟨.symbol .rightBrace, pos, b⟩] := by
  have hnote : SpellsRow false (pos.after Symbol.rightBrace.spelling)
      (" // ~ ".toList ++ p.describe.toList ++ ['\n'] ++ []) [] := spellsRow_note false p .nil
  have hpiece : (Token.mk .line "\x7d" p).piece = Symbol.rightBrace.spelling ++
      (" // ~ ".toList ++ p.describe.toList ++ ['\n'] ++ []) := by
    have htext : "\x7d".toList = Symbol.rightBrace.spelling := by decide +kernel
    rw [piece, htext, List.append_nil, List.append_assoc, List.append_assoc, List.append_assoc]
    rfl
  rw [hpiece]
  exact .word (.symbol rfl rfl rfl rfl) hnote

/-- The line that opens a loop over the items of `xs`. -/
def loopHead : Token := ⟨.line, "for (const x of xs) \x7b", .start⟩

end Token

namespace Fragment

/-- The lines of a loop and the tokens between them that are output are read as the loop over the
    calls. -/
theorem parse_loop {inner : List Token} {words : List Word}
    (h : List.Forall₂ Token.Outputs inner words) (p : Position) :
    ∃ q body, parse (ofTokens (Token.loopHead :: (inner ++ [⟨.line, "\x7d", p⟩]))).code
        = .ok [.forOf .constDecl "x" (.name q "xs") (.block body)] ∧
      List.Forall₂ Stmt.Outputs body words := by
  have hhead : lexemes (ofTokens [Token.loopHead]).code = .ok
      [⟨.keyword .kwFor, ⟨0, 0⟩, false⟩, ⟨.symbol .leftParen, ⟨0, 4⟩, false⟩,
       ⟨.keyword .kwConst, ⟨0, 5⟩, false⟩, ⟨.name "x", ⟨0, 11⟩, false⟩,
       ⟨.name "of", ⟨0, 13⟩, false⟩, ⟨.name "xs", ⟨0, 16⟩, false⟩,
       ⟨.symbol .rightParen, ⟨0, 18⟩, false⟩, ⟨.symbol .leftBrace, ⟨0, 20⟩, false⟩] := by
    decide +kernel
  have hheadSpells := lexemes_eq_ok_iff.mp hhead
  rw [toList_code_singleton] at hheadSpells
  obtain ⟨row, body, hbody, hrow, hblock, -⟩ :=
    Token.exists_calls h ⟨0 + Token.loopHead.rows, 0⟩
  let close : Lexeme :=
    ⟨.symbol .rightBrace,
      Position.after ⟨0 + Token.loopHead.rows, 0⟩ (inner.flatMap Token.piece), true⟩
  have hspells := spellsRow_piece hheadSpells
    (hrow (Token.mk .line "\x7d" p).piece [close] (Token.spellsRow_close true _ p))
  have hcode : (ofTokens (Token.loopHead :: (inner ++ [⟨.line, "\x7d", p⟩]))).code.toList
      = Token.loopHead.piece ++ (inner.flatMap Token.piece ++ (Token.mk .line "\x7d" p).piece) := by
    rw [toList_code, List.flatMap_cons, List.flatMap_append, List.flatMap_singleton]
  rw [← hcode] at hspells
  -- the head takes one level, the braces one more, and what is left is enough for the calls
  have hinner := hblock 58 ⟨.start, true, false⟩ [close] [] [] (.nil rfl)
  rw [List.append_nil] at hinner
  refine ⟨⟨0, 16⟩, body, (parse_eq_ok_iff .start).mpr ⟨_, hspells, .cons ?_ .nil⟩, hbody⟩
  exact .forOf rfl rfl rfl rfl rfl (derives_argument rfl rfl) rfl (.block rfl hinner)

/-- Running a loop around tokens that are output gives their texts once for each item. -/
theorem runForOutput_loop {inner : List Token} {words : List Word}
    (h : List.Forall₂ Token.Outputs inner words) (p : Position) {env : Environment}
    {items : List Value} (hxs : Dict.get? env "xs" = some (.array items))
    {values : Value → List Value} (hvalues : Word.InRounds .constDecl "x" words values)
    {limits : Limits} (hsteps : inner.length + items.length + 9 ≤ limits.steps) :
    let out := String.join (items.map fun v => String.join ((values v).map Value.display))
    runForOutput limits (ofTokens (Token.loopHead :: (inner ++ [⟨.line, "\x7d", p⟩]))).code env
      = .done out (env.withOutput out) := by
  intro out
  obtain ⟨q, body, hparse, hbody⟩ := parse_loop h p
  have hlength : body.length = inner.length := hbody.length_eq.trans h.length_eq.symm
  obtain ⟨n, hn⟩ : ∃ n, limits.steps = n + body.length + items.length + 9 :=
    ⟨limits.steps - (body.length + items.length + 9), by omega⟩
  refine runForOutput_of_execAll hparse rfl ?_
  have hlookup : (Machine.forOutput env).lookup? "xs" = some (.array items) :=
    Machine.lookup?_forOutput (by decide) (by decide) hxs
  have hlist : eval limits.maxDepth (n + body.length + items.length + 7) (.name q "xs")
      (.forOutput env) = .done (.array items) (.forOutput env) := eval_name hlookup q _
  have hloop := exec_forOf_outputs (by decide) (by decide) hbody hvalues
    (Machine.outputs_forOutput env) n hlist rfl
  rw [foldl_outputAll_eq, String.empty_append] at hloop
  rw [hn, execAll, Effect.bind_of_done hloop]
  rfl

end Fragment

/-! ## The template -/

/-- The tokens between the lines of a loop: literal text, the item, and literal text through the
    line break. -/
def Token.loopBody (a b : List Char) (p q : Position) : List Token :=
  ofLiteral a ⟨1, 0⟩ ++ ⟨.expression, "x", p⟩ :: ofLiteral (b ++ ['\n']) q

namespace Template

/-- A template with a loop around an expression in literal text. -/
def loopSource (a b : List Char) : List Char :=
  '~' :: 'f' :: ("or (const x of xs) \x7b".toList ++
    '\n' :: (a ++ '#' :: '|' :: (['x'] ++ '|' :: '#' :: (b ++ ['\n'] ++ ['~', '}', '\n']))))

end Template

/-- The text behind the expression, through its line break, and the line that closes the loop. -/
theorem Token.scan_loopEnd {b : List Char} (hpair : ¬ ['#', '|'] <:+: b)
    (hbreak : ¬ ['\n', '~'] <:+: b) {q : Position} (hq : q.column ≠ 0) :
    ∃ r, scan .standard ⟨q, b ++ ['\n'] ++ ['~', '}', '\n']⟩
      = ofLiteral (b ++ ['\n']) q ++ [⟨.line, "\x7d", r⟩] := by
  let d := Delimiters.standard
  -- the break that ends the text puts the closing line's sentinel in the first column
  let r := q.after (b ++ ['\n'])
  have hr : r.column = 0 := by
    show (q.after (b ++ ['\n'])).column = 0
    rw [Position.after_append]
    rfl
  have hdirective : d.directiveStarts r ['~', '}', '\n'] = true := by
    rw [Delimiters.directiveStarts, hr]
    rfl
  have hliteral : d.Literal q (b ++ ['\n']) ['~', '}', '\n'] := by
    refine Delimiters.literal_standard ?_ (by decide) (fun h => absurd h hq) ?_
    · exact fun h => hpair (pair_infix_of_append (by decide) h)
    · exact fun h => hbreak (pair_infix_of_append (by decide) h)
  have hstarts : d.scriptStarts r ['~', '}', '\n'] = true := by
    rw [Delimiters.scriptStarts, hdirective, Bool.true_or]
  have hclose : next d ⟨r, ['~', '}', '\n']⟩
      = (⟨.line, "\x7d", r⟩, ⟨r.after ['~', '}', '\n'], []⟩) :=
    @next_line d r ['}'] [] hdirective (by decide) (by decide) (by decide) (by decide)
  refine ⟨r, ?_⟩
  rw [scan_literal hliteral (Or.inr hstarts), scan_of_next (List.cons_ne_nil _ _) hclose, scan_nil]

/-- No script starts in the texts around the expression, so the template is cut where it is meant
    to be. -/
theorem Token.scan_loopSource {a b : List Char} (ha : ¬ ['#', '|'] <:+: a)
    (hb : ¬ ['#', '|'] <:+: b) (hstart : a.head? ≠ some '~') (haline : ¬ ['\n', '~'] <:+: a)
    (hbline : ¬ ['\n', '~'] <:+: b) :
    ∃ p q r, scan .standard ⟨.start, Template.loopSource a b⟩
      = loopHead :: (loopBody a b p q ++ [⟨.line, "\x7d", r⟩]) := by
  let d := Delimiters.standard
  let body := '#' :: '|' :: (['x'] ++ '|' :: '#' :: (b ++ ['\n'] ++ ['~', '}', '\n']))
  have hhead : next d ⟨.start, Template.loopSource a b⟩ = (loopHead, ⟨⟨1, 0⟩, a ++ body⟩) :=
    @next_line d .start "for (const x of xs) \x7b".toList (a ++ body) rfl (by decide) (by decide)
      (by decide) (by decide)
  let p := Position.after ⟨1, 0⟩ a
  have hfirst : scan d ⟨⟨1, 0⟩, a ++ body⟩ = ofLiteral a ⟨1, 0⟩ ++ scan d ⟨p, body⟩ := by
    have hopen : body.head? ≠ some '|' := by simp [body]
    have hstarts : d.scriptStarts p body = true := by
      rw [Delimiters.scriptStarts, Bool.or_eq_true]
      exact Or.inr rfl
    exact scan_literal (Delimiters.literal_standard ha hopen (fun _ => hstart) haline)
      (Or.inr hstarts)
  let q := p.after ['#', '|', 'x', '|', '#']
  have hitem : next d ⟨p, body⟩
      = (⟨.expression, "x", p⟩, ⟨q, b ++ ['\n'] ++ ['~', '}', '\n']⟩) :=
    next_expression (d := d) (by decide) (by decide)
  -- behind the expression it is not the first column, so the text there may begin with a sentinel
  have hcolumn : q.column ≠ 0 := by
    show (p.after ['#', '|', 'x', '|', '#']).column ≠ 0
    rw [Position.after_of_not_mem p (by decide)]
    exact Nat.succ_ne_zero _
  obtain ⟨r, hend⟩ := scan_loopEnd hb hbline hcolumn
  refine ⟨p, q, r, ?_⟩
  rw [scan_of_next (List.cons_ne_nil _ _) hhead, hfirst,
    scan_of_next (List.cons_ne_nil _ _) hitem, hend, loopBody, List.append_assoc]
  rfl

/-- In a round the tokens of the body are output as the texts, with the item between them. -/
theorem Token.outputs_loopBody (a b : List Char) (p q : Position) :
    ∃ (words : List Word) (values : Value → List Value),
      List.Forall₂ Outputs (loopBody a b p q) words ∧ Word.InRounds .constDecl "x" words values ∧
      ∀ v, String.join ((values v).map Value.display)
        = String.ofList a ++ v.display ++ String.ofList b ++ "\n" := by
  let before := ofLiteral a ⟨1, 0⟩
  let behind := ofLiteral (b ++ ['\n']) q
  let values (v : Value) : List Value :=
    before.map (fun t => .text t.text) ++ v :: behind.map fun t => .text t.text
  refine ⟨before.map (fun t => .text t.text) ++ .name "x" :: behind.map fun t => .text t.text,
    values, ?_, ?_, ?_⟩
  · have hitem : (Token.mk .expression "x" p).Outputs (.name "x") :=
      outputs_name (c := 'x') (u := []) (by decide +kernel) (by simp) (by decide +kernel) p
    exact List.rel_append (outputs_literal fun _ => kind_of_mem_ofLiteral)
      (.cons hitem (outputs_literal fun _ => kind_of_mem_ofLiteral))
  · intro v scopes
    have hitem : (Word.name "x").valueIn?
        (Scope.block :: Scope.ofRound .constDecl "x" v :: scopes) = some v := by
      rw [Word.valueIn?, findBinding?_ofRound_self]
      rfl
    exact List.rel_append (valueIn?_literal _ before) (.cons hitem (valueIn?_literal _ behind))
  · intro v
    have htexts : (values v).map Value.display
        = before.map Token.text ++ v.display :: behind.map Token.text := by
      simp only [values, List.map_append, List.map_cons, List.map_map]
      rfl
    have hjoin : ∀ (xs ys : List String) (s : String),
        String.join (xs ++ s :: ys) = String.join xs ++ s ++ String.join ys := by
      intro xs ys s
      apply String.toList_injective
      simp [String.toList_join]
    rw [htexts, hjoin, join_ofLiteral, join_ofLiteral, String.ofList_append, ← String.append_assoc]

namespace Template

/-- **A loop around literal text repeats it once per item**, in order, with the item in its
    place, and leaves nothing behind in the environment but the output and the output function. -/
theorem render_loop {env : Environment} {items : List Value}
    (hxs : Dict.get? env "xs" = some (.array items)) {a b : String}
    (ha : ¬ ['#', '|'] <:+: a.toList) (hb : ¬ ['#', '|'] <:+: b.toList)
    (hstart : a.toList.head? ≠ some '~') (haline : ¬ ['\n', '~'] <:+: a.toList)
    (hbline : ¬ ['\n', '~'] <:+: b.toList) {limits : Limits}
    (hsteps : items.length + 12 ≤ limits.steps) :
    let out := String.join (items.map fun v => a ++ v.display ++ b ++ "\n")
    (compile .standard
        ("~for (const x of xs) \x7b\n" ++ a ++ "#|x|#" ++ b ++ "\n~\x7d\n")).render limits env
      = .done out (env.withOutput out) ∧
    ∀ name, name ≠ outputName → name ≠ Native.append.name →
      Dict.get? (env.withOutput out) name = Dict.get? env name := by
  intro out
  refine ⟨?_, fun name houtput happend => env.get?_withOutput_of_ne out houtput happend⟩
  have hsource : ("~for (const x of xs) \x7b\n" ++ a ++ "#|x|#" ++ b ++ "\n~\x7d\n").toList
      = loopSource a.toList b.toList := by
    simp [loopSource]
  obtain ⟨p, q, r, hscan⟩ := Token.scan_loopSource ha hb hstart haline hbline
  obtain ⟨words, values, houtputs, hvalues, hround⟩ := Token.outputs_loopBody a.toList b.toList p q
  have hsteps' : (Token.loopBody a.toList b.toList p q).length + items.length + 9
      ≤ limits.steps := by
    have hbefore := Token.length_ofLiteral_le a.toList ⟨1, 0⟩
    have hbehind := Token.length_ofLiteral_le (b.toList ++ ['\n']) q
    rw [Token.loopBody, List.length_append, List.length_cons]
    omega
  have hrun := Fragment.runForOutput_loop houtputs r hxs hvalues hsteps'
  have hout : String.join (items.map fun v => String.join ((values v).map Value.display))
      = out := by
    simp only [hround, String.ofList_toList, out]
  rw [hout] at hrun
  rw [render, compile, Token.ofTemplate, Cursor.ofString, hsource, hscan]
  exact hrun

/-- Two items of different types, where the loop's name stands for something else outside. -/
theorem render_loop_items :
    (compile .standard "~for (const x of xs) \x7b\n- #|x|#;\n~\x7d\n").render {}
        [("x", .bool true), ("xs", .array [.text "a", .null])]
      = .done "- a;\n- null;\n"
          [("_output", .text "- a;\n- null;\n"), ("append", .native .append), ("x", .bool true),
           ("xs", .array [.text "a", .null])] :=
  (@render_loop [("x", .bool true), ("xs", .array [.text "a", .null])] [.text "a", .null] rfl
    "- " ";" (by decide) (by decide) (by decide) (by decide) (by decide) {} (by decide)).1

end Template

end Stencil
