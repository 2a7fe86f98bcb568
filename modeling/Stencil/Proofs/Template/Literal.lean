/-
  Literal text is rendered verbatim.

  Literal text becomes a call of the output function with the text as a string literal, which is
  read as the same text again, and running the call adds the text to the output and changes nothing
  else.  So the script of any literal pieces outputs their texts in order
  (`runForOutput_literal`).  A template in which no script starts is at most one such piece
  (`ofTemplate_literal`), so it renders as itself, whatever the delimiters are, and whatever the
  environment held before.
-/
import Stencil.Proofs.Template.Calls
import Stencil.Proofs.Template.Chunks
import Stencil.Template

namespace Stencil

open Script

namespace Token

/-- Literal pieces are output as their texts. -/
theorem outputs_literal {tokens : List Token} (h : ∀ t ∈ tokens, t.kind = .chunk) :
    List.Forall₂ Outputs tokens (tokens.map fun t => .text t.text) := by
  rw [List.forall₂_map_right_iff, List.forall₂_same]
  intro t ht
  obtain ⟨kind, text, pos⟩ := t
  obtain rfl : kind = .chunk := h _ ht
  exact outputs_chunk text pos

theorem valueIn?_literal (scopes : List Scope) (tokens : List Token) :
    List.Forall₂ (fun w v => Word.valueIn? scopes w = some v)
      (tokens.map fun t => .text t.text) (tokens.map fun t => .text t.text) := by
  rw [List.forall₂_map_left_iff, List.forall₂_map_right_iff, List.forall₂_same]
  intro t _
  rfl

end Token

namespace Fragment

/-- Running the script of tokens that are output gives the texts of their values, in order. -/
theorem runForOutput_outputs {tokens : List Token} {words : List Word}
    (h : List.Forall₂ Token.Outputs tokens words) {values : List Value}
    (hvalues : List.Forall₂ (fun w v => w.valueIn? [] = some v) words values) {limits : Limits}
    (hsteps : tokens.length + 4 ≤ limits.steps) (env : Environment) :
    runForOutput limits (ofTokens tokens).code env
      = .done (String.join (values.map Value.display))
          (env.withOutput (String.join (values.map Value.display))) := by
  obtain ⟨body, hparse, hbody⟩ := parse_outputs h
  have hlength : body.length = tokens.length := hbody.length_eq.trans h.length_eq.symm
  obtain ⟨n, hn⟩ : ∃ n, limits.steps = n + body.length + 4 :=
    ⟨limits.steps - (body.length + 4), by omega⟩
  refine runForOutput_of_execAll hparse (declaredFunctions_outputs hbody) ?_
  have hall : execAll limits.maxDepth (n + body.length + 4) body (.forOutput env)
      = .done .next ((Machine.forOutput env).output env (outputAll "" values)) :=
    execAll_outputs (Machine.outputs_forOutput env) hbody hvalues n
  rw [hn, hall, outputAll_eq, String.empty_append]

/-- The script of literal pieces outputs their texts. -/
theorem runForOutput_literal {tokens : List Token} (h : ∀ t ∈ tokens, t.kind = .chunk)
    {limits : Limits} (hsteps : tokens.length + 4 ≤ limits.steps) (env : Environment) :
    runForOutput limits (ofTokens tokens).code env
      = .done (String.join (tokens.map Token.text))
          (env.withOutput (String.join (tokens.map Token.text))) := by
  have hrun := runForOutput_outputs (Token.outputs_literal h) (Token.valueIn?_literal [] tokens)
    hsteps env
  rwa [List.map_map] at hrun

end Fragment

/-- Where no script starts in a template, its tokens are those of literal text. -/
theorem Token.ofTemplate_literal {d : Delimiters} {source : String}
    (h : d.Literal .start source.toList []) :
    ofTemplate d source = ofLiteral source.toList .start := by
  have hscan := scan_literal h (Or.inl rfl)
  rwa [scan_nil, List.append_nil, List.append_nil] at hscan

namespace Template

/-- **Literal text is rendered verbatim.**  The script of literal pieces outputs exactly their
    texts and leaves nothing behind in the environment but the output and the output function; and
    a template without an opening pair, and without a line sentinel in a place where it counts,
    renders as itself. -/
theorem literal_verbatim :
    (∀ (tokens : List Token) (limits : Limits) (env : Environment),
      (∀ t ∈ tokens, t.kind = .chunk) → tokens.length + 4 ≤ limits.steps →
      runForOutput limits (Fragment.ofTokens tokens).code env
        = .done (String.join (tokens.map Token.text))
            (env.withOutput (String.join (tokens.map Token.text)))) ∧
    ∀ (d : Delimiters) (source : String) (limits : Limits) (env : Environment),
      ¬ [d.opening.first, d.opening.second] <:+: source.toList →
      (∀ front back, source.toList = front ++ d.line :: back →
        d.lineStartOnly = true ∧ (Position.start.after front).column ≠ 0) →
      5 ≤ limits.steps →
      (compile d source).render limits env = .done source (env.withOutput source) := by
  constructor
  · intro tokens limits env hchunks hsteps
    exact Fragment.runForOutput_literal hchunks hsteps env
  · intro d source limits env hpair hline hsteps
    have hliteral : d.Literal .start source.toList [] :=
      Delimiters.literal_of hpair (by simp) hline
    have hlength := Token.length_ofLiteral_le source.toList .start
    have hrun := Fragment.runForOutput_literal (fun _ => Token.kind_of_mem_ofLiteral)
      (Nat.le_trans (Nat.add_le_add_right hlength 4) hsteps) env
    rw [Token.join_ofLiteral, String.ofList_toList] at hrun
    rw [render, compile, Token.ofTemplate_literal hliteral]
    exact hrun

/-- Two pieces with quotes, a line break and a backslash, and a template with a sentinel inside a
    line. -/
theorem literal_verbatim_quotes :
    runForOutput {} (Fragment.ofTokens [⟨.chunk, "\"\n", ⟨3, 1⟩⟩, ⟨.chunk, "\\", ⟨0, 0⟩⟩]).code
        [("_output", .null)]
      = .done "\"\n\\" [("_output", .text "\"\n\\"), ("append", .native .append)] ∧
    (compile .standard "a ~\n# |").render {} [("x", .null)]
      = .done "a ~\n# |"
          [("_output", .text "a ~\n# |"), ("append", .native .append), ("x", .null)] := by
  constructor
  · exact literal_verbatim.1 [⟨.chunk, "\"\n", ⟨3, 1⟩⟩, ⟨.chunk, "\\", ⟨0, 0⟩⟩] {}
      [("_output", .null)] (by decide) (by decide)
  · refine literal_verbatim.2 .standard "a ~\n# |" {} [("x", .null)] (by decide +kernel) ?_
      (by decide)
    intro front back h
    have h' : ['a', ' ', '~', '\n', '#', ' ', '|'] = front ++ '~' :: back := h
    rcases front with - | ⟨c, - | ⟨c', - | ⟨c'', front⟩⟩⟩
    · simp at h'
    · simp at h'
    · obtain ⟨rfl, rfl, -⟩ : c = 'a' ∧ c' = ' ' ∧ _ := by simpa [eq_comm] using h'
      decide
    · have hrest := (List.cons.inj (List.cons.inj (List.cons.inj h').2).2).2
      have hmem : '~' ∈ ['\n', '#', ' ', '|'] := hrest ▸ List.mem_append_right _ List.mem_cons_self
      exact absurd hmem (by decide)

end Template

end Stencil
