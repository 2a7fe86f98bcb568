/-
  The functions of a script.

  What is read from the word `function` on depends on what is left of the row alone, and a position
  says what that is, so a script declares at most one function at a position
  (`parse_function_unique`).  The numbers in a script are read from numerals and equal themselves,
  so each of its functions is the same as itself (`parse_function_same`).
-/
import Mathlib
import Stencil.Proofs.Number.Overflow
import Stencil.Proofs.Script.Grammar.Spans
import Stencil.Proofs.Script.Lexemes.Order
import Stencil.Proofs.Script.Tree.Parts
import Stencil.Proofs.Script.Tree.Same

namespace Stencil.Script

/-! ## Parts of functions -/

/-- The function and all that stands in it. -/
def Function.nodes (f : Function) : List Node := .function f :: Stmt.nodesList f.body

theorem Function.self_mem_nodes (f : Function) : .function f ∈ f.nodes := List.mem_cons_self

mutual

/-- What stands in a declared function stands in the statement around it. -/
theorem Stmt.nodes_of_mem_functions {f : Function} {x : Node} (hx : x ∈ f.nodes) :
    ∀ {stmt : Stmt}, f ∈ stmt.functions → x ∈ stmt.nodes
  | .branch .., h => by
    simp only [functions, nodes, List.mem_append] at h ⊢
    rcases h with h | h
    · exact Or.inr (Or.inl (nodes_of_mem_functions hx h))
    · exact Or.inr (Or.inr (nodesElse_of_mem_functions hx h))
  | .whileLoop .., h => List.mem_append_right _ (nodes_of_mem_functions hx h)
  | .doWhile .., h => List.mem_append_left _ (nodes_of_mem_functions hx h)
  | .forLoop .., h => by
    simp only [nodes, List.mem_append]
    exact Or.inr (Or.inr (Or.inr (nodes_of_mem_functions hx h)))
  | .forOf .., h => List.mem_append_right _ (nodes_of_mem_functions hx h)
  | .block _, h => nodesList_of_mem_functions hx h
  | .function .., h => by
    rcases List.mem_cons.mp h with rfl | h
    · exact hx
    · exact List.mem_cons_of_mem _ (nodesList_of_mem_functions hx h)

theorem Stmt.nodesElse_of_mem_functions {f : Function} {x : Node} (hx : x ∈ f.nodes) :
    ∀ {stmt : Option Stmt}, f ∈ Stmt.functionsElse stmt → x ∈ Stmt.nodesElse stmt
  | some _, h => nodes_of_mem_functions hx h

theorem Stmt.nodesList_of_mem_functions {f : Function} {x : Node} (hx : x ∈ f.nodes) :
    ∀ {body : List Stmt}, f ∈ Stmt.functionsList body → x ∈ Stmt.nodesList body
  | _ :: _, h => by
    rcases List.mem_append.mp h with h | h
    · exact List.mem_append_left _ (nodes_of_mem_functions hx h)
    · exact List.mem_append_right _ (nodesList_of_mem_functions hx h)

end

/-! ## One function at a position -/

namespace Grammar

/-- It makes no difference in what loop or function the word `function` stands. -/
theorem statement_function (levels : Nat) (s s' : Surroundings) (hlast : s.last = s'.last)
    {l : Lexeme} (h : l.word = .keyword .kwFunction) (after : List Lexeme) :
    statement levels s (l :: after) = statement levels s' (l :: after) := by
  cases levels with
  | zero => rw [statement, statement, hlast]
  | succ levels =>
    have hfunction (s : Surroundings) : statement (levels + 1) s (l :: after) =
        function s.last l.pos (statement levels s.functionBody) after := by
      rw [statement, Reader.here_bind, Reader.peek?_bind, next?_cons, h]
      rfl
    rw [hfunction, hfunction, Surroundings.functionBody, Surroundings.functionBody, hlast]

end Grammar

/-- **A script declares at most one function at a position.** -/
theorem parse_function_unique {script : String} {body : List Stmt} (h : parse script = .ok body)
    {f g : Function} (hf : f ∈ Stmt.functionsList body) (hg : g ∈ Stmt.functionsList body)
    (hpos : f.pos = g.pos) : f = g := by
  obtain ⟨row, hrow, hstands⟩ := parse_stands h
  obtain ⟨l, after, hl, hword, hlpos, s, rest, hread⟩ :=
    hstands _ (Stmt.nodesList_of_mem_functions f.self_mem_nodes hf)
  obtain ⟨l', after', hl', -, hlpos', s', rest', hread'⟩ :=
    hstands _ (Stmt.nodesList_of_mem_functions g.self_mem_nodes hg)
  -- at one position the same is left of the row, and both functions are read from it
  cases eq_of_suffix_of_pos (lexemes_ascending hrow) hl hl'
    (hlpos.trans (hpos.trans hlpos'.symm))
  have hsame := Grammar.statement_function Grammar.maxNesting { s with last := l.pos }
    { s' with last := l.pos } rfl hword after
  rw [hread, hread'] at hsame
  simp only [Except.ok.injEq, Prod.mk.injEq, Stmt.function.injEq] at hsame
  obtain ⟨⟨-, hname, hparams, hbody⟩, -⟩ := hsame
  calc f = ⟨f.pos, f.name, f.params, f.body⟩ := rfl
    _ = g := by rw [hpos, hname, hparams, hbody]

/-! ## Numbers -/

/-- What spells a number is a numeral. -/
theorem WordForm.number_cases {w : Word} {u : List Char} (h : WordForm w u) {x : Float}
    (hx : w = .number x) : ∃ n : Numeral, x = n.toFloat := by
  cases h with
  | @number _ n _ => exact ⟨n, by cases hx; rfl⟩
  | text => cases hx
  | name =>
    unfold Word.ofName at hx
    split at hx <;> cases hx
  | symbol => cases hx

/-- A numeral is equal to itself: it is a number. -/
theorem toFloat_beq_self (n : Numeral) : (n.toFloat == n.toFloat) = true := by
  refine Float.beq_self_iff.mpr fun hnan => ?_
  have hnumber := n.toFloat_status.2
  rw [hnan] at hnumber
  exact absurd hnumber (by decide +kernel)

/-- Every number among the lexemes equals itself. -/
theorem SpellsRow.number_same {b : Bool} {pos : Position} {text : List Char} {row : List Lexeme}
    (h : SpellsRow b pos text row) {l : Lexeme} (hl : l ∈ row) {x : Float}
    (hx : l.word = .number x) : (x == x) = true := by
  induction h with
  | nil => cases hl
  | space _ _ ih => exact ih hl
  | word hw _ ih =>
    rcases List.mem_cons.mp hl with rfl | hl
    · obtain ⟨n, rfl⟩ := hw.wordForm.number_cases hx
      exact toFloat_beq_self n
    · exact ih hl

namespace Grammar

theorem DerivesJoined.ne_number {n : Nat} {lhs : Expr} {power : Power} {c : Connective}
    {row rest : List Lexeme} {e : Expr} (h : DerivesJoined n lhs power c row e rest)
    (p : Position) (x : Float) : e ≠ .number p x := by
  cases h <;> simp

theorem DerivesSuffixed.ne_number {n : Nat} {e e' : Expr} {s : Suffix} {row rest : List Lexeme}
    (h : DerivesSuffixed n e s row e' rest) (p : Position) (x : Float) : e' ≠ .number p x := by
  cases h <;> simp

/-- A number has no suffix, -/
theorem DerivesSuffixes.of_number {n : Nat} {row rest : List Lexeme} {e e' : Expr} {p : Position}
    {x : Float} : DerivesSuffixes n e row e' rest → e' = .number p x → e = .number p x
  | .done _ _, he => he
  | .update _ _ _, he => by cases he
  | .more _ hone hmore, he => absurd (hmore.of_number he) (hone.ne_number p x)

/-- and no operator behind it either. -/
theorem DerivesOperators.of_number {n least : Nat} {row rest : List Lexeme} {lhs e : Expr}
    {p : Position} {x : Float} :
    DerivesOperators n least lhs row e rest → e = .number p x → lhs = .number p x
  | .done _, he => he
  | .more _ hone hmore, he => absurd (hmore.of_number he) (hone.ne_number p x)

theorem word_of_atom?_number {w : Word} {pos p : Position} {x : Float}
    (h : w.atom? pos = some (.number p x)) : w = .number x := by
  unfold Word.atom? at h
  split at h <;> cases h
  rfl

mutual

/-- **A number is read from a lexeme.** -/
theorem DerivesExpr.number_mem {n least : Nat} {row rest : List Lexeme} {e : Expr} {p : Position}
    {x : Float} :
    DerivesExpr n least row e rest → e = .number p x → ∃ l ∈ row, l.word = .number x
  | .mk hlhs hops, he => hlhs.number_mem (hops.of_number he)

theorem DerivesOperand.number_mem {n : Nat} {row rest : List Lexeme} {e : Expr} {p : Position}
    {x : Float} : DerivesOperand n row e rest → e = .number p x → ∃ l ∈ row, l.word = .number x
  | .update .., he | .unary .., he => by cases he
  | .primary hprimary hsuffixes, he => hprimary.number_mem (hsuffixes.of_number he)

theorem DerivesPrimary.number_mem {n : Nat} {row rest : List Lexeme} {e : Expr} {p : Position}
    {x : Float} : DerivesPrimary n row e rest → e = .number p x → ∃ l ∈ row, l.word = .number x
  | .atom h, he => ⟨_, List.mem_cons_self, word_of_atom?_number (he ▸ h)⟩
  | .group _ hinner _, he => by
    obtain ⟨l, hl, hword⟩ := hinner.number_mem he
    exact ⟨l, List.mem_cons_of_mem _ hl, hword⟩
  | .array .., he | .object .., he => by cases he

end

end Grammar

/-- The numbers in a script equal themselves. -/
theorem parse_definite {script : String} {body : List Stmt} (h : parse script = .ok body) :
    ∀ x ∈ Stmt.nodesList body, x.Definite := by
  obtain ⟨row, hrow, hstands⟩ := parse_stands h
  intro node hnode
  cases node with
  | expr e =>
    cases e with
    | number p x =>
      obtain ⟨seg, hseg, -, hread⟩ := hstands _ hnode
      obtain ⟨l, hl, hword⟩ := (Grammar.expression_sound (hread p)).number_mem rfl
      exact (lexemes_eq_ok_iff.mp hrow).number_same (hseg.subset hl) hword
    | _ => trivial
  | declarator => trivial
  | function => trivial

/-- **Each function of a script is the same as itself.** -/
theorem parse_function_same {script : String} {body : List Stmt} (h : parse script = .ok body)
    {f : Function} (hf : f ∈ Stmt.functionsList body) : f.same f = true :=
  f.same_self fun x hx =>
    parse_definite h x (Stmt.nodesList_of_mem_functions (List.mem_cons_of_mem _ hx) hf)

end Stencil.Script
