/-
  Rendering in two steps.

  The script of some tokens ends in a line break, so behind it the script of other tokens stands on
  rows of its own and, unless it begins with a word that runs on, is read as by itself
  (`parse_append`).  So two token lists can be rendered one after the other or at once, with the
  same output (`runForOutput_append`).
-/
import Stencil.Proofs.Script.Grammar.Placement
import Stencil.Proofs.Script.Run.Successive
import Stencil.Proofs.Template.Pieces

namespace Stencil

open Script Script.Grammar

namespace Fragment

/-! ## Reading both scripts at once -/

theorem down_zero : Position.down 0 = id := rfl

/-- The script of some tokens is empty or ends in a line break. -/
theorem flatMap_piece_cases (tokens : List Token) : tokens.flatMap Token.piece = [] ∨
    ∃ line, tokens.flatMap Token.piece = line ++ ['\n'] := by
  induction tokens with
  | nil => exact Or.inl rfl
  | cons t tokens ih =>
    obtain ⟨line, hline⟩ := t.exists_piece_eq
    rw [List.flatMap_cons, hline]
    rcases ih with hnil | ⟨rest, hrest⟩
    · exact Or.inr ⟨line, by rw [hnil, List.append_nil]⟩
    · exact Or.inr ⟨line ++ ['\n'] ++ rest, by rw [hrest, ← List.append_assoc]⟩

/-- A script of tokens spells the same row further down. -/
theorem spellsRow_down {tokens : List Token} {b : Bool} {pos : Position} {row : List Lexeme}
    (n : Nat) (h : SpellsRow b pos (tokens.flatMap Token.piece) row) :
    SpellsRow b (pos.down n) (tokens.flatMap Token.piece) (moved (Position.down n) row []) := by
  rcases flatMap_piece_cases tokens with hnil | ⟨line, hline⟩
  · rw [hnil] at h ⊢
    rw [h.row_nil]
    exact .nil
  · rw [hline] at h ⊢
    exact h.append n .nil

/-- **A script of tokens behind another one is read as by itself**, on the rows below, where each of
    its pieces is a script and starts afresh. -/
theorem parse_append {tokens tokens' : List Token} {bodies : List (List Stmt)}
    {body body' : List Stmt}
    (hpieces : tokens'.map (fun t => parse (ofTokens [t]).code) = bodies.map .ok)
    (hfresh : ∀ t ∈ (tokens ++ tokens').tail, StartsAfresh t)
    (h : parse (ofTokens tokens).code = .ok body)
    (h' : parse (ofTokens tokens').code = .ok body') :
    ∃ n, parse (ofTokens (tokens ++ tokens')).code
      = .ok (body ++ Stmt.mapPosList (Position.down n) body') := by
  cases tokens with
  | nil =>
    have hnil : parse (ofTokens []).code = .ok [] :=
      (parse_eq_ok_iff .start).mpr ⟨[], by rw [toList_code]; exact .nil, .nil⟩
    rw [hnil] at h
    cases h
    exact ⟨0, by rw [down_zero, Stmt.mapPosList_id]; exact h'⟩
  | cons t tokens =>
    have hfresh' : ∀ t' ∈ tokens', StartsAfresh t' := fun t' ht' =>
      hfresh t' (List.mem_append_right _ ht')
    obtain ⟨row, hrow, hderives⟩ := (parse_eq_ok_iff .start).mp h
    obtain ⟨row', hrow', hderives'⟩ := (parse_eq_ok_iff .start).mp h'
    rw [toList_code] at hrow hrow'
    obtain ⟨line, hline⟩ : ∃ line, (t :: tokens).flatMap Token.piece = line ++ ['\n'] := by
      refine (flatMap_piece_cases _).resolve_left fun hnil => ?_
      obtain ⟨line, hpiece⟩ := t.exists_piece_eq
      simp [hpiece] at hnil
    let n := line.count '\n' + 1
    have hafter : Position.start.after (line ++ ['\n']) = ⟨n, 0⟩ := by
      rw [Position.after_line _ line (by simp)]
      simp [Position.start, n]
    have hstart : Position.start.down n = ⟨n, 0⟩ := by
      rw [Position.down, Position.start, Nat.zero_add]
    have hk : SpellsRow true ⟨n, 0⟩ (tokens'.flatMap Token.piece)
        (moved (Position.down n) (breakBefore row') []) := by
      rw [← hstart]
      exact spellsRow_down n hrow'.breakBefore
    have hkderives := hderives'.breakBefore.append (f := Position.down n) Separate.nil .nil
    -- as the row of the pieces it is separate from what stands before it
    have hseparate : Separate (moved (Position.down n) (breakBefore row') []) := by
      obtain ⟨k, hpieces, -, hseparate⟩ := derives_pieces .start hpieces hfresh' n
      have hsame := hpieces.complete.symm.trans hk.complete
      exact Except.ok.inj hsame ▸ hseparate
    refine ⟨n, (parse_eq_ok_iff .start).mpr
      ⟨moved id row (moved (Position.down n) (breakBefore row') []), ?_, ?_⟩⟩
    · rw [hline] at hrow
      have hboth := hrow.append 0 (by rw [hafter]; exact hk)
      rw [toList_code, List.flatMap_append, hline, List.append_assoc]
      exact hboth
    · have hboth := hderives.append (f := id) hseparate hkderives
      rw [← Stmt.mapPosList_eq_map, ← Stmt.mapPosList_eq_map, Stmt.mapPosList_id,
        List.append_nil] at hboth
      exact hboth

end Fragment

/-! ## Running both scripts at once -/

namespace Script

/-- What a run for output that succeeds comes from. -/
theorem runForOutput_done_iff {limits : Limits} {script : String} {env env' : Environment}
    {o : String} : runForOutput limits script env = .done o env' ↔
      ∃ body, parse script = .ok body ∧ runProgram limits body (prepare env) = .done () env' ∧
        o = ((Dict.get? env' outputName).map Value.display).getD "" := by
  rw [runForOutput, execute]
  cases parse script with
  | error e =>
    constructor
    · intro h
      cases h
    · rintro ⟨body, h, -⟩
      cases h
  | ok body =>
    dsimp only
    constructor
    · intro h
      refine ⟨body, rfl, ?_⟩
      split at h <;> cases h
      exact ⟨‹_›, rfl⟩
    · rintro ⟨body', h, hrun, rfl⟩
      cases h
      rw [hrun]

end Script

namespace Fragment

theorem exists_bodies {tokens : List Token}
    (h : ∀ t ∈ tokens, ∃ body, parse (ofTokens [t]).code = .ok body) :
    ∃ bodies : List (List Stmt),
      tokens.map (fun t => parse (ofTokens [t]).code) = bodies.map .ok := by
  induction tokens with
  | nil => exact ⟨[], rfl⟩
  | cons t tokens ih =>
    rw [List.forall_mem_cons] at h
    obtain ⟨body, hbody⟩ := h.1
    obtain ⟨bodies, hbodies⟩ := ih h.2
    exact ⟨body :: bodies, by rw [List.map_cons, List.map_cons, hbody, hbodies]⟩

/-- **Rendering in two steps is rendering at once.**  Take two token lists whose pieces are scripts
    by themselves, no directive behind the first piece beginning with a word that runs on.  The
    first script declares no constants outside of its blocks and functions, the second one no
    functions, and outside of its blocks nothing but by `var`; and neither they nor the functions
    in the environment mention the output variable or give the name of the output function a value.
    If the first list is rendered on an environment, and then the second one on what this leaves,
    then both in a row can be rendered on the environment, with the steps that both took: they
    output the one text behind the other, and all variables end up the same but the output, which
    is all of it. -/
theorem runForOutput_append {maxDepth n n' steps : Nat} {tokens tokens' : List Token}
    {body body' : List Stmt} {env env₁ env₂ : Environment} {o o' : String}
    (hpieces : ∀ t ∈ tokens ++ tokens', ∃ b, parse (ofTokens [t]).code = .ok b)
    (hfresh : ∀ t ∈ (tokens ++ tokens').tail, StartsAfresh t)
    (hbody : parse (ofTokens tokens).code = .ok body)
    (hbody' : parse (ofTokens tokens').code = .ok body')
    (hconst : ∀ s ∈ body, s.declKind? ≠ some .constDecl)
    (hfunctions : Stmt.functionsList body' = [])
    (hkinds : ∀ s ∈ body', ∀ kind, s.declKind? = some kind → kind = .varDecl)
    (huses : ∀ u ∈ Stmt.usesWhole body ++ Stmt.usesWhole body', LeavesOutput u)
    (henv : env.Holds (Function.UsesOnly LeavesOutput))
    (h : runForOutput ⟨maxDepth, n⟩ (ofTokens tokens).code env = .done o env₁)
    (h' : runForOutput ⟨maxDepth, n'⟩ (ofTokens tokens').code env₁ = .done o' env₂)
    (hsteps : n + n' ≤ steps) :
    ∃ env', runForOutput ⟨maxDepth, steps⟩ (ofTokens (tokens ++ tokens')).code env
        = .done (o ++ o') env' ∧
      Dict.get? env' outputName = some (.text (o ++ o')) ∧
      ∀ name, name ≠ outputName → Dict.get? env' name = Dict.get? env₂ name := by
  obtain ⟨bodies, hbodies⟩ := exists_bodies fun t ht => hpieces t (List.mem_append_right _ ht)
  obtain ⟨rows, hboth⟩ := parse_append hbodies hfresh hbody hbody'
  obtain ⟨b, hb, hrun, rfl⟩ := runForOutput_done_iff.mp h
  obtain ⟨b', hb', hrun', rfl⟩ := runForOutput_done_iff.mp h'
  rw [hbody] at hb
  rw [hbody'] at hb'
  cases hb
  cases hb'
  obtain ⟨out, env', hout, hrunBoth, haside⟩ := runProgram_append (placedList_of_parse hbody) hconst
    hfunctions hkinds (fun u hu => huses u (List.mem_append_left _ hu))
    (fun u hu => huses u (List.mem_append_right _ hu)) henv hrun hrun' hsteps (Position.down rows)
  obtain ⟨more, hmore, hall⟩ := haside.outputs
  rw [String.empty_append] at hmore
  have hdisplay (text : String) : (Value.text text).display = text := rfl
  rw [hout, hmore, Option.map_some, Option.map_some, Option.getD_some, Option.getD_some, hdisplay,
    hdisplay]
  refine ⟨env', runForOutput_done_iff.mpr ⟨_, hboth, hrunBoth, ?_⟩, hall, haside.others⟩
  rw [hall, Option.map_some, Option.getD_some, hdisplay]

/-- The first script gives the output function another name, and the second one outputs by it. -/
theorem runForOutput_append_renamed :
    let t : Token := ⟨.block, "let f = append\nf(\"a\")", ⟨0, 0⟩⟩
    let t' : Token := ⟨.line, "f(\"b\")", ⟨4, 0⟩⟩
    let left (o : String) : Environment :=
      [(outputName, .text o), (Native.append.name, .native .append), ("f", .native .append)]
    StartsAfresh t' ∧
    runForOutput ⟨64, 50⟩ (ofTokens [t]).code [] = .done "a" (left "a") ∧
    runForOutput ⟨64, 50⟩ (ofTokens [t']).code (left "a") = .done "b" (left "b") ∧
    ∃ env', runForOutput ⟨64, 100⟩ (ofTokens ([t] ++ [t'])).code [] = .done ("a" ++ "b") env' ∧
      Dict.get? env' outputName = some (.text ("a" ++ "b")) ∧
      ∀ name, name ≠ outputName → Dict.get? env' name = Dict.get? (left "b") name := by
  intro t t' left
  have hlexemes : lexemes (ofTokens [t]).code = .ok
      [⟨.keyword .kwLet, ⟨0, 0⟩, false⟩, ⟨.name "f", ⟨0, 4⟩, false⟩,
       ⟨.symbol .assign, ⟨0, 6⟩, false⟩, ⟨.name "append", ⟨0, 8⟩, false⟩,
       ⟨.name "f", ⟨1, 0⟩, true⟩, ⟨.symbol .leftParen, ⟨1, 1⟩, false⟩,
       ⟨.text "a", ⟨1, 2⟩, false⟩, ⟨.symbol .rightParen, ⟨1, 5⟩, false⟩] := by
    decide +kernel
  have hlexemes' : lexemes (ofTokens [t']).code = .ok
      [⟨.name "f", ⟨0, 0⟩, false⟩, ⟨.symbol .leftParen, ⟨0, 1⟩, false⟩,
       ⟨.text "b", ⟨0, 2⟩, false⟩, ⟨.symbol .rightParen, ⟨0, 5⟩, false⟩] := by
    decide +kernel
  let body : List Stmt := [.declare .letDecl [⟨"f", ⟨0, 4⟩, some (.name ⟨0, 8⟩ "append")⟩],
    .expr (.call ⟨1, 0⟩ (.name ⟨1, 0⟩ "f") [.text ⟨1, 2⟩ "a"])]
  let body' : List Stmt := [.expr (.call ⟨0, 0⟩ (.name ⟨0, 0⟩ "f") [.text ⟨0, 2⟩ "b"])]
  have hbody : parse (ofTokens [t]).code = .ok body := by
    rw [parse, hlexemes]
    rfl
  have hbody' : parse (ofTokens [t']).code = .ok body' := by
    rw [parse, hlexemes']
    rfl
  have hpieces : ∀ u ∈ [t] ++ [t'], ∃ b, parse (ofTokens [u]).code = .ok b := by
    intro u hu
    rcases List.mem_append.mp hu with hu | hu
    · exact List.mem_singleton.mp hu ▸ ⟨body, hbody⟩
    · exact List.mem_singleton.mp hu ▸ ⟨body', hbody'⟩
  have hafresh : StartsAfresh t' := by
    intro _ w hw
    rw [firstWord?, hlexemes'] at hw
    cases hw
    rfl
  have hrun : runForOutput ⟨64, 50⟩ (ofTokens [t]).code [] = .done "a" (left "a") := by
    rw [runForOutput, execute, hbody]
    rfl
  have hrun' : runForOutput ⟨64, 50⟩ (ofTokens [t']).code (left "a") = .done "b" (left "b") := by
    rw [runForOutput, execute, hbody']
    rfl
  refine ⟨hafresh, hrun, hrun', ?_⟩
  exact runForOutput_append hpieces (fun u hu => List.mem_singleton.mp hu ▸ hafresh) hbody hbody'
    (by decide) rfl (by decide) (by decide) (fun f hf => by cases hf) hrun hrun' (by decide)

end Fragment

end Stencil
