/-
  Scripts one after the other.

  Two scripts are run for output, the second one on the environment that the first one leaves.
  Running the statements of both at once is the same, if the first script binds no constants in the
  environment and the second one declares nothing there but by `var`.  The first half runs as by
  itself.  What the second half finds besides the variables (names bound before, another number of
  the run, more output) it cannot tell (`runProgram_append`).
-/
import Stencil.Proofs.Script.Run.Aside
import Stencil.Proofs.Script.Run.Elsewhere
import Stencil.Proofs.Script.Run.Jumps
import Stencil.Proofs.Script.Run.Output
import Stencil.Proofs.Script.Run.Untouched

namespace Stencil.Script

open Effect

/-! ## Names bound in the environment -/

section

variable {F : Function → Prop} {U : NameUse × String → Prop} {D : String → Prop}
  {m m' : Machine}

theorem Machine.lexical_setVariable (m : Machine) (name : String) (v : Value) :
    (m.setVariable name v).lexical = m.lexical := by
  unfold setVariable
  split <;> rfl

theorem Slot.lexical_write {s : Slot} {v : Value} (h : s.write v m = .ok m') :
    m'.lexical = m.lexical := by
  rcases Slot.write_cases h with hassign | ⟨v, v', -, -, rfl⟩
  · rcases Machine.assign_cases hassign with ⟨i, s, b, -, -, -, rfl⟩ | ⟨-, rfl⟩ <;> rfl
  · exact m.lexical_setVariable _ _

theorem Slot.lexical_modify {α : Type} {s : Slot} {change : Value → Except Fault (Value × α)}
    {r : α} (h : s.modify change m = .ok (m', r)) : m'.lexical = m.lexical := by
  obtain ⟨v, v', -, -, rfl⟩ := Slot.modify_cases h
  exact m.lexical_setVariable _ _

/-- What runs in blocks and calls binds no names in the environment by `let` or `const`. -/
theorem Moves.lexical (h : Moves F U D m m') (hscopes : m.scopes ≠ []) :
    m'.lexical = m.lexical := by
  induction h with
  | stay => rfl
  | @andThen U D m m' m'' hmoves _ ih ih' =>
    have hlength : m'.scopes.length = m.scopes.length :=
      (Machine.grows_of_moves (D := D) hmoves).length
    have hscopes' : m'.scopes ≠ [] := by
      rwa [← List.length_pos_iff, hlength, List.length_pos_iff]
    exact (ih' hscopes').trans (ih hscopes)
  | write _ hwrite => exact Slot.lexical_write hwrite
  | mutate _ _ _ hmodify => exact Slot.lexical_modify hmodify
  | output => rfl
  | declare _ _ hdeclare =>
    rcases Machine.declare_cases hdeclare with ⟨-, ⟨i, s, -, -, rfl⟩ | ⟨-, rfl⟩⟩ |
      ⟨-, ⟨s, -, -, rfl⟩ | ⟨hnil, -, -⟩⟩
    · rfl
    · rfl
    · rfl
    · exact absurd hnil hscopes
  | @block _ _ m _ body _ _ ih =>
    rw [Machine.hoist_of_cons (m := m.enter .block) body rfl] at ih
    exact ih (List.cons_ne_nil _ _)
  | @call _ _ m _ run f args _ _ _ ih =>
    rw [Machine.hoist_of_cons (m := m.beginCall run (Scope.ofCall run f args)) f.body rfl] at ih
    exact ih (List.cons_ne_nil _ _)

/-- Names bound by `let` are no constants. -/
theorem Moves.variable (h : Moves F U D m m')
    (hconst : ∀ name, D name → ¬ U (.declare .constDecl, name)) (hm : Variable m.lexical) :
    Variable m'.lexical := by
  induction h with
  | stay => exact hm
  | andThen _ _ ih ih' => exact ih' hconst (ih hconst hm)
  | write _ hwrite => exact Slot.lexical_write hwrite ▸ hm
  | mutate _ _ _ hmodify => exact Slot.lexical_modify hmodify ▸ hm
  | output => exact hm
  | @declare _ _ m _ kind name _ huse hbound hdeclare =>
    rcases Machine.declare_cases hdeclare with ⟨-, ⟨i, s, -, -, rfl⟩ | ⟨-, rfl⟩⟩ |
      ⟨hkind, ⟨s, -, -, rfl⟩ | ⟨-, -, rfl⟩⟩
    · exact hm
    · exact hm
    · exact hm
    · have hlet : (kind == .constDecl) = false := by
        cases kind with
        | constDecl => exact absurd huse (hconst name (hbound hkind))
        | varDecl | letDecl => rfl
      intro other
      rw [Dict.get?_insert, hlet]
      split
      · exact fun heq => Bool.false_ne_true (Option.some.inj heq)
      · exact hm other
  | @block _ _ m _ body _ hmoves _ =>
    have := hmoves.lexical
    rw [Machine.hoist_of_cons (m := m.enter .block) body rfl] at this
    rw [Machine.leave, this (List.cons_ne_nil _ _)]
    exact hm
  | @call _ _ m _ run f args _ _ hmoves _ =>
    have := hmoves.lexical
    rw [Machine.hoist_of_cons (m := m.beginCall run (Scope.ofCall run f args)) f.body rfl] at this
    rw [Machine.endCall, this (List.cons_ne_nil _ _)]
    exact hm

/-- Statements that declare no constants directly bind none in the environment. -/
theorem execAll_variable {maxDepth steps : Nat} {body : List Stmt} {flow : Flow}
    (hconst : ∀ s ∈ body, s.declKind? ≠ some .constDecl) (hm : Variable m.lexical)
    (h : execAll maxDepth steps body m = .done flow m') : Variable m'.lexical := by
  induction body generalizing steps m with
  | nil =>
    cases steps with
    | zero => cases h
    | succ steps =>
      cases h
      exact hm
  | cons s rest ih =>
    cases steps with
    | zero => cases h
    | succ steps =>
      rw [List.forall_mem_cons] at hconst
      rw [execAll] at h
      obtain ⟨flow', n, hs, hrest⟩ := bind_done_iff.mp h
      have hmoves : Moves (fun _ => True) (· ∈ s.uses) (· ∈ s.bound) m n :=
        Machine.moves_of_exec (by rw [hs]; rfl)
      have hn := hmoves.variable (fun name => Stmt.not_mem_uses_of_bound hconst.1) hm
      cases flow' with
      | next => exact ih hconst.2 hn hrest
      | ret v | breakLoop | continueLoop =>
        cases hrest
        exact hn

end

/-! ## What a script leaves behind -/

/-- The output variable is not mentioned, and the name of the output function is given no value. -/
def LeavesOutput (u : NameUse × String) : Prop :=
  u.2 ≠ outputName ∧ (u.1.writes = true → u.2 ≠ Native.append.name)

instance : DecidablePred LeavesOutput := fun _ => inferInstanceAs (Decidable (_ ∧ _))

section

variable {maxDepth steps : Nat} {body : List Stmt} {env env' : Environment} {m m' : Machine}

theorem execProgram_done_iff : execProgram maxDepth steps body m = .done () m' ↔
    ∃ flow, execAll maxDepth steps body (m.hoist body) = .done flow m' := by
  rw [execProgram, modify_bind, bind_done_iff]
  constructor
  · rintro ⟨flow, n, hrun, hend⟩
    cases hend
    exact ⟨flow, hrun⟩
  · rintro ⟨flow, hrun⟩
    exact ⟨flow, m', hrun, rfl⟩

theorem runProgram_done_iff : runProgram ⟨maxDepth, steps⟩ body env = .done () env' ↔
    ∃ m, execProgram maxDepth steps body (.start env.freshRun env) = .done () m ∧
      m.env = env' := by
  rw [runProgram]
  dsimp only
  cases execProgram maxDepth steps body (.start env.freshRun env) with
  | done u m =>
    constructor
    · intro h
      cases h
      exact ⟨m, rfl, rfl⟩
    · rintro ⟨m', h, rfl⟩
      cases h
      rfl
  | failed e m =>
    constructor
    · intro h
      cases h
    · rintro ⟨m', h, -⟩
      cases h
  | exhausted =>
    constructor
    · intro h
      cases h
    · rintro ⟨m', h, -⟩
      cases h

/-- Outside of all blocks and calls, where a script starts, it also ends. -/
theorem execAll_outside {flow : Flow} (h : execAll maxDepth steps body m = .done flow m')
    (hscopes : m.scopes = []) : m'.scopes = [] ∧ m'.depth = m.depth := by
  have hgrows := Machine.grows_of_moves (D := fun _ => True)
    (Machine.moves_of_execAll (by rw [h]; rfl))
  refine ⟨?_, hgrows.depth⟩
  rw [← List.length_eq_zero_iff, hgrows.length, hscopes]
  rfl

section

variable (huses : ∀ u ∈ Stmt.usesWhole body, LeavesOutput u)
  (henv : env.Holds (Function.UsesOnly LeavesOutput))
  (h : runProgram ⟨maxDepth, steps⟩ body env = .done () env')

include huses henv h

/-- The output stays a text. -/
theorem runProgram_output {o : String} (hout : Dict.get? env outputName = some (.text o)) :
    ∃ o', Dict.get? env' outputName = some (.text o') := by
  -- the run is beside itself
  have hsame : env.Aside o o env := ⟨fun _ _ => rfl, "", by simpa using hout, by simpa using hout⟩
  have haside := runProgram_aside ⟨maxDepth, steps⟩ (fun u hu => (huses u hu).1) hsame rfl
    fun f hf u hu => (henv f hf u hu).1
  rw [h] at haside
  cases haside with
  | done haside =>
    obtain ⟨more, hmore, -⟩ := haside.outputs
    exact ⟨_, hmore⟩

/-- The output function stays in place. -/
theorem runProgram_append_kept :
    Dict.get? env' Native.append.name = Dict.get? env Native.append.name := by
  let W (name : String) : Prop := name ≠ Native.append.name
  have hwrites : ∀ u ∈ Stmt.usesWhole body, WritesIn W u := fun u hu => (huses u hu).2
  have hmoves := runProgram_moves (closed_usesOnly (WritesIn W)) ⟨maxDepth, steps⟩
    (Stmt.overList_usesOnly hwrites) fun f hf u hu => (henv f hf u hu).2
  rw [h] at hmoves
  obtain ⟨m, -, rfl, hmoves⟩ := hmoves
  have hdeclared : env.Touched W (env.withFunctions env.freshRun (declaredFunctions body)) :=
    Environment.touched_withFunctions _ fun f hf =>
      hwrites _ (Stmt.usesList_subset_usesWhole body (mem_usesList_of_declared hf)) rfl
  have hrun := Machine.touched_of_moves hmoves outputName_ne fun u hu =>
    hwrites u (Stmt.usesList_subset_usesWhole body hu)
  rw [Machine.hoist_of_nil body rfl] at hrun
  exact (hdeclared.trans hrun).untouched _ fun hne => hne rfl

/-- The functions in the environment leave the output alone as before. -/
theorem runProgram_leavesOutput : env'.Holds (Function.UsesOnly LeavesOutput) := by
  have hkeeps := runProgram_keeps (closed_usesOnly LeavesOutput) ⟨maxDepth, steps⟩
    (Stmt.overList_usesOnly huses) henv
  rwa [h] at hkeeps

end

end

/-! ## Both scripts at once -/

/-- Where the output function is in place, a new run for output starts with less output. -/
theorem Environment.aside_prepare {env : Environment} {o : String}
    (hout : Dict.get? env outputName = some (.text o))
    (happend : Dict.get? env Native.append.name = some (.native .append)) :
    (prepare env).Aside "" o env where
  others name hname := by
    rw [prepare_eq]
    by_cases hother : name = Native.append.name
    · rw [hother, get?_withOutput_append, happend]
    · rw [get?_withOutput_of_ne _ _ hname hother]
  outputs := ⟨"", by rw [prepare_eq, get?_withOutput_output, String.append_empty],
    by rw [hout, String.append_empty]⟩

section

variable {maxDepth n n' steps : Nat} {body body' : List Stmt} {f : Position → Position}
  {env env₁ env₂ : Environment}

/-- A script without functions that starts behind another one does what it does by itself, with
    what the other one has output in front. -/
theorem execAll_behind (hfunctions : Stmt.functionsList body' = [])
    (hkinds : ∀ s ∈ body', ∀ kind, s.declKind? = some kind → kind = .varDecl)
    (huses : ∀ u ∈ Stmt.usesWhole body', u.2 ≠ outputName) {m₁ : Machine}
    (hscopes : m₁.scopes = []) (hdepth : m₁.depth = 0) (hvar : Variable m₁.lexical)
    (hholds : env₁.Holds (Function.Avoids outputName)) {o : String}
    (haside : env₁.Aside "" o m₁.env)
    (h : runProgram ⟨maxDepth, n'⟩ body' env₁ = .done () env₂) :
    ∃ flow m₂, execAll maxDepth n' (Stmt.mapPosList f body') m₁ = .done flow m₂ ∧
      env₂.Aside "" o m₂.env := by
  obtain ⟨m₂, hrun, rfl⟩ := runProgram_done_iff.mp h
  have hnone (m : Machine) : m.hoist body' = m := m.hoist_of_functionsList hfunctions
  -- first with more output, then where the other script ended
  have hstart : Machine.Aside "" o ((Machine.start env₁.freshRun env₁).hoist body')
      ((Machine.start env₁.freshRun m₁.env).hoist body') := by
    rw [hnone, hnone]
    exact .env haside
  have halike := (asideLockstep "" o maxDepth).execProgram_alike (closed_usesOnly _) n'
    (Stmt.overList_usesOnly huses) (fun u hu => huses u (Stmt.usesList_subset_usesWhole body' hu))
    (hholds.start _) hstart
  rw [hrun] at halike
  generalize hrun' : execProgram maxDepth n' body' (.start env₁.freshRun m₁.env) = out at halike
  cases halike with
  | @done _ _ m₃ hrel =>
    obtain ⟨flow, hexec⟩ := execProgram_done_iff.mp hrun'
    rw [hnone] at hexec
    have hbeside : (Machine.start env₁.freshRun m₁.env).Beside .script [] m₁ := by
      obtain ⟨env, lexical, scopes, depth, run⟩ := m₁
      cases hscopes
      cases hdepth
      exact .mk (fun name h => by cases h) hvar rfl fun h => by cases h
    have hstands : (Task.execAll body').StandsIn .script := by
      refine ⟨fun _ => hfunctions, fun _ kind hkind => ?_⟩
      obtain ⟨s, hs, heq⟩ := List.mem_filterMap.mp hkind
      exact hkinds s hs kind heq
    obtain ⟨m₄, hexec', hbeside'⟩ := Task.run_elsewhere maxDepth n' (f := f) (fun h => by cases h)
      (.execAll body') hstands (fun h => absurd rfl h) hbeside hexec
    refine ⟨flow, m₄, hexec', ?_⟩
    cases hbeside'
    cases hrel with
    | env haside' => exact haside'

/-- **Two runs as one.**  Let a script run for output, and another one on the environment that it
    leaves.  If the first one binds no constants in the environment, and the second one declares no
    functions and nothing in the environment but by `var`, and neither they nor the functions in
    the environment meddle with the output, then their statements in one run do what the second
    script did, with the output of the first one in front, wherever they stand. -/
theorem runProgram_append (hplaced : Stmt.PlacedList false false body)
    (hconst : ∀ s ∈ body, s.declKind? ≠ some .constDecl)
    (hfunctions : Stmt.functionsList body' = [])
    (hkinds : ∀ s ∈ body', ∀ kind, s.declKind? = some kind → kind = .varDecl)
    (huses : ∀ u ∈ Stmt.usesWhole body, LeavesOutput u)
    (huses' : ∀ u ∈ Stmt.usesWhole body', LeavesOutput u)
    (henv : env.Holds (Function.UsesOnly LeavesOutput))
    (h : runProgram ⟨maxDepth, n⟩ body (prepare env) = .done () env₁)
    (h' : runProgram ⟨maxDepth, n'⟩ body' (prepare env₁) = .done () env₂)
    (hsteps : n + n' ≤ steps) (f : Position → Position) :
    ∃ o env', Dict.get? env₁ outputName = some (.text o) ∧
      runProgram ⟨maxDepth, steps⟩ (body ++ Stmt.mapPosList f body') (prepare env) = .done () env' ∧
      env₂.Aside "" o env' := by
  have hstarted := holds_prepare henv
  obtain ⟨o, hout⟩ := runProgram_output huses hstarted h (env.get?_withOutput_output "")
  have happend := runProgram_append_kept huses hstarted h
  have hholds := runProgram_leavesOutput huses hstarted h
  rw [prepare_eq, Environment.get?_withOutput_append] at happend
  obtain ⟨m₁, hrun, rfl⟩ := runProgram_done_iff.mp h
  obtain ⟨flow, hexec⟩ := execProgram_done_iff.mp hrun
  obtain rfl := execAll_script hplaced hexec
  have hstart := Machine.hoist_of_nil (m := .start (prepare env).freshRun (prepare env)) body rfl
  obtain ⟨hscopes, hdepth⟩ := execAll_outside hexec (by rw [hstart]; rfl)
  have hvar : Variable m₁.lexical :=
    execAll_variable hconst (by rw [hstart]; exact fun name h => by cases h) hexec
  have hholds' : (prepare m₁.env).Holds (Function.Avoids outputName) :=
    holds_prepare fun g hg u hu => (hholds g hg u hu).1
  obtain ⟨flow', m₂, hexec', haside⟩ := execAll_behind (f := f) hfunctions hkinds
    (fun u hu => (huses' u hu).1) hscopes (by rw [hdepth, hstart]; rfl) hvar hholds'
    (Environment.aside_prepare hout happend) h'
  refine ⟨o, m₂.env, hout, runProgram_done_iff.mpr ⟨m₂, execProgram_done_iff.mpr ⟨flow', ?_⟩, rfl⟩,
    haside⟩
  have hdeclared : declaredFunctions (body ++ Stmt.mapPosList f body')
      = declaredFunctions body := by
    have hnone := declaredFunctions_mapPosList f hfunctions
    rw [declaredFunctions] at hnone ⊢
    rw [List.filterMap_append, hnone, List.append_nil, declaredFunctions]
  have hall := execAll_append hexec hexec'
  rw [Machine.hoist, hdeclared]
  exact Task.run_more hsteps (.execAll (body ++ Stmt.mapPosList f body')) hall

end

end Stencil.Script
