/-
  What scripts leave behind for one another.

  Scripts that run one after the other in one environment find the functions that those before them
  declared.  A run gets a number that no function there has (`lt_freshRun`), so at all times there
  is one script for each number from which the functions with the number come (`Reached.sourced`).
  The number and the position of a function therefore say which declaration made it, and strict
  equality compares the content of arrays and objects accordingly, except that it cannot tell the
  runs of functions in them (`Reached.strictEquals_content`).
-/
import Mathlib
import Stencil.Proofs.Script.Grammar.Functions
import Stencil.Proofs.Script.Run.Sound
import Stencil.Proofs.Script.Value.Content

namespace Stencil.Script

open Value (Akin Hereditary lastRunItems lastRunMembers originsItems originsMembers)

/-! ## Numbers of runs -/

namespace Value

mutual

theorem run_le_lastRun {p : Nat × Function} : ∀ {v : Value}, p ∈ v.origins → p.1 ≤ v.lastRun
  | function _ _, h => by
    cases List.mem_singleton.mp h
    exact Nat.le_refl _
  | array _, h => run_le_lastRunItems h
  | object _, h => run_le_lastRunMembers h

theorem run_le_lastRunItems {p : Nat × Function} :
    ∀ {items : List Value}, p ∈ originsItems items → p.1 ≤ lastRunItems items
  | v :: rest, h => by
    rcases List.mem_append.mp h with h | h
    · exact (run_le_lastRun h).trans (le_max_left _ _)
    · exact (run_le_lastRunItems h).trans (le_max_right _ _)

theorem run_le_lastRunMembers {p : Nat × Function} :
    ∀ {members : List (String × Value)}, p ∈ originsMembers members →
      p.1 ≤ lastRunMembers members
  | (_, v) :: rest, h => by
    rcases List.mem_append.mp h with h | h
    · exact (run_le_lastRun h).trans (le_max_left _ _)
    · exact (run_le_lastRunMembers h).trans (le_max_right _ _)

end

end Value

/-- No function in the environment has the number of the next run. -/
theorem Environment.lt_freshRun {env : Environment} {p : Nat × Function}
    (h : p ∈ originsMembers env) : p.1 < env.freshRun :=
  Nat.lt_succ_of_le (Value.run_le_lastRunMembers h)

/-! ## Functions and their scripts -/

/-- The function stands in the code that has the number. -/
def StandsIn (codes : Nat → List Stmt) (number : Nat) (f : Function) : Prop :=
  f ∈ Stmt.functionsList (codes number)

/-- Every number has the code of a script. -/
def Sources (codes : Nat → List Stmt) : Prop :=
  ∀ number, ∃ script, parse script = .ok (codes number)

section

variable {codes : Nat → List Stmt}

theorem nested_standsIn : Nested (StandsIn codes) :=
  fun _ _ hf _ hg => Stmt.functionsList_of_mem_functions hg hf

/-- In scripts, a function is known by its run and its position. -/
theorem Sources.distinct (h : Sources codes) : Value.Distinct (StandsIn codes) where
  unique {run f g} hf hg hpos := by
    obtain ⟨script, hparse⟩ := h run
    exact parse_function_unique hparse hf hg hpos
  same {run f} hf := by
    obtain ⟨script, hparse⟩ := h run
    exact parse_function_same hparse hf

theorem Sources.update (h : Sources codes) (number : Nat) {script : String} {body : List Stmt}
    (hparse : parse script = .ok body) : Sources (Function.update codes number body) := by
  intro n
  by_cases hn : n = number
  · subst hn
    exact ⟨script, by rw [Function.update_self, hparse]⟩
  · obtain ⟨other, hother⟩ := h n
    exact ⟨other, by rw [Function.update_of_ne hn, hother]⟩

end

/-! ## The functions on an environment -/

/-- Every function in the values of a state, with the number of its run. -/
def Machine.origins (m : Machine) : List (Nat × Function) :=
  originsMembers m.env ++ m.scopes.flatMap fun s => s.names.flatMap fun p => p.2.value.origins

theorem Machine.Rooted.origins {C : Nat → Function → Prop} {number : Nat} {m : Machine}
    (hm : m.Rooted C number) : ∀ p ∈ m.origins, C p.1 p.2 := by
  rw [Machine.origins, List.forall_mem_append]
  refine ⟨Value.forall_originsMembers.mpr hm.values.env, fun p hp => ?_⟩
  obtain ⟨s, hs, hp⟩ := List.mem_flatMap.mp hp
  obtain ⟨b, hb, hp⟩ := List.mem_flatMap.mp hp
  exact hm.values.scopes s hs b hb p hp

namespace Environment

/-- What an environment can come to hold: at first it has no functions of scripts, scripts run in it
    to their ends or until they fail, and between two runs its variables may be changed, to anything
    with no other functions in it than those that were there. -/
inductive Reached : Environment → Prop where
  | start {env : Environment} (h : originsMembers env = []) : Reached env
  | done {limits : Limits} {script : String} {env env' : Environment} (h : Reached env)
      (hrun : execute limits script env = .done () env') : Reached env'
  | failed {limits : Limits} {script : String} {env env' : Environment} {e : ScriptError}
      (h : Reached env) (hrun : execute limits script env = .failed e env') : Reached env'
  | change {env env' : Environment} (h : Reached env)
      (hsub : originsMembers env' ⊆ originsMembers env) : Reached env'

/-- The preparations for output bring no function of a script into the environment. -/
theorem originsMembers_prepare (env : Environment) :
    originsMembers (prepare env) ⊆ originsMembers env := by
  have hkept : env.All (Value.Rooted fun number f => (number, f) ∈ originsMembers env) :=
    Value.forall_originsMembers.mp fun _ hp => hp
  exact fun p hp => Value.forall_originsMembers.mpr
    (Dict.forall_insert (Dict.forall_insert hkept _ (Hereditary.text _)) _ (Hereditary.native _))
    p hp

/-- What scripts are run for output, those of templates among them, belongs to the history. -/
theorem Reached.runForOutput {env : Environment} (h : Reached env) (limits : Limits)
    (script : String) : (runForOutput limits script env).Keeps Reached fun _ => True := by
  have hprepare : (prepare env).Reached := .change h (originsMembers_prepare env)
  unfold Script.runForOutput
  cases hrun : execute limits script (prepare env) with
  | done u env' => exact Reached.done hprepare hrun
  | failed e env' => exact ⟨trivial, .failed hprepare hrun⟩
  | unfinished => trivial

/-- The function is there when the script runs in the environment: at first, or in the state in
    which some expression, statement or call of the run begins. -/
def Meets (limits : Limits) (script : String) (env : Environment) (p : Nat × Function) : Prop :=
  p ∈ originsMembers env ∨ ∃ body, parse script = .ok body ∧
    ∃ (α : Type) (t : Task α) (active left : Nat) (m : Machine),
      (Task.execAll body).Comes limits.maxDepth limits.steps
        ((Machine.start env.freshRun env).hoist body) active left t m ∧ p ∈ m.origins

/-- The functions in the environment stand in the scripts of their runs. -/
structure Sourced (codes : Nat → List Stmt) (env : Environment) : Prop where
  sources : Sources codes
  values : env.All (Value.Rooted (StandsIn codes))

variable {codes : Nat → List Stmt} {env : Environment} {script : String} {body : List Stmt}

/-- The script of the next run takes up a number of its own. -/
theorem Sourced.update (h : Sourced codes env) (hparse : parse script = .ok body) :
    Sourced (Function.update codes env.freshRun body) env := by
  refine ⟨h.sources.update _ hparse, Value.forall_originsMembers.mp fun p hp => ?_⟩
  -- the functions that are there have smaller numbers, and their scripts stay
  rw [StandsIn, Function.update_of_ne (lt_freshRun hp).ne]
  exact Value.forall_originsMembers.mpr h.values p hp

theorem Sourced.start (h : Sourced codes env) (number : Nat) :
    (Machine.start number env).Rooted (StandsIn codes) number :=
  ⟨⟨h.values, fun _ hs => by cases hs⟩, rfl⟩

theorem standsIn_update (codes : Nat → List Stmt) (number : Nat) (body : List Stmt) :
    ∀ f ∈ Stmt.functionsList body, StandsIn (Function.update codes number body) number f := by
  intro f hf
  rwa [StandsIn, Function.update_self]

/-- However a run ends, the functions that it leaves behind stand in the scripts of their runs. -/
theorem Sourced.runProgram (h : Sourced codes env) (limits : Limits)
    (hparse : parse script = .ok body) : (runProgram limits body env).Keeps
      (Sourced (Function.update codes env.freshRun body)) fun _ => True := by
  have hupdate := h.update hparse
  have hrun := execProgram_rooted nested_standsIn limits.maxDepth limits.steps
    (standsIn_update codes env.freshRun body) _ (hupdate.start env.freshRun)
  unfold Script.runProgram
  cases hend : execProgram limits.maxDepth limits.steps body (.start env.freshRun env) with
  | done u m =>
    rw [hend] at hrun
    exact ⟨hupdate.sources, hrun.2.values.env⟩
  | failed e m =>
    rw [hend] at hrun
    exact ⟨trivial, hupdate.sources, hrun.2.values.env⟩
  | exhausted => trivial

theorem Sourced.execute (h : Sourced codes env) (limits : Limits) (script : String) :
    (execute limits script env).Keeps (fun env' => ∃ codes', Sourced codes' env')
      fun _ => True := by
  unfold Script.execute
  cases hparse : parse script with
  | error e => exact ⟨trivial, codes, h⟩
  | ok body => exact (h.runProgram limits hparse).mono (fun _ h => ⟨_, h⟩) fun _ h => h

/-- **In any history the functions in the environment stand in the scripts of their runs**, one
    script for each number. -/
theorem Reached.sourced (h : Reached env) : ∃ codes, Sourced codes env := by
  induction h with
  | start hnone =>
    have hempty : parse "" = .ok [] := by
      have hlexemes : lexemes "" = .ok [] := by decide +kernel
      rw [parse, hlexemes]
      rfl
    refine ⟨fun _ => [], fun _ => ⟨"", hempty⟩, Value.forall_originsMembers.mp ?_⟩
    rw [hnone]
    exact fun _ hp => by cases hp
  -- the invariant comes with the scripts so far; a run adds its own
  | @done limits script _ _ _ hrun ih =>
    obtain ⟨codes, hcodes⟩ := ih
    have hend := hcodes.execute limits script
    rw [hrun] at hend
    exact hend
  | @failed limits script _ _ _ _ hrun ih =>
    obtain ⟨codes, hcodes⟩ := ih
    have hend := hcodes.execute limits script
    rw [hrun] at hend
    exact hend.2
  | change _ hsub ih =>
    obtain ⟨codes, hcodes⟩ := ih
    refine ⟨codes, hcodes.sources, Value.forall_originsMembers.mp fun p hp => ?_⟩
    exact Value.forall_originsMembers.mpr hcodes.values p (hsub hp)

/-- The same holds for all functions that are there while the next script runs. -/
theorem Reached.meets (h : Reached env) (limits : Limits) (script : String) :
    ∃ codes, Sources codes ∧ ∀ p, env.Meets limits script p → StandsIn codes p.1 p.2 := by
  obtain ⟨codes, hcodes⟩ := h.sourced
  cases hparse : parse script with
  | error e =>
    -- nothing runs, so only what is there from the start can be met
    refine ⟨codes, hcodes.sources, fun p hp => ?_⟩
    rcases hp with hp | ⟨body, hbody, -⟩
    · exact Value.forall_originsMembers.mpr hcodes.values p hp
    · cases hparse.symm.trans hbody
  | ok body =>
    have hupdate := hcodes.update hparse
    refine ⟨_, hupdate.sources, fun p hp => ?_⟩
    rcases hp with hp | ⟨body', hbody, α, t, active, left, m, hcomes, hp⟩
    · exact Value.forall_originsMembers.mpr hupdate.values p hp
    · cases hparse.symm.trans hbody
      have hin := standsIn_update codes env.freshRun body
      obtain ⟨number, hm, -⟩ :=
        hcomes.given nested_standsIn hin ((hupdate.start env.freshRun).hoist hin)
      exact hm.origins p hp

/-! ## Equality -/

/-- **Strict equality of content.**  Whatever scripts have run in the environment, two arrays that
    come up there are strictly equal exactly when they have as many items and these are strictly
    equal in pairs, and two objects exactly when they have the same keys and their members are
    strictly equal in pairs, except that functions of two runs with the same declaration count as
    equal in both, though they are not strictly equal. -/
theorem Reached.strictEquals_content (h : Reached env) (limits : Limits) (script : String) :
    (∀ vs ws : List Value,
      (∀ p ∈ originsItems vs ++ originsItems ws, env.Meets limits script p) →
      ((Value.array vs).strictEquals (.array ws) = true ↔ List.Forall₂ Akin vs ws)) ∧
    ∀ xs ys : List (String × Value),
      (∀ p ∈ originsMembers xs ++ originsMembers ys, env.Meets limits script p) →
      ((Value.object xs).strictEquals (.object ys) = true ↔ xs.map Prod.fst = ys.map Prod.fst ∧
        List.Forall₂ Akin (xs.map Prod.snd) (ys.map Prod.snd)) := by
  obtain ⟨codes, hcodes, hmeets⟩ := h.meets limits script
  constructor
  · intro vs ws hp
    rw [List.forall_mem_append] at hp
    exact hcodes.distinct.array_iff (fun p h => hmeets p (hp.1 p h)) fun p h => hmeets p (hp.2 p h)
  · intro xs ys hp
    rw [List.forall_mem_append] at hp
    exact hcodes.distinct.object_iff (fun p h => hmeets p (hp.1 p h)) fun p h =>
      hmeets p (hp.2 p h)

/-- A script that declares a function and gives it a second name. -/
theorem parse_twoNames : parse "function f() \x7b\x7d g = f;" = .ok [.function ⟨0, 0⟩ "f" [] [],
    .expr (.assign ⟨0, 16⟩ none (.name ⟨0, 16⟩ "g") (.name ⟨0, 20⟩ "f"))] := by
  have hlexemes : lexemes "function f() \x7b\x7d g = f;" = .ok
      [⟨.keyword .kwFunction, ⟨0, 0⟩, false⟩, ⟨.name "f", ⟨0, 9⟩, false⟩,
       ⟨.symbol .leftParen, ⟨0, 10⟩, false⟩, ⟨.symbol .rightParen, ⟨0, 11⟩, false⟩,
       ⟨.symbol .leftBrace, ⟨0, 13⟩, false⟩, ⟨.symbol .rightBrace, ⟨0, 14⟩, false⟩,
       ⟨.name "g", ⟨0, 16⟩, false⟩, ⟨.symbol .assign, ⟨0, 18⟩, false⟩,
       ⟨.name "f", ⟨0, 20⟩, false⟩, ⟨.symbol .semicolon, ⟨0, 21⟩, false⟩] := by decide +kernel
  rw [parse, hlexemes]
  rfl

/-- A text that is executed twice is read anew, and the function that it declares is another one. -/
theorem strictEquals_content_twice :
    let script := "function f() \x7b\x7d g = f;"
    let f : Function := ⟨⟨0, 0⟩, "f", [], []⟩
    let env : Environment := [("f", .function 1 f), ("g", .function 1 f)]
    execute ⟨64, 100⟩ script [] = .done () env ∧ env.Reached ∧
    (1, f) ∈ originsMembers env ∧ env.Meets ⟨64, 100⟩ script (2, f) ∧
    (Value.function 1 f).strictEquals (.function 2 f) = false ∧
    List.Forall₂ Akin [.function 1 f] [.function 2 f] := by
  intro script f env
  have hrun : execute ⟨64, 100⟩ script [] = .done () env := by
    rw [execute, parse_twoNames]
    rfl
  have hreached : env.Reached := .done (.start rfl) hrun
  have hmeets : env.Meets ⟨64, 100⟩ script (2, f) :=
    Or.inr ⟨_, parse_twoNames, _, _, _, _, _, .here _ _ _, List.mem_cons_self⟩
  have hmem : (1, f) ∈ originsMembers env := List.mem_cons_self
  refine ⟨hrun, hreached, hmem, hmeets, rfl,
    ((hreached.strictEquals_content ⟨64, 100⟩ script).1 _ _ fun p hp => ?_).mp rfl⟩
  rcases List.mem_cons.mp hp with rfl | hp
  · exact Or.inl hmem
  · exact List.mem_singleton.mp hp ▸ hmeets

/-- Two arrays of one function each are strictly equal, and the functions are not. -/
theorem strictEquals_of_twins :
    let first := "function f() \x7b\x7d g = f;"
    let second := "function f() \x7b\x7d q = f === g; r = [f] === [g];"
    let f : Function := ⟨⟨0, 0⟩, "f", [], []⟩
    let env : Environment := [("f", .function 1 f), ("g", .function 1 f)]
    let env' : Environment :=
      [("f", .function 2 f), ("g", .function 1 f), ("q", .bool false), ("r", .bool true)]
    execute ⟨64, 100⟩ first [] = .done () env ∧ execute ⟨64, 100⟩ second env = .done () env' ∧
    env'.Reached ∧ (Value.function 2 f).strictEquals (.function 1 f) = false ∧
    (Value.array [.function 2 f]).strictEquals (.array [.function 1 f]) = true := by
  intro first second f env env'
  have hlexemes : lexemes second = .ok
      [⟨.keyword .kwFunction, ⟨0, 0⟩, false⟩, ⟨.name "f", ⟨0, 9⟩, false⟩,
       ⟨.symbol .leftParen, ⟨0, 10⟩, false⟩, ⟨.symbol .rightParen, ⟨0, 11⟩, false⟩,
       ⟨.symbol .leftBrace, ⟨0, 13⟩, false⟩, ⟨.symbol .rightBrace, ⟨0, 14⟩, false⟩,
       ⟨.name "q", ⟨0, 16⟩, false⟩, ⟨.symbol .assign, ⟨0, 18⟩, false⟩,
       ⟨.name "f", ⟨0, 20⟩, false⟩, ⟨.symbol .strictEqual, ⟨0, 22⟩, false⟩,
       ⟨.name "g", ⟨0, 26⟩, false⟩, ⟨.symbol .semicolon, ⟨0, 27⟩, false⟩,
       ⟨.name "r", ⟨0, 29⟩, false⟩, ⟨.symbol .assign, ⟨0, 31⟩, false⟩,
       ⟨.symbol .leftBracket, ⟨0, 33⟩, false⟩, ⟨.name "f", ⟨0, 34⟩, false⟩,
       ⟨.symbol .rightBracket, ⟨0, 35⟩, false⟩, ⟨.symbol .strictEqual, ⟨0, 37⟩, false⟩,
       ⟨.symbol .leftBracket, ⟨0, 41⟩, false⟩, ⟨.name "g", ⟨0, 42⟩, false⟩,
       ⟨.symbol .rightBracket, ⟨0, 43⟩, false⟩, ⟨.symbol .semicolon, ⟨0, 44⟩, false⟩] := by
    decide +kernel
  have hparse : parse second = .ok [.function ⟨0, 0⟩ "f" [] [],
      .expr (.assign ⟨0, 16⟩ none (.name ⟨0, 16⟩ "q")
        (.binary ⟨0, 20⟩ .strictEqual (.name ⟨0, 20⟩ "f") (.name ⟨0, 26⟩ "g"))),
      .expr (.assign ⟨0, 29⟩ none (.name ⟨0, 29⟩ "r")
        (.binary ⟨0, 33⟩ .strictEqual (.array ⟨0, 33⟩ [.name ⟨0, 34⟩ "f"])
          (.array ⟨0, 41⟩ [.name ⟨0, 42⟩ "g"])))] := by
    rw [parse, hlexemes]
    rfl
  have hrun : execute ⟨64, 100⟩ first [] = .done () env := by
    rw [execute, parse_twoNames]
    rfl
  have hrun' : execute ⟨64, 100⟩ second env = .done () env' := by
    rw [execute, hparse]
    rfl
  exact ⟨hrun, hrun', .done (.done (.start rfl) hrun) hrun', rfl, rfl⟩

end Environment

end Stencil.Script
