/-
  The variables that a run leaves alone.

  The environment changes where code says so: a name gets a value in it only by being assigned,
  changed from inside or declared, in the script itself or in a function that the script can come
  across, and all of those are in the script or in the environment.  The one other way in is the
  output.
-/
import Stencil.Proofs.Script.Run.Changes
import Stencil.Proofs.Script.Run.Sound

namespace Stencil.Script

/-- The names that a use gives a value to. -/
def writtenNames (uses : List (NameUse × String)) : List String :=
  (uses.filter fun u => u.1.writes).map Prod.snd

theorem mem_writtenNames {uses : List (NameUse × String)} {u : NameUse × String} (hu : u ∈ uses)
    (hwrites : u.1.writes = true) : u.2 ∈ writtenNames uses :=
  List.mem_map_of_mem (List.mem_filter.mpr ⟨hu, hwrites⟩)

/-- The names that some statements, with all functions declared in them, give a value to, and those
    that the functions held in an environment do. -/
def Stmt.written (body : List Stmt) (env : Environment) : List String :=
  writtenNames (Stmt.usesWhole body ++
    (Value.functionsMembers env).flatMap fun f => Stmt.usesWhole f.body)

/-- The name may get a value in a run of the statements: it is written, or output to. -/
def Stmt.Reaches (body : List Stmt) (env : Environment) (name : String) : Prop :=
  name ∈ Stmt.written body env ∨ name = outputName

/-- No name is lost, and those outside of `W` have the values that they had. -/
structure Environment.Touched (W : String → Prop) (env env' : Environment) : Prop where
  kept : ∀ name, (Dict.get? env name).isSome → (Dict.get? env' name).isSome
  untouched : ∀ name, ¬ W name → Dict.get? env' name = Dict.get? env name

namespace Environment

variable {W : String → Prop} {env env' env'' : Environment}

theorem Touched.refl : env.Touched W env := ⟨fun _ => id, fun _ _ => rfl⟩

theorem Touched.trans (h : env.Touched W env') (h' : env'.Touched W env'') :
    env.Touched W env'' :=
  ⟨fun name hsome => h'.kept name (h.kept name hsome),
    fun name hname => (h'.untouched name hname).trans (h.untouched name hname)⟩

theorem touched_insert {name : String} (hname : W name) (v : Value) :
    env.Touched W (Dict.insert env name v) := by
  refine ⟨fun other hsome => ?_, fun other hother => ?_⟩
  · rw [Dict.get?_insert]
    split
    · rfl
    · exact hsome
  · rw [Dict.get?_insert, if_neg]
    rintro rfl
    exact hother hname

theorem touched_withFunctions (run : Nat) {fs : List Function} (h : ∀ f ∈ fs, W f.name) :
    env.Touched W (env.withFunctions run fs) := by
  unfold withFunctions
  induction fs generalizing env with
  | nil => exact .refl
  | cons f rest ih =>
    rw [List.forall_mem_cons] at h
    exact (touched_insert h.1 _).trans (ih h.2)

end Environment

/-- If the use gives a name a value, the name is in `W`. -/
def WritesIn (W : String → Prop) (u : NameUse × String) : Prop := u.1.writes = true → W u.2

namespace Machine

variable {W : String → Prop} {m m' : Machine} {name : String} {v : Value}

theorem assign_touched (hname : W name) (h : m.assign name v = .ok m') :
    m.env.Touched W m'.env := by
  rcases assign_cases h with ⟨i, s, b, -, -, -, rfl⟩ | ⟨-, rfl⟩
  · exact .refl
  · exact Environment.touched_insert hname v

theorem setVariable_touched (hname : W name) (h : m.changeable? name = some v) (v' : Value) :
    m.env.Touched W (m.setVariable name v').env := by
  rcases setVariable_cases h v' with ⟨i, s, b, -, -, -, heq⟩ | ⟨-, heq⟩ <;> rw [heq]
  · exact .refl
  · exact Environment.touched_insert hname v'

theorem declare_touched {kind : DeclKind} (hname : W name) (h : m.declare kind name v = .ok m') :
    m.env.Touched W m'.env := by
  rcases declare_cases h with ⟨-, ⟨i, s, -, -, rfl⟩ | ⟨-, rfl⟩⟩ | ⟨-, ⟨s, -, -, rfl⟩ | ⟨-, -, rfl⟩⟩
  · exact .refl
  · exact Environment.touched_insert hname v
  · exact .refl
  · exact Environment.touched_insert hname v

/-- Code gives values to the names that it says, and to the output. -/
theorem touched_of_moves {U : NameUse × String → Prop} {D : String → Prop}
    (h : Moves (Function.UsesOnly (WritesIn W)) U D m m') (houtput : W outputName)
    (hU : ∀ u, U u → WritesIn W u) : m.env.Touched W m'.env := by
  induction h with
  | stay => exact .refl
  | andThen _ _ ih ih' => exact (ih hU).trans (ih' hU)
  | write huse hwrite =>
    rcases Slot.write_cases hwrite with hassign | ⟨v, v', hv, -, rfl⟩
    · exact assign_touched (hU _ huse rfl) hassign
    · exact setVariable_touched (hU _ huse rfl) hv v'
  | mutate huse hheld hitems hmodify =>
    obtain ⟨v, v', hv, -, rfl⟩ := Slot.mutate_cases hheld hitems hmodify
    exact setVariable_touched (hU _ huse rfl) hv v'
  | output => exact Environment.touched_insert houtput _
  | declare huse _ hdeclare => exact declare_touched (hU _ huse rfl) hdeclare
  | @block _ _ m _ body _ _ ih =>
    rw [hoist_of_cons (m := m.enter .block) body rfl] at ih
    exact ih hU
  | @call _ _ m _ run f args hf _ _ ih =>
    rw [hoist_of_cons (m := m.beginCall run (Scope.ofCall run f args)) f.body rfl] at ih
    exact ih fun u hu => hf u (Stmt.usesList_subset_usesWhole f.body hu)

end Machine

/-- **A run leaves alone what its code does not name.**  However a script ends in any environment,
    no variable has disappeared, and all but the output and those that the script or a function in
    the environment gives a value to are there or missing as before, with the values that they
    had. -/
theorem runProgram_untouched (limits : Limits) (body : List Stmt) (env : Environment) :
    (runProgram limits body env).Keeps (fun env' =>
      (∀ name, (Dict.get? env name).isSome → (Dict.get? env' name).isSome) ∧
      ∀ name, name ∉ Stmt.written body env → name ≠ outputName →
        Dict.get? env' name = Dict.get? env name) fun _ => True := by
  have hscript : ∀ u ∈ Stmt.usesWhole body, WritesIn (Stmt.Reaches body env) u :=
    fun u hu hwrites => Or.inl (mem_writtenNames (List.mem_append_left _ hu) hwrites)
  have henv : env.Holds (Function.UsesOnly (WritesIn (Stmt.Reaches body env))) :=
    fun f hf u hu hwrites => Or.inl (mem_writtenNames
      (List.mem_append_right _ (List.mem_flatMap.mpr ⟨f, hf, hu⟩)) hwrites)
  refine (runProgram_moves (closed_usesOnly _) limits (Stmt.overList_usesOnly hscript) henv).mono ?_
    fun _ _ => trivial
  rintro env' ⟨m, -, rfl, hmoves⟩
  have hdeclared : env.Touched (Stmt.Reaches body env)
      (env.withFunctions env.freshRun (declaredFunctions body)) :=
    Environment.touched_withFunctions _ fun f hf =>
      hscript _ (Stmt.usesList_subset_usesWhole body (mem_usesList_of_declared hf)) rfl
  have hrun := Machine.touched_of_moves hmoves (Or.inr rfl) fun u hu =>
    hscript u (Stmt.usesList_subset_usesWhole body hu)
  rw [Machine.hoist_of_nil body rfl] at hrun
  have hall := hdeclared.trans hrun
  exact ⟨hall.kept, fun name hname hne => hall.untouched name fun h => h.elim hname hne⟩

end Stencil.Script
