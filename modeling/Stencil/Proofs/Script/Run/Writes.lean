/-
  Writing to the variables of the environment.

  `WritesVariable` says of each effect when it gives a variable of the environment a value.  An
  effect that does not leaves the variable as it was, and so does any part of a run in which no
  effect does (`Task.get?_of_spares`).  `Task.Passes` follows a run through a task on its way to
  the end, where the variable is not written to any more once the task is done; so what the task
  left in the variable is there at the end (`Task.Passes.get?`).
-/
import Stencil.Proofs.Script.Run.Changes
import Stencil.Proofs.Script.Run.Elements
import Stencil.Proofs.Script.Run.Moments
import Stencil.Proofs.Script.Run.Moves
import Stencil.Proofs.Script.Run.Untouched

namespace Stencil.Script

open Effect

/-! ## Effects that write -/

/-- Done in the state, the effect gives the variable of the environment a value. -/
inductive WritesVariable (name : String) : {α : Type} → Effect α → Machine → Prop where
  | slot {m : Machine} (pos : Position) {s : Slot} (v : Value) (hroot : s.root = name)
      (hfree : findBinding? m.scopes name = none) : WritesVariable name (writeSlot pos s v) m
  | array {m : Machine} (pos : Position) {s : Slot} (pop : Bool) (items args : List Value)
      (hroot : s.root = name) (hfree : findBinding? m.scopes name = none) :
      WritesVariable name (changeArray pos s pop items args) m
  | output {m : Machine} (pos : Position) (args : List Value) (hname : name = outputName) :
      WritesVariable name (appendOutput pos args) m
  | var {m : Machine} (pos : Position) (v : Value) (houtside : m.inFunction = false) :
      WritesVariable name (declareName pos .varDecl name v) m
  | lexical {m : Machine} (pos : Position) {kind : DeclKind} (v : Value) (hkind : kind ≠ .varDecl)
      (hscopes : m.scopes = []) : WritesVariable name (declareName pos kind name v) m
  | hoisted {m : Machine} {body : List Stmt} {f : Function} (hf : f ∈ declaredFunctions body)
      (hname : f.name = name) (hscopes : m.scopes = []) :
      WritesVariable name (modify fun m => m.hoist body) m

/-- Functions declared in front are in the environment. -/
theorem Environment.isSome_get?_withFunctions (env : Environment) (run : Nat) {fs : List Function}
    {f : Function} (hf : f ∈ fs) : (Dict.get? (env.withFunctions run fs) f.name).isSome := by
  induction fs generalizing env with
  | nil => cases hf
  | cons g rest ih =>
    rcases List.mem_cons.mp hf with rfl | hf
    · have htouched : Touched (fun _ => True) (Dict.insert env f.name (.function run f))
          (withFunctions (Dict.insert env f.name (.function run f)) run rest) :=
        touched_withFunctions run fun _ _ => trivial
      exact htouched.kept f.name (by rw [Dict.get?_insert_self]; rfl)
    · exact ih (Dict.insert env g.name (.function run g)) hf

/-- What writes to a variable is not without effect: in some state it does not end as it began. -/
theorem WritesVariable.acts {name : String} {α : Type} {x : Effect α} {m : Machine}
    (h : WritesVariable name x m) : ∃ k, ∀ a, x k ≠ .done a k := by
  cases h with
  | @slot _ pos s v _ _ =>
    -- in this state the variable is a constant without a value
    refine ⟨⟨[], [(s.root, true)], [], 0, 0⟩, fun a hdone => ?_⟩
    have hconstant : Dict.get? [(s.root, true)] s.root = some true := if_pos rfl
    unfold writeSlot Slot.write at hdone
    cases hpath : s.path.getLast? with
    | none =>
      rw [hpath] at hdone
      dsimp only [Machine.assign, findBinding?, List.findSome?] at hdone
      rw [if_pos hconstant] at hdone
      cases hdone
    | some key =>
      rw [hpath] at hdone
      cases hdone
  | array pos pop items args _ _ =>
    refine ⟨.start 0 [], fun a hdone => ?_⟩
    unfold changeArray at hdone
    cases hdone
  | output pos args _ => exact ⟨.start 0 [], fun a hdone => by cases hdone⟩
  | var pos v _ => exact ⟨.start 0 [], fun a hdone => by cases hdone⟩
  | @lexical _ pos kind v hkind _ =>
    refine ⟨⟨[], [(name, false)], [], 0, 0⟩, fun a hdone => ?_⟩
    have hcontains : Dict.contains [(name, false)] name = true := by
      rw [Dict.contains, Dict.get?, if_pos rfl]
      rfl
    cases kind with
    | varDecl => exact hkind rfl
    | letDecl | constDecl =>
      unfold declareName Machine.declare at hdone
      dsimp only at hdone
      rw [if_pos hcontains] at hdone
      cases hdone
  | @hoisted _ body f hf _ _ =>
    refine ⟨.start 0 [], fun a hdone => ?_⟩
    have hsome := Environment.isSome_get?_withFunctions [] 0 hf
    have hstate : (Machine.start 0 []).hoist body = .start 0 [] := (Outcome.done.inj hdone).2
    rw [Machine.hoist_of_nil body rfl] at hstate
    rw [show Environment.withFunctions [] 0 (declaredFunctions body) = [] from
      congrArg Machine.env hstate] at hsome
    cases hsome

namespace Machine

variable {m m' : Machine} {name other : String} {v : Value}

theorem get?_setEnv_of_ne (h : other ≠ name) : Dict.get? (m.setEnv other v).env name
    = Dict.get? m.env name := Dict.get?_insert_of_ne m.env v h.symm

theorem get?_setVariable (h : ¬ (other = name ∧ findBinding? m.scopes name = none)) :
    Dict.get? (m.setVariable other v).env name = Dict.get? m.env name := by
  unfold setVariable
  split
  · rfl
  · rename_i hfree
    refine get?_setEnv_of_ne fun hname => h ⟨hname, ?_⟩
    rwa [← hname]

theorem get?_assign (h : m.assign other v = .ok m')
    (hno : ¬ (other = name ∧ findBinding? m.scopes name = none)) :
    Dict.get? m'.env name = Dict.get? m.env name := by
  unfold assign at h
  split at h
  · split at h <;> cases h
    rfl
  · rename_i hfree
    split at h <;> cases h
    refine get?_setEnv_of_ne fun hname => hno ⟨hname, ?_⟩
    rwa [← hname]

theorem get?_hoist (body : List Stmt)
    (h : m.scopes = [] → ∀ f ∈ declaredFunctions body, f.name ≠ name) :
    Dict.get? (m.hoist body).env name = Dict.get? m.env name := by
  cases hscopes : m.scopes with
  | cons s outer => rw [hoist_of_cons body hscopes]
  | nil =>
    have hfs := h hscopes
    rw [hoist_of_nil body hscopes, Environment.withFunctions]
    dsimp only
    generalize declaredFunctions body = fs at hfs
    generalize m.env = env
    induction fs generalizing env with
    | nil => rfl
    | cons f rest ih =>
      obtain ⟨hname, hrest⟩ := List.forall_mem_cons.mp hfs
      rw [List.foldl_cons, ih hrest, Dict.get?_insert_of_ne env _ hname.symm]

end Machine

/-- The effect leaves the variable of the environment as it is, unless it writes to it. -/
def Leaves {α : Type} (name : String) (x : Effect α) : Prop :=
  ∀ m a m', x m = .done a m' → ¬ WritesVariable name x m →
    Dict.get? m'.env name = Dict.get? m.env name

section

variable {α : Type} {name : String} {pos : Position}

theorem leaves_of_still {x : Effect α} (h : Still x) : Leaves name x := by
  intro m a m' hx _
  rcases h m with ⟨b, hdone⟩ | ⟨e, hfailed⟩
  · cases hx.symm.trans hdone
    rfl
  · cases hx.symm.trans hfailed

theorem leaves_writeSlot (s : Slot) (v : Value) : Leaves name (writeSlot pos s v) := by
  intro m a m' hx hno
  have hfree : ¬ (s.root = name ∧ findBinding? m.scopes name = none) :=
    fun ⟨hroot, hfree⟩ => hno (.slot pos v hroot hfree)
  unfold writeSlot at hx
  split at hx <;> cases hx
  rcases Slot.write_cases ‹_› with hassign | ⟨w, w', -, -, rfl⟩
  · exact Machine.get?_assign hassign hfree
  · exact Machine.get?_setVariable hfree

theorem leaves_changeArray (s : Slot) (pop : Bool) (items args : List Value) :
    Leaves name (changeArray pos s pop items args) := by
  intro m a m' hx hno
  unfold changeArray at hx
  dsimp only at hx
  split at hx <;> cases hx
  obtain ⟨w, w', -, -, rfl⟩ := Slot.modify_cases ‹_›
  exact Machine.get?_setVariable fun ⟨hroot, hfree⟩ => hno (.array pos pop items args hroot hfree)

theorem leaves_appendOutput (args : List Value) : Leaves name (appendOutput pos args) := by
  intro m a m' hx hno
  rw [appendOutput_apply] at hx
  split at hx <;> cases hx
  exact Machine.get?_setEnv_of_ne fun hname => hno (.output pos args hname.symm)

theorem leaves_declareName (kind : DeclKind) (other : String) (v : Value) :
    Leaves name (declareName pos kind other v) := by
  intro m a m' hx hno
  unfold declareName at hx
  split at hx <;> cases hx
  rcases Machine.declare_cases ‹_› with ⟨rfl, ⟨i, s, -, -, rfl⟩ | ⟨houtside, rfl⟩⟩ |
    ⟨hkind, ⟨s, -, -, rfl⟩ | ⟨hscopes, -, rfl⟩⟩
  · rfl
  · refine Machine.get?_setEnv_of_ne fun hname => hno ?_
    exact hname ▸ .var pos v houtside
  · rfl
  · refine Machine.get?_setEnv_of_ne (m := m) fun hname => hno ?_
    exact hname ▸ .lexical pos v hkind hscopes

theorem leaves_hoist (body : List Stmt) : Leaves name (modify fun m => m.hoist body) := by
  intro m a m' hx hno
  cases hx
  exact Machine.get?_hoist body fun hscopes f hf hname => hno (.hoisted hf hname hscopes)

theorem Elementary.leaves {declares : Bool} {N : String → Prop} {x : Effect α}
    (h : Elementary declares N x) : Leaves name x :=
  of_elementary h leaves_of_still (fun _ => leaves_writeSlot) (fun _ => leaves_changeArray)
    (fun _ => leaves_appendOutput) (fun _ kind other v _ => leaves_declareName kind other v)
    fun body _ => leaves_hoist body

end

/-! ## Runs that do not write -/

/-- In the course of the task, nothing is written to the variable. -/
def Task.Spares {α : Type} (maxDepth steps : Nat) (name : String) (t : Task α) (m : Machine) :
    Prop :=
  ∀ {β : Type} (x : Effect β) m', t.Does maxDepth steps m x m' → ¬ WritesVariable name x m'

/-- In the course of the plan, nothing is written to the variable. -/
structure Plan.Spares {α : Type} (maxDepth steps : Nat) (name : String) (p : Plan α)
    (m : Machine) : Prop where
  effects : ∀ {β : Type} (x : Effect β) m', p.Does (Task.run maxDepth steps) m x m' →
    ¬ WritesVariable name x m'
  tasks : ∀ {β : Type} active (t : Task β) m', p.Starts (Task.run maxDepth steps) m active t m' →
    t.Spares maxDepth steps name m'

section

variable {α β : Type} {maxDepth steps : Nat} {name : String} {m m' : Machine} {a : α}

theorem Task.Spares.plan {t : Task α} (h : t.Spares maxDepth (steps + 1) name m) :
    (t.plan maxDepth).Spares maxDepth steps name m :=
  ⟨fun x m' hdoes => h x m' (.here hdoes),
    fun _ _ _ hstarts _ x n hdoes => h x n (.further hstarts hdoes)⟩

theorem Task.spares_of_plan {t : Task α}
    (h : (t.plan maxDepth).Spares maxDepth steps name m) :
    t.Spares maxDepth (steps + 1) name m := by
  intro β x m' hdoes
  cases hdoes with
  | here hdoes => exact h.effects x m' hdoes
  | further hstarts hdoes => exact h.tasks _ _ _ hstarts x m' hdoes

theorem Plan.spares_task {t : Task α} (h : t.Spares maxDepth steps name m) :
    (Plan.task t).Spares maxDepth steps name m := by
  refine ⟨fun x m' hdoes => ?_, fun active t' m' hstarts => ?_⟩
  · cases hdoes
  · cases hstarts
    exact h

theorem Plan.spares_pure (a : α) : (Plan.effect (pure a)).Spares maxDepth steps name m := by
  refine ⟨fun x m' hdoes hwrites => ?_, fun active t' m' hstarts => ?_⟩
  · cases hdoes
    obtain ⟨k, hk⟩ := hwrites.acts
    exact hk a rfl
  · cases hstarts

/-- What is not written to in the course of a plan is as it was. -/
theorem Plan.get?_of_spares {p : Plan α} (hp : p.All (Leaves name) True)
    (hrun : ∀ {γ : Type} (t : Task γ) {c : γ} {k k' : Machine},
      t.run maxDepth steps k = .done c k' → t.Spares maxDepth steps name k →
      Dict.get? k'.env name = Dict.get? k.env name)
    (h : p.follow (Task.run maxDepth steps) m = .done a m')
    (hspares : p.Spares maxDepth steps name m) :
    Dict.get? m'.env name = Dict.get? m.env name := by
  induction p generalizing m m' with
  | effect x => exact hp m a m' h (hspares.effects x m (.effect x m))
  | task t => exact hrun t h (hspares.tasks 0 t m (.task t m))
  | bind p f ihp ihf =>
    obtain ⟨c, k, hpk, hfk⟩ := bind_done_iff.mp h
    rw [ihf c (hp.2 c) hfk ⟨fun x m' hdoes => hspares.effects x m' (.next hpk hdoes),
        fun active t m' hstarts => hspares.tasks active t m' (.next hpk hstarts)⟩,
      ihp hp.1 hpk ⟨fun x m' hdoes => hspares.effects x m' (.first hdoes),
        fun active t m' hstarts => hspares.tasks active t m' (.first hstarts)⟩]
  | within scope p ih =>
    obtain ⟨k, hk, rfl⟩ := within_done_iff.mp h
    show Dict.get? k.env name = Dict.get? (m.enter scope).env name
    exact ih hp hk ⟨fun x m' hdoes => hspares.effects x m' (.within hdoes),
      fun active t m' hstarts => hspares.tasks active t m' (.within hstarts)⟩
  | inCall number scopes p ih =>
    obtain ⟨k, hk, rfl⟩ := inCall_done_iff.mp h
    show Dict.get? k.env name = Dict.get? (m.beginCall number scopes).env name
    exact ih hp.2 hk ⟨fun x m' hdoes => hspares.effects x m' (.inCall hdoes),
      fun active t m' hstarts => hspares.tasks (active + 1) t m' (.inCall hstarts)⟩

theorem Task.plan_leaves (t : Task α) : (t.plan maxDepth).All (Leaves name) True :=
  t.plan_all maxDepth Elementary.leaves fun pos =>
    leaves_of_still (still_checkDepth maxDepth pos)

/-- **What is not written to in the course of a run is as it was.** -/
theorem Task.get?_of_spares {t : Task α} (h : t.run maxDepth steps m = .done a m')
    (hspares : t.Spares maxDepth steps name m) :
    Dict.get? m'.env name = Dict.get? m.env name := by
  induction steps generalizing α m m' with
  | zero => cases t <;> cases h
  | succ steps ih =>
    rw [Task.run_succ] at h
    exact Plan.get?_of_spares t.plan_leaves (fun t _ _ _ => ih) h hspares.plan

end

/-! ## The rest of a run -/

section

variable (maxDepth : Nat) (name : String) {β : Type} (t' : Task β) (left : Nat)

/-- The plan, followed from a state, ends with a result in a state; on the way, with so many calls
    of its own active, the task is done from `m₁` to `m₂` with the result `b`, and once it is done,
    nothing is written to the variable any more. -/
inductive Plan.Passes (m₁ : Machine) (b : β) (m₂ : Machine) :
    {α : Type} → Plan α → Machine → Nat → α → Machine → Prop where
  | task : t'.run maxDepth left m₁ = .done b m₂ → Passes m₁ b m₂ (.task t') m₁ 0 b m₂
  | first {α γ : Type} {p : Plan α} {f : α → Plan γ} {m k n : Machine} {active : Nat} {a : α}
      {c : γ} : Passes m₁ b m₂ p m active a k →
      (f a).follow (Task.run maxDepth left) k = .done c n → (f a).Spares maxDepth left name k →
      Passes m₁ b m₂ (.bind p f) m active c n
  | next {α γ : Type} {p : Plan α} {f : α → Plan γ} {m k n : Machine} {active : Nat} {a : α}
      {c : γ} : p.follow (Task.run maxDepth left) m = .done a k →
      Passes m₁ b m₂ (f a) k active c n → Passes m₁ b m₂ (.bind p f) m active c n
  | within {α : Type} {scope : Scope} {p : Plan α} {m n : Machine} {active : Nat} {a : α} :
      Passes m₁ b m₂ p (m.enter scope) active a n →
      Passes m₁ b m₂ (.within scope p) m active a n.leave
  | inCall {α : Type} {number : Nat} {scopes : List Scope} {p : Plan α} {m n : Machine}
      {active : Nat} {a : α} : Passes m₁ b m₂ p (m.beginCall number scopes) active a n →
      Passes m₁ b m₂ (.inCall number scopes p) m (active + 1) a (n.endCall m)

/-- With so many steps, the task ends with a result in a state; on the way, with so many calls of
    its own active, another one is done from `m₁` to `m₂` with the result `b`, and once that is
    done, nothing is written to the variable any more. -/
inductive Task.Passes (m₁ : Machine) (b : β) (m₂ : Machine) :
    {α : Type} → Nat → Task α → Machine → Nat → α → Machine → Prop where
  | here : t'.run maxDepth left m₁ = .done b m₂ → Passes m₁ b m₂ left t' m₁ 0 b m₂
  | further {α γ : Type} {steps active active' : Nat} {t : Task α} {t₁ : Task γ}
      {m n k k' : Machine} {a : α} {c : γ} :
      (t.plan maxDepth).Passes maxDepth name t₁ steps n c k m active a k' →
      Passes m₁ b m₂ steps t₁ n active' c k →
      Passes m₁ b m₂ (steps + 1) t m (active + active') a k'

end

section

variable {α β : Type} {maxDepth left steps active : Nat} {name : String} {t' : Task β}
  {m₁ m₂ m n : Machine} {a : α} {b : β}

namespace Plan.Passes

variable {p : Plan α} (h : p.Passes maxDepth name t' left m₁ b m₂ m active a n)

include h

theorem starts : p.Starts (Task.run maxDepth left) m active t' m₁ := by
  induction h with
  | task _ => exact .task _ _
  | first _ _ _ ih => exact .first ih
  | next hdone _ ih => exact .next hdone ih
  | within _ ih => exact .within ih
  | inCall _ ih => exact .inCall ih

theorem follow : p.follow (Task.run maxDepth left) m = .done a n := by
  induction h with
  | task hdone => exact hdone
  | first _ hrest _ ih => exact bind_done_iff.mpr ⟨_, _, ih, hrest⟩
  | next hdone _ ih => exact bind_done_iff.mpr ⟨_, _, hdone, ih⟩
  | within _ ih => exact within_done_iff.mpr ⟨_, ih, rfl⟩
  | inCall _ ih => exact inCall_done_iff.mpr ⟨_, ih, rfl⟩

/-- What the task left in the variable is there at the end of the plan. -/
theorem get? (hp : p.All (Leaves name) True) :
    Dict.get? n.env name = Dict.get? m₂.env name := by
  induction h with
  | task _ => rfl
  | first _ hrest hspares ih =>
    rw [Plan.get?_of_spares (hp.2 _) (fun _ => Task.get?_of_spares) hrest hspares, ih hp.1]
  | next _ _ ih => exact ih (hp.2 _)
  | within _ ih => exact ih hp
  | inCall _ ih => exact ih hp.2

end Plan.Passes

namespace Task.Passes

variable {t : Task α} (h : Task.Passes maxDepth name t' left m₁ b m₂ steps t m active a n)

include h

theorem comes : Task.Comes maxDepth steps t m active left t' m₁ := by
  induction h with
  | here _ => exact .here _ _ _
  | further hplan _ ih => exact .further hplan.starts ih

/-- **What a task leaves in a variable** that is not written to afterwards is there at the end. -/
theorem get? : Dict.get? n.env name = Dict.get? m₂.env name := by
  induction h with
  | here _ => rfl
  | @further _ _ _ _ _ t _ _ _ _ _ _ _ hplan _ ih => rw [hplan.get? t.plan_leaves, ih]

end Task.Passes

end

end Stencil.Script
