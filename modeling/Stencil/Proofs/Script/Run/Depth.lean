/-
  How many calls are active.

  The number that a state carries is the number of calls of script functions that are active, at
  every point of every run, whatever paths lead there: only a call changes it, and however the call
  ends it is the caller's again.  A call checks it before it begins, and nothing else looks at it.
  So never more calls are active than may be, a run fails because of it exactly where one call too
  many is made, and a run that does not is the same under every higher limit.
-/
import Stencil.Proofs.Script.Run.Changes
import Stencil.Proofs.Script.Run.Elements
import Stencil.Proofs.Script.Run.Lockstep
import Stencil.Proofs.Script.Run.Moments

namespace Stencil.Script

open Effect

/-! ## Effects besides calls -/

/-- The fault is not that too many calls are active. -/
def Fault.NotOfDepth (fault : Fault) : Prop := ∀ n, fault ≠ .callDepthExceeded n

theorem Fault.notOfDepth_of_isOperational {fault : Fault} (h : fault.isOperational = true) :
    fault.NotOfDepth := by
  rintro n rfl
  cases h

/-- The effect keeps the number of active calls, and does not fail because of it. -/
def Steady {α : Type} (x : Effect α) : Prop :=
  Goes (fun _ => True) (·.fault.NotOfDepth) (fun m m' => m'.depth = m.depth) x fun _ => True

section

variable {α : Type} {pos : Position}

theorem steady_pure (a : α) : Steady (pure a : Effect α) := fun _ _ => ⟨trivial, trivial, rfl⟩

theorem steady_fail {fault : Fault} (h : fault.NotOfDepth) : Steady (fail pos fault : Effect α) :=
  fun _ _ => ⟨h, trivial, rfl⟩

theorem steady_lift {r : Except Fault α} {Q : α → Prop} (h : Gives r Q) :
    Steady (lift pos r) := by
  cases r with
  | ok a => exact steady_pure a
  | error fault => exact steady_fail (Fault.notOfDepth_of_isOperational h)

/-- An effect that reads the state. -/
theorem steady_get {f : Machine → Effect α} (h : ∀ m, Steady (f m)) : Steady (get >>= f) :=
  fun m => h m m

theorem steady_lookupName (name : String) : Steady (lookupName name) :=
  steady_get fun _ => steady_pure _

theorem steady_nameValue (name : String) : Steady (nameValue pos name) := by
  intro m _
  rw [nameValue_apply]
  cases m.lookup? name with
  | some v => exact ⟨trivial, trivial, rfl⟩
  | none => exact ⟨fun _ h => (by cases h), trivial, rfl⟩

theorem steady_readSlot (s : Slot) : Steady (readSlot pos s) :=
  steady_get fun m => steady_lift (m.holds_true.slot_read s)

theorem steady_heldSlot (s : Slot) : Steady (heldSlot pos s) :=
  steady_get fun m => steady_lift (m.holds_true.slot_held s)

theorem Machine.depth_setVariable (m : Machine) (name : String) (v : Value) :
    (m.setVariable name v).depth = m.depth := by
  unfold setVariable
  split <;> rfl

theorem Machine.depth_hoist (m : Machine) (body : List Stmt) : (m.hoist body).depth = m.depth := by
  cases h : m.scopes with
  | nil => rw [hoist_of_nil body h]
  | cons s outer => rw [hoist_of_cons body h]

theorem steady_hoist (body : List Stmt) : Steady (modify fun m => m.hoist body) :=
  fun m _ => ⟨trivial, trivial, m.depth_hoist body⟩

theorem steady_writeSlot (s : Slot) (v : Value) : Steady (writeSlot pos s v) := by
  intro m _
  have hgives := m.holds_true.slot_write s (v := v) fun _ _ => trivial
  unfold writeSlot
  cases h : s.write v m with
  | error fault =>
    rw [h] at hgives
    exact ⟨Fault.notOfDepth_of_isOperational hgives, trivial, rfl⟩
  | ok m' =>
    refine ⟨trivial, trivial, ?_⟩
    rcases Slot.write_cases h with hassign | ⟨v, v', -, -, rfl⟩
    · rcases Machine.assign_cases hassign with ⟨i, s, b, -, -, -, rfl⟩ | ⟨-, rfl⟩ <;> rfl
    · exact m.depth_setVariable _ _

theorem steady_changeArray (s : Slot) (pop : Bool) (items args : List Value) :
    Steady (changeArray pos s pop items args) := by
  intro m _
  unfold changeArray
  dsimp only
  generalize (if pop then items.dropLast else items ++ args) = changed
  have hgives := m.holds_true.slot_replace s (v := .array changed) fun _ _ => trivial
  cases h : s.modify (fun _ => .ok (.array changed, ())) m with
  | error fault =>
    rw [h] at hgives
    exact ⟨Fault.notOfDepth_of_isOperational hgives, trivial, rfl⟩
  | ok out =>
    obtain ⟨v, v', -, -, hout⟩ := Slot.modify_cases h
    exact ⟨trivial, trivial, hout ▸ m.depth_setVariable _ _⟩

theorem steady_appendOutput (args : List Value) : Steady (appendOutput pos args) := by
  intro m _
  rw [appendOutput_apply]
  split
  · exact ⟨trivial, trivial, rfl⟩
  · exact ⟨fun _ h => (by cases h), trivial, rfl⟩

theorem steady_declareName (kind : DeclKind) (name : String) (v : Value) :
    Steady (declareName pos kind name v) := by
  intro m _
  have hgives := m.holds_true.declare kind name (v := v) fun _ _ => trivial
  unfold declareName
  cases h : m.declare kind name v with
  | error fault =>
    rw [h] at hgives
    exact ⟨Fault.notOfDepth_of_isOperational hgives, trivial, rfl⟩
  | ok m' =>
    refine ⟨trivial, trivial, ?_⟩
    rcases Machine.declare_cases h with ⟨-, ⟨i, s, -, -, rfl⟩ | ⟨-, rfl⟩⟩ |
      ⟨-, ⟨s, -, -, rfl⟩ | ⟨-, -, rfl⟩⟩ <;> rfl

end

/-! ## Plans -/

/-- The plan makes no call, and all that it does at once is steady. -/
def Plan.Calm {α : Type} (p : Plan α) : Prop := p.All Steady False

section

variable {α : Type}

theorem Elementary.steady {declares : Bool} {N : String → Prop} {x : Effect α}
    (h : Elementary declares N x) : Steady x := by
  cases h with
  | pure a => exact steady_pure a
  | fail pos h =>
    exact steady_fail (Fault.notOfDepth_of_isOperational (Fault.isOperational_of_isOfValues h))
  | lift pos h => exact steady_lift h.gives
  | lookupName name => exact steady_lookupName name
  | nameValue pos name => exact steady_nameValue name
  | readSlot pos s => exact steady_readSlot s
  | heldSlot pos s => exact steady_heldSlot s
  | writeSlot pos s v => exact steady_writeSlot s v
  | changeArray pos s pop items args => exact steady_changeArray s pop items args
  | appendOutput pos args => exact steady_appendOutput args
  | declareName pos kind name v _ _ => exact steady_declareName kind name v
  | hoist body _ _ => exact steady_hoist body

/-- Only the call of a script function makes a call. -/
theorem Task.calm_or_call (maxDepth : Nat) {motive : {α : Type} → Task α → Prop}
    (hcalm : ∀ {α : Type} (t : Task α), (t.plan maxDepth).Calm → motive t)
    (hcall : ∀ pos run f args, motive (.callFunction pos run f args)) (t : Task α) : motive t :=
  t.made_or_call maxDepth (fun t ht => hcalm t (ht.all Elementary.steady)) hcall

end

/-! ## The number of calls -/

/-- The effect keeps the number of active calls. -/
def KeepsDepth {α : Type} (x : Effect α) : Prop :=
  Goes (fun _ => True) (fun _ => True) (fun m m' => m'.depth = m.depth) x fun _ => True

section

variable {α β : Type} {maxDepth steps : Nat} {m m' : Machine}

theorem Steady.keepsDepth {x : Effect α} (h : Steady x) : KeepsDepth x := by
  intro m hm
  have := h m hm
  cases hx : x m with
  | done a m' =>
    rw [hx] at this
    exact this
  | failed e m' =>
    rw [hx] at this
    exact ⟨trivial, this.2⟩
  | exhausted => trivial

theorem KeepsDepth.of_done {x : Effect α} (h : KeepsDepth x) {a : α} (hx : x m = .done a m') :
    m'.depth = m.depth := by
  have := h m trivial
  rw [hx] at this
  exact this.2.2

theorem keepsDepth_checkDepth (pos : Position) : KeepsDepth (checkDepth maxDepth pos) := by
  intro m _
  rw [checkDepth_apply]
  split
  · exact ⟨trivial, trivial, rfl⟩
  · exact ⟨trivial, trivial, rfl⟩

namespace Plan

variable {run : Runner} (hrun : ∀ {β : Type} (t : Task β), KeepsDepth (run t))

include hrun

theorem follow_keepsDepth {p : Plan α} (h : p.All KeepsDepth True) :
    KeepsDepth (p.follow run) := by
  induction p with
  | effect x => exact h
  | task t => exact hrun t
  | bind p f ihp ihf =>
    exact Goes.bind (fun h h' => h'.trans h) (ihp h.1) fun a _ => ihf a (h.2 a)
  | within scope p ih => exact Goes.within (ih h) (fun _ _ => trivial) (fun _ _ => trivial) id
  | inCall number scopes p ih =>
    exact Goes.inCall (ih h.2) (fun _ _ => trivial) (fun _ _ _ _ => trivial) fun _ => rfl

/-- Where a plan starts a task, the number of calls is what it was, and those of the plan. -/
theorem Starts.depth {p : Plan α} {active : Nat} {t : Task β} (hp : p.All KeepsDepth True)
    (h : p.Starts run m active t m') : m'.depth = m.depth + active := by
  induction h with
  | task t m => rfl
  | first _ ih => exact ih hp.1
  | next hdone _ ih => rw [ih (hp.2 _), (follow_keepsDepth hrun hp.1).of_done hdone]
  | within _ ih => exact ih hp
  | inCall _ ih => exact (ih hp.2).trans (Nat.succ_add_eq_add_succ _ _)

end Plan

/-- A plan without calls starts no task in one. -/
theorem Plan.Calm.starts {p : Plan α} (hp : p.Calm) {run : Runner} {active : Nat} {t : Task β}
    (h : p.Starts run m active t m') : active = 0 := by
  induction h with
  | task t m => rfl
  | first _ ih => exact ih hp.1
  | next _ _ ih => exact ih (hp.2 _)
  | within _ ih => exact ih hp
  | inCall _ ih => exact hp.1.elim

theorem Task.plan_keepsDepth (t : Task α) : (t.plan maxDepth).All KeepsDepth True :=
  t.plan_all maxDepth (fun h => h.steady.keepsDepth) keepsDepth_checkDepth

/-- **Everything gives back the number of calls that it found**, however it ends. -/
theorem Task.run_keepsDepth (t : Task α) : KeepsDepth (t.run maxDepth steps) := by
  induction steps generalizing α with
  | zero => cases t <;> exact fun _ _ => trivial
  | succ steps ih =>
    rw [Task.run_succ]
    exact Plan.follow_keepsDepth ih t.plan_keepsDepth

/-- The call of a script function starts one task, in the call, if one more call may be active: the
    statements of the function, after the functions among them have been declared. -/
theorem planCallFunction_starts_cases {pos : Position} {number : Nat} {f : Function}
    {args : List Value} {run : Runner} {active : Nat} {t : Task β}
    {motive : {β : Type} → Nat → Task β → Machine → Prop}
    (h : (planCallFunction maxDepth pos number f args).Starts run m active t m')
    (hbody : m.depth < maxDepth → motive 1 (.execAll f.body)
      ((m.beginCall number (Scope.ofCall number f args)).hoist f.body)) : motive active t m' := by
  cases h with
  | first h => cases h
  | next hdone h =>
    have hcheck : checkDepth maxDepth pos m = .done _ _ := hdone
    rw [checkDepth_apply] at hcheck
    split at hcheck <;> cases hcheck
    rename_i hdepth
    cases h with
    | first h =>
      cases h with
      | inCall h =>
        cases h with
        | first h => cases h
        | next hhoist h =>
          cases hhoist
          cases h
          exact hbody (Nat.lt_of_not_le hdepth)
    | @next _ _ _ _ _ _ _ _ _ flow _ _ h => cases flow <;> cases h

theorem planCallFunction_starts {pos : Position} {number : Nat} {f : Function} {args : List Value}
    {run : Runner} {active : Nat} {t : Task β}
    (h : (planCallFunction maxDepth pos number f args).Starts run m active t m') :
    active = 1 ∧ m.depth < maxDepth :=
  planCallFunction_starts_cases (motive := fun active _ _ => active = 1 ∧ m.depth < maxDepth) h
    fun hdepth => ⟨rfl, hdepth⟩

/-- A task starts others with the calls active that it finds, or with one more if that may be. -/
theorem Task.starts_depth {t : Task α} {t' : Task β} {active : Nat}
    (h : (t.plan maxDepth).Starts (Task.run maxDepth steps) m active t' m') :
    m'.depth = m.depth + active ∧ (m.depth ≤ maxDepth → m'.depth ≤ maxDepth) := by
  have hdepth := h.depth (Task.run_keepsDepth) t.plan_keepsDepth
  refine ⟨hdepth, fun hle => ?_⟩
  have hactive : active = 0 ∨ active = 1 ∧ m.depth < maxDepth := by
    revert h
    refine t.calm_or_call maxDepth (motive := fun t => (t.plan maxDepth).Starts _ m active t' m' →
      active = 0 ∨ active = 1 ∧ m.depth < maxDepth) (fun t ht h => ?_) fun pos run f args h => ?_
    · exact Or.inl (ht.starts h)
    · exact Or.inr (planCallFunction_starts h)
  omega

/-- **At every point of a run** the state carries the number of active calls, and no more are
    active than may be. -/
theorem Task.Comes.depth {t : Task α} {t' : Task β} {active left : Nat}
    (h : Task.Comes maxDepth steps t m active left t' m') :
    m'.depth = m.depth + active ∧ (m.depth ≤ maxDepth → m'.depth ≤ maxDepth) := by
  induction h with
  | here steps t m => exact ⟨rfl, id⟩
  | further hstarts _ ih =>
    obtain ⟨hdepth, hle⟩ := Task.starts_depth hstarts
    exact ⟨by rw [ih.1, hdepth, Nat.add_assoc], fun h => ih.2 (hle h)⟩

/-! ## Faults of depth -/

/-- A steady plan fails with too many calls only because a task of it does. -/
theorem Plan.Calm.failed {p : Plan α} (hp : p.Calm) {run : Runner} {n : Nat} {pos : Position}
    (h : p.follow run m = .failed ⟨.callDepthExceeded n, pos⟩ m') :
    ∃ (β : Type) (t : Task β) (m₁ m₂ : Machine), p.Starts run m 0 t m₁ ∧
      run t m₁ = .failed ⟨.callDepthExceeded n, pos⟩ m₂ := by
  induction p generalizing m m' with
  | effect x =>
    have := hp m trivial
    rw [show x m = _ from h] at this
    exact absurd rfl (this.1 n)
  | task t => exact ⟨_, t, m, m', .task t m, h⟩
  | bind p f ihp ihf =>
    rcases bind_failed_cases h with hx | ⟨a, n, hx, hf⟩
    · obtain ⟨β, t, m₁, m₂, hstarts, hfails⟩ := ihp hp.1 hx
      exact ⟨β, t, m₁, m₂, .first hstarts, hfails⟩
    · obtain ⟨β, t, m₁, m₂, hstarts, hfails⟩ := ihf a (hp.2 a) hf
      exact ⟨β, t, m₁, m₂, .next hx hstarts, hfails⟩
  | within scope p ih =>
    obtain ⟨n, hx, -⟩ := within_failed_iff.mp h
    obtain ⟨β, t, m₁, m₂, hstarts, hfails⟩ := ih hp hx
    exact ⟨β, t, m₁, m₂, .within hstarts, hfails⟩
  | inCall number scopes p ih => exact hp.1.elim

/-- The call of a script function fails with too many calls because of itself, or its body does. -/
theorem planCallFunction_failed {pos pos' : Position} {number : Nat} {f : Function}
    {args : List Value} {run : Runner} {n : Nat}
    (h : (planCallFunction maxDepth pos number f args).follow run m
      = .failed ⟨.callDepthExceeded n, pos'⟩ m') :
    (n = maxDepth ∧ pos' = pos ∧ maxDepth ≤ m.depth) ∨
    ∃ m₁ m₂, (planCallFunction maxDepth pos number f args).Starts run m 1 (.execAll f.body) m₁ ∧
      run (.execAll f.body) m₁ = .failed ⟨.callDepthExceeded n, pos'⟩ m₂ := by
  rcases bind_failed_cases h with hcheck | ⟨_, n₁, hcheck, h⟩
  · have hdepth : checkDepth maxDepth pos m = _ := hcheck
    rw [checkDepth_apply] at hdepth
    split at hdepth <;> cases hdepth
    exact Or.inl ⟨rfl, rfl, ‹_›⟩
  · rcases bind_failed_cases h with hbody | ⟨flow, n₂, -, hresult⟩
    · obtain ⟨n₂, hbody, -⟩ := inCall_failed_iff.mp hbody
      exact Or.inr ⟨_, n₂, .next hcheck (.first (.inCall (.next rfl (.task _ _)))), hbody⟩
    · cases flow <;> cases hresult

/-- A task that fails with too many calls comes to a call that may not begin. -/
theorem Task.run_failed {t : Task α} {n : Nat} {pos : Position}
    (h : t.run maxDepth steps m = .failed ⟨.callDepthExceeded n, pos⟩ m') :
    n = maxDepth ∧ ∃ active left run f args m₁,
      Task.Comes maxDepth steps t m active left (.callFunction pos run f args) m₁ ∧
      maxDepth ≤ m₁.depth := by
  induction steps generalizing α m m' with
  | zero => cases t <;> cases h
  | succ steps ih =>
    rw [Task.run_succ] at h
    revert h
    refine t.calm_or_call maxDepth (motive := fun t =>
      (t.plan maxDepth).follow (Task.run maxDepth steps) m
        = .failed ⟨.callDepthExceeded n, pos⟩ m' →
      n = maxDepth ∧ ∃ active left run f args m₁,
        Task.Comes maxDepth (steps + 1) t m active left (.callFunction pos run f args) m₁ ∧
        maxDepth ≤ m₁.depth) (fun t ht h => ?_) fun pos' run f args h => ?_
    · obtain ⟨β, t', m₁, m₂, hstarts, hfails⟩ := ht.failed h
      obtain ⟨hn, active, left, run, f, args, m₃, hcomes, hdepth⟩ := ih hfails
      exact ⟨hn, _, left, run, f, args, m₃, .further hstarts hcomes, hdepth⟩
    · rcases planCallFunction_failed h with ⟨hn, rfl, hdepth⟩ | ⟨m₁, m₂, hstarts, hfails⟩
      · exact ⟨hn, 0, _, run, f, args, m, .here _ _ m, hdepth⟩
      · obtain ⟨hn, active, left, run, f, args, m₃, hcomes, hdepth⟩ := ih hfails
        exact ⟨hn, _, left, run, f, args, m₃, .further hstarts hcomes, hdepth⟩

/-- What fails in the course of a run makes the whole run fail. -/
theorem Task.Comes.failed {t : Task α} {t' : Task β} {active left : Nat} {e : ScriptError}
    (h : Task.Comes maxDepth steps t m active left t' m')
    (hfails : ∃ n, t'.run maxDepth left m' = .failed e n) :
    ∃ n, t.run maxDepth steps m = .failed e n := by
  induction h with
  | here steps t m => exact hfails
  | further hstarts _ ih =>
    obtain ⟨n, hn⟩ := ih hfails
    obtain ⟨k, hk, -⟩ := hstarts.failed hn
    exact ⟨k, by rw [Task.run_succ, hk]⟩

end

/-! ## Higher limits -/

/-- Under a higher limit a run goes through the same states, until it makes a call too many. -/
def depthLockstep {maxDepth maxDepth' : Nat} (h : maxDepth ≤ maxDepth') :
    Lockstep (fun _ => True) maxDepth maxDepth' where
  Rel m m' := m' = m
  Allowed _ := True
  Meets _ := True
  Skips fault := fault = .callDepthExceeded maxDepth
  meets _ := trivial
  allowed_call _ _ _ := trivial
  depth h := congrArg Machine.depth h
  limit := Or.inr ⟨h, rfl⟩
  lookup h _ := by rw [h]
  read h _ := by rw [h]
  held h _ := by rw [h]
  write h _ := h ▸ Outcome.alike_refl _
  change h _ := h ▸ Outcome.alike_refl _
  append h := h ▸ Outcome.alike_refl _
  declare h _ := h ▸ Outcome.alike_refl _
  block _ h := by rw [h]
  leave h := by rw [h]
  call _ _ _ h := by rw [h]
  endCall h h' := by rw [h, h']

theorem runProgram_higher {maxDepth maxDepth' steps : Nat} (h : maxDepth ≤ maxDepth')
    (body : List Stmt) (env : Environment) :
    (∃ pos env', runProgram ⟨maxDepth, steps⟩ body env
      = .failed ⟨.callDepthExceeded maxDepth, pos⟩ env') ∨
    runProgram ⟨maxDepth', steps⟩ body env = runProgram ⟨maxDepth, steps⟩ body env := by
  have hbody : Stmt.OverList (fun _ => True) (fun _ => True) body :=
    ⟨fun _ _ => trivial, fun _ _ => trivial⟩
  have hclosed : Closed (fun _ => True) (fun _ => True) := fun _ _ =>
    ⟨fun _ _ => trivial, fun _ _ => trivial⟩
  have halike := (depthLockstep h).execProgram_alike hclosed steps hbody (fun _ _ => trivial)
    (Machine.start env.freshRun env).holds_true rfl
  rw [runProgram, runProgram]
  dsimp only
  generalize execProgram maxDepth steps body (.start env.freshRun env) = out at halike ⊢
  generalize execProgram maxDepth' steps body (.start env.freshRun env) = out' at halike ⊢
  cases halike with
  | done _ hrel => exact Or.inr (by rw [show _ = _ from hrel])
  | failed _ hrel => exact Or.inr (by rw [show _ = _ from hrel])
  | @skipped e m out hskip =>
    obtain ⟨fault, pos⟩ := e
    cases hskip
    exact Or.inl ⟨pos, m.env, rfl⟩
  | exhausted => exact Or.inr rfl

/-! ## Whole runs -/

theorem runProgram_failed_iff {limits : Limits} {body : List Stmt} {env : Environment}
    {e : ScriptError} :
    (∃ env', runProgram limits body env = .failed e env') ↔
      ∃ m, (Task.execAll body).run limits.maxDepth limits.steps
        ((Machine.start env.freshRun env).hoist body) = .failed e m := by
  constructor
  · rintro ⟨env', h⟩
    obtain ⟨m, hrun, -⟩ := runProgram_eq_failed.mp h
    exact ⟨m, hrun⟩
  · rintro ⟨m, hrun⟩
    exact ⟨m.env, runProgram_eq_failed.mpr ⟨m, hrun, rfl⟩⟩

/-- **The limit on calls is exact, and out of sight otherwise.**  Take any script, environment and
    limits.  At every point of the run the state carries the number of active calls, which is at
    most the limit.  The run fails because of the limit exactly if it comes to a call, with a step
    left for it, while as many calls are active as may be; then it fails there.  If it does not
    fail so, it ends in the same way under every higher limit. -/
theorem runProgram_depth (limits : Limits) (body : List Stmt) (env : Environment) :
    let start := (Machine.start env.freshRun env).hoist body
    (∀ {β : Type} active left (t : Task β) m,
      Task.Comes limits.maxDepth limits.steps (.execAll body) start active left t m →
      m.depth = active ∧ active ≤ limits.maxDepth) ∧
    (∀ n pos env', runProgram limits body env = .failed ⟨.callDepthExceeded n, pos⟩ env' →
      n = limits.maxDepth ∧ ∃ left run f args m,
        Task.Comes limits.maxDepth limits.steps (.execAll body) start limits.maxDepth left
          (.callFunction pos run f args) m) ∧
    (∀ left pos run f args m,
      Task.Comes limits.maxDepth limits.steps (.execAll body) start limits.maxDepth (left + 1)
        (.callFunction pos run f args) m →
      ∃ env', runProgram limits body env
        = .failed ⟨.callDepthExceeded limits.maxDepth, pos⟩ env') ∧
    ∀ maxDepth', limits.maxDepth ≤ maxDepth' →
      (∀ n pos env', runProgram limits body env ≠ .failed ⟨.callDepthExceeded n, pos⟩ env') →
      runProgram ⟨maxDepth', limits.steps⟩ body env = runProgram limits body env := by
  intro start
  have hstart : start.depth = 0 := Machine.depth_hoist _ body
  have hpoint : ∀ {β : Type} active left (t : Task β) m,
      Task.Comes limits.maxDepth limits.steps (.execAll body) start active left t m →
      m.depth = active ∧ active ≤ limits.maxDepth := by
    intro β active left t m hcomes
    have := hcomes.depth
    omega
  refine ⟨hpoint, fun n pos env' hfailed => ?_, fun left pos run f args m hcomes => ?_,
    fun maxDepth' hle hnot => ?_⟩
  · obtain ⟨m, hrun⟩ := runProgram_failed_iff.mp ⟨env', hfailed⟩
    obtain ⟨hn, active, left, run, f, args, m', hcomes, hdepth⟩ := Task.run_failed hrun
    obtain ⟨hactive, hle⟩ := hpoint active left _ m' hcomes
    obtain rfl : active = limits.maxDepth := by omega
    exact ⟨hn, left, run, f, args, m', hcomes⟩
  · have hcheck : checkDepth limits.maxDepth pos m
        = .failed ⟨.callDepthExceeded limits.maxDepth, pos⟩ m := by
      rw [checkDepth_apply, if_pos (Nat.le_of_eq (hpoint _ _ _ m hcomes).1.symm)]
    refine runProgram_failed_iff.mpr (hcomes.failed ⟨m, ?_⟩)
    rw [Task.run_succ]
    exact bind_of_failed hcheck
  · exact (runProgram_higher hle body env).resolve_left fun ⟨pos, env', h⟩ => hnot _ pos env' h

/-- A function that calls itself runs into the limit, one that calls another one does not. -/
theorem runProgram_depth_recursion :
    let f : Stmt := .function ⟨0, 0⟩ "f" [] [.expr (.call ⟨0, 15⟩ (.name ⟨0, 15⟩ "f") [])]
    let g : Stmt := .function ⟨1, 0⟩ "g" [] []
    let h : Stmt := .function ⟨2, 0⟩ "h" [] [.expr (.call ⟨2, 15⟩ (.name ⟨2, 15⟩ "g") [])]
    let call (name : String) : Stmt := .expr (.call ⟨3, 0⟩ (.name ⟨3, 0⟩ name) [])
    (∃ left run f' args m, Task.Comes 2 50 (.execAll [f, call "f"])
      ((Machine.start 1 []).hoist [f, call "f"]) 2 left (.callFunction ⟨0, 15⟩ run f' args) m) ∧
    runProgram ⟨64, 50⟩ [g, h, call "h"] [] = runProgram ⟨2, 50⟩ [g, h, call "h"] [] := by
  intro f g h call
  refine ⟨((runProgram_depth ⟨2, 50⟩ [f, call "f"] []).2.1 2 ⟨0, 15⟩ _ rfl).2, ?_⟩
  exact (runProgram_depth ⟨2, 50⟩ [g, h, call "h"] []).2.2.2 64 (by decide)
    fun n pos env' hfailed => by cases hfailed

end Stencil.Script
