/-
  Functions write through to the environment.

  A call brings scopes of its own: the frame with the parameters and around it the name of the
  function.  What is bound there besides, by blocks and declarations, the body says.  So while the
  body runs, however deep in blocks and loops, no scope binds a name that is none of these
  (`Task.Comes.free`), and an assignment to such a name goes to the environment.
-/
import Stencil.Proofs.Script.Run.Depth
import Stencil.Proofs.Script.Run.Steps
import Stencil.Proofs.Script.Run.Writes

namespace Stencil.Script

open Effect

/-! ## Names that no scope binds -/

theorem Scope.get?_withFunctions {s : Scope} {run : Nat} {fs : List Function} {name : String}
    (h : ∀ f ∈ fs, f.name ≠ name) : (s.withFunctions run fs).get? name = s.get? name := by
  unfold withFunctions
  induction fs generalizing s with
  | nil => rfl
  | cons f rest ih =>
    obtain ⟨hne, hrest⟩ := List.forall_mem_cons.mp h
    rw [List.foldl_cons, ih hrest, Scope.get?_bind, if_neg hne.symm]

namespace Machine

/-- No scope in force binds the name. -/
def Free (m : Machine) (name : String) : Prop := findBinding? m.scopes name = none

variable {m m' : Machine} {name : String}

theorem free_iff : m.Free name ↔ ∀ s ∈ m.scopes, s.get? name = none := by
  rw [Free, findBinding?, List.findSome?_eq_none_iff]

theorem Free.enter_block (h : m.Free name) : (m.enter .block).Free name :=
  free_iff.mpr (List.forall_mem_cons.mpr ⟨rfl, free_iff.mp h⟩)

theorem Free.leave (h : m.Free name) : m.leave.Free name :=
  free_iff.mpr fun s hs => free_iff.mp h s (List.mem_of_mem_tail hs)

theorem Free.bindAt {other : String} (h : m.Free name) (hne : other ≠ name) (i : Nat)
    (b : Binding) : Free { m with scopes := bindAt m.scopes i other b } name := by
  refine free_iff.mpr fun s hs => ?_
  obtain ⟨j, hj⟩ := List.mem_iff_getElem?.mp hs
  dsimp only at hj
  rw [getElem?_bindAt] at hj
  split at hj
  · obtain ⟨t, ht, rfl⟩ := Option.map_eq_some_iff.mp hj
    rw [Scope.get?_bind, if_neg hne.symm]
    exact free_iff.mp h t (List.mem_of_getElem? ht)
  · exact free_iff.mp h s (List.mem_of_getElem? hj)

/-- What is bound in a scope is another name. -/
theorem Free.ne {other : String} (h : m.Free name) {i : Nat} {s : Scope} {b : Binding}
    (hs : m.scopes[i]? = some s) (hget : s.get? other = some b) : other ≠ name := by
  rintro rfl
  rw [free_iff.mp h s (List.mem_of_getElem? hs)] at hget
  cases hget

theorem Free.assign {other : String} {v : Value} (h : m.Free name)
    (hassign : m.assign other v = .ok m') : m'.Free name := by
  rcases assign_cases hassign with ⟨i, s, b, hs, hget, -, rfl⟩ | ⟨-, rfl⟩
  · exact h.bindAt (h.ne hs hget) i _
  · exact h

theorem Free.setVariable {other : String} {v : Value} (h : m.Free name)
    (hold : m.changeable? other = some v) (v' : Value) : (m.setVariable other v').Free name := by
  rcases setVariable_cases hold v' with ⟨i, s, b, hs, hget, -, heq⟩ | ⟨-, heq⟩ <;> rw [heq]
  · exact h.bindAt (h.ne hs hget) i _
  · exact h

theorem Free.declare {kind : DeclKind} {other : String} {v : Value} (h : m.Free name)
    (hne : other ≠ name) (hdeclare : m.declare kind other v = .ok m') : m'.Free name := by
  rcases declare_cases hdeclare with ⟨-, ⟨i, s, -, -, rfl⟩ | ⟨-, rfl⟩⟩ |
    ⟨-, ⟨s, -, -, rfl⟩ | ⟨-, -, rfl⟩⟩
  · exact h.bindAt hne i _
  · exact h
  · exact h.bindAt hne 0 _
  · exact h

theorem Free.hoist (h : m.Free name) {body : List Stmt}
    (hne : ∀ f ∈ declaredFunctions body, f.name ≠ name) : (m.hoist body).Free name := by
  cases hscopes : m.scopes with
  | nil =>
    rw [hoist_of_nil body hscopes]
    exact h
  | cons s outer =>
    rw [hoist_of_cons body hscopes]
    obtain ⟨hs, houter⟩ := List.forall_mem_cons.mp (hscopes ▸ free_iff.mp h)
    refine free_iff.mpr (List.forall_mem_cons.mpr ⟨?_, houter⟩)
    rw [Scope.get?_withFunctions hne, hs]

/-- In a call, only the parameters and the name of the function are bound at first. -/
theorem free_beginCall (m : Machine) (run : Nat) {f : Function} (args : List Value)
    (hparam : name ∉ f.params) (hname : name ≠ f.name) :
    (m.beginCall run (Scope.ofCall run f args)).Free name := by
  refine free_iff.mpr (List.forall_mem_cons.mpr ⟨?_, List.forall_mem_singleton.mpr ?_⟩)
  · refine Dict.get?_ofList_eq_none fun p hp => ?_
    obtain ⟨⟨param, i⟩, hmem, rfl⟩ := List.mem_map.mp hp
    rintro rfl
    exact hparam (List.fst_mem_of_mem_zipIdx hmem)
  · rw [Scope.get?, Dict.get?, if_neg hname]
    rfl

end Machine

/-! ## Code that does not bind a name -/

section

variable {α β : Type} {maxDepth steps : Nat} {m m' : Machine} {name : String} {pos : Position}

/-- However it ends, the effect does not bind the name in a scope. -/
def KeepsFree {α : Type} (name : String) (x : Effect α) : Prop :=
  Keeps (·.Free name) (fun _ => True) x fun _ => True

theorem KeepsFree.of_done {x : Effect α} (h : KeepsFree name x) (hm : m.Free name) {a : α}
    (hx : x m = .done a m') : m'.Free name := by
  have := h m hm
  rw [hx] at this
  exact this.2

theorem keepsFree_of_still {x : Effect α} (h : Still x) : KeepsFree name x := by
  intro m hm
  rcases h m with ⟨a, hx⟩ | ⟨e, hx⟩ <;> rw [hx] <;> exact ⟨trivial, hm⟩

theorem keepsFree_writeSlot (s : Slot) (v : Value) : KeepsFree name (writeSlot pos s v) := by
  intro m hm
  unfold writeSlot
  cases h : s.write v m with
  | error fault => exact ⟨trivial, hm⟩
  | ok m' =>
    refine ⟨trivial, ?_⟩
    rcases Slot.write_cases h with hassign | ⟨w, w', hw, -, rfl⟩
    · exact hm.assign hassign
    · exact hm.setVariable hw w'

theorem keepsFree_changeArray (s : Slot) (pop : Bool) (items args : List Value) :
    KeepsFree name (changeArray pos s pop items args) := by
  intro m hm
  unfold changeArray
  dsimp only
  generalize (if pop then items.dropLast else items ++ args) = changed
  cases h : s.modify (fun _ => .ok (.array changed, ())) m with
  | error fault => exact ⟨trivial, hm⟩
  | ok out =>
    obtain ⟨w, w', hw, -, hout⟩ := Slot.modify_cases h
    exact ⟨trivial, hout ▸ hm.setVariable hw w'⟩

theorem keepsFree_appendOutput (args : List Value) : KeepsFree name (appendOutput pos args) := by
  intro m hm
  rw [appendOutput_apply]
  cases Dict.get? m.env outputName with
  | none => exact ⟨trivial, hm⟩
  | some v => cases v <;> exact ⟨trivial, hm⟩

theorem keepsFree_declareName (kind : DeclKind) {other : String} (hne : other ≠ name) (v : Value) :
    KeepsFree name (declareName pos kind other v) := by
  intro m hm
  unfold declareName
  cases h : m.declare kind other v with
  | error fault => exact ⟨trivial, hm⟩
  | ok m' => exact ⟨trivial, hm.declare hne h⟩

theorem Elementary.keepsFree {declares : Bool} {x : Effect α}
    (h : Elementary declares (· ≠ name) x) : KeepsFree name x :=
  of_elementary h keepsFree_of_still (fun _ => keepsFree_writeSlot) (fun _ => keepsFree_changeArray)
    (fun _ => keepsFree_appendOutput) (fun _ kind _ v hne => keepsFree_declareName kind hne v)
    fun _ hne _ hm => ⟨trivial, hm.hoist hne⟩

theorem Plan.Made.keepsFree {declares : Bool} {p : Plan α} (h : p.Made declares (· ≠ name))
    {run : Runner} (hrun : ∀ {β : Type} (t : Task β), (∀ u ∈ t.uses, BindsIn (· ≠ name) u) →
      KeepsFree name (run t)) : KeepsFree name (p.follow run) := by
  induction p generalizing declares with
  | effect x => exact Elementary.keepsFree h
  | task t => exact hrun t h.2
  | bind p f ihp ihf => exact (ihp h.1).bind fun a _ => ihf a (h.2 a)
  | within scope p ih =>
    obtain ⟨rfl, hp⟩ := h
    exact (ih hp).within (fun m hm => hm.enter_block) fun m hm => hm.leave
  | inCall number scopes p ih => exact h.elim

/-- A call gives the scopes back as it found them. -/
theorem keepsFree_inCall (number : Nat) (scopes : List Scope) (x : Effect α) :
    KeepsFree name (inCall number scopes x) := by
  intro m hm
  rw [inCall_apply]
  cases x (m.beginCall number scopes) with
  | done a n => exact ⟨trivial, hm⟩
  | failed e n => exact ⟨trivial, hm⟩
  | exhausted => trivial

theorem planCallFunction_keepsFree (pos : Position) (number : Nat) (f : Function)
    (args : List Value) (run : Runner) :
    KeepsFree name ((planCallFunction maxDepth pos number f args).follow run) := by
  have hcheck : KeepsFree name (checkDepth maxDepth pos) :=
    keepsFree_of_still (still_checkDepth maxDepth pos)
  refine hcheck.bind fun _ _ => (keepsFree_inCall number _ _).bind fun flow _ => ?_
  cases flow <;> exact keepsFree_of_still fun m => Or.inl ⟨_, rfl⟩

/-- **Code binds no names but those that it declares.** -/
theorem Task.run_keepsFree (t : Task α) (ht : ∀ u ∈ t.uses, BindsIn (· ≠ name) u) :
    KeepsFree name (t.run maxDepth steps) := by
  induction steps generalizing α with
  | zero =>
    rw [Task.run_zero]
    exact keeps_exhausted
  | succ steps ih =>
    rw [Task.run_succ]
    cases hcall : t.isCall with
    | false => exact (t.plan_made maxDepth hcall ht).keepsFree fun t ht => ih t ht
    | true =>
      cases t with
      | callFunction pos number f args => exact planCallFunction_keepsFree pos number f args _
      | _ => cases hcall

/-! ## In the body of a function -/

theorem Plan.Made.starts {declares : Bool} {p : Plan α} (hp : p.Made declares (· ≠ name))
    {active : Nat} {t : Task β} (h : p.Starts (Task.run maxDepth steps) m active t m')
    (hm : m.Free name) : (∀ u ∈ t.uses, BindsIn (· ≠ name) u) ∧ m'.Free name := by
  induction h generalizing declares with
  | task t m => exact ⟨hp.2, hm⟩
  | first _ ih => exact ih hp.1 hm
  | next hdone _ ih =>
    exact ih (hp.2 _) ((hp.1.keepsFree fun t ht => t.run_keepsFree ht).of_done hm hdone)
  | within _ ih =>
    obtain ⟨rfl, hp⟩ := hp
    exact ih hp hm.enter_block
  | inCall _ _ => exact hp.elim

/-- Wherever code comes without a call, no scope binds a name that the code does not declare. -/
theorem Task.Comes.free {t : Task α} {t' : Task β} {active left : Nat}
    (h : Task.Comes maxDepth steps t m active left t' m') (hactive : active = 0)
    (ht : ∀ u ∈ t.uses, BindsIn (· ≠ name) u) (hm : m.Free name) : m'.Free name := by
  induction h with
  | here _ _ _ => exact hm
  | @further _ _ _ _ active active' _ t t' _ _ _ _ hstarts _ ih =>
    obtain ⟨hzero, hzero'⟩ : active = 0 ∧ active' = 0 := by omega
    cases hcall : t.isCall with
    | false =>
      obtain ⟨ht', hm'⟩ := (t.plan_made maxDepth hcall ht).starts hstarts hm
      exact ih hzero' ht' hm'
    | true =>
      cases t with
      | callFunction pos number f args =>
        have := (planCallFunction_starts hstarts).1
        omega
      | _ => cases hcall

/-- A call starts its body, where no name is bound but the parameters, the name of the function and
    what the body declares. -/
theorem planCallFunction_starts_free {pos : Position} {number : Nat} {f : Function}
    {args : List Value} {run : Runner} {active : Nat} {t : Task β}
    (h : (planCallFunction maxDepth pos number f args).Starts run m active t m')
    (hparam : name ∉ f.params) (hname : name ≠ f.name)
    (hbody : ∀ u ∈ Stmt.usesList f.body, BindsIn (· ≠ name) u) :
    (∀ u ∈ t.uses, BindsIn (· ≠ name) u) ∧ m'.Free name := by
  cases h with
  | first h => cases h
  | next _ h =>
    cases h with
    | first h =>
      cases h with
      | inCall h =>
        cases h with
        | first h => cases h
        | next hdone h =>
          cases hdone
          cases h
          exact ⟨hbody, (Machine.free_beginCall _ number args hparam hname).hoist fun g hg =>
            hbody _ (mem_usesList_of_declared hg) rfl⟩
    | @next _ _ _ _ _ _ _ _ _ flow _ _ h => cases flow <;> cases h

/-- Where no scope binds the name, an assignment writes the environment. -/
theorem eval_assign_free {left : Nat} {pos npos : Position} {value : Expr} {v : Value}
    (hm : m.Free name)
    (h : eval maxDepth left (.assign pos none (.name npos name) value) m = .done v m') :
    m'.Free name ∧ Dict.get? m'.env name = some v := by
  match left with
  | 0 => cases h
  | 1 => cases h
  | left + 2 =>
    obtain ⟨slot, k, hslot, h⟩ := bind_done_iff.mp h
    cases hslot
    obtain ⟨w, n, hvalue, h⟩ := bind_done_iff.mp h
    obtain ⟨u, n', hwrite, h⟩ := bind_done_iff.mp h
    cases h
    have hkeeps : KeepsFree name ((Task.eval value).run maxDepth (left + 1)) :=
      Task.run_keepsFree (.eval value) fun _ hu => absurd hu List.not_mem_nil
    have hn : n.Free name := hkeeps.of_done hm hvalue
    unfold writeSlot at hwrite
    split at hwrite <;> cases hwrite
    rename_i hassign
    have hassign : n.assign name v = .ok m' := hassign
    rw [Machine.assign, hn] at hassign
    dsimp only at hassign
    split at hassign <;> cases hassign
    exact ⟨hn, Dict.get?_insert_self _ _ _⟩

/-- **Functions write through to the environment.**  Take any function and any call of it, and a
    name that is not the function's own, none of its parameters and declared nowhere in its body.
    Whenever its body comes to an assignment of that name, however deep in blocks and loops but in
    no other call, and the assignment succeeds with a value, the variable of the environment has
    that value.  If the call then returns without another write to the variable, and what the call
    is part of ends without one, the variable still has it there; outside of all scopes, the name
    reads as that value. -/
theorem callFunction_writes_through {f : Function} (hparam : name ∉ f.params)
    (hname : name ≠ f.name) (hbody : ∀ u ∈ Stmt.usesList f.body, u.1.binds = true → u.2 ≠ name)
    {pos apos npos : Position} {number left : Nat} {args : List Value} {m₁ m₂ : Machine}
    {value : Expr} {v : Value}
    (hcomes : Task.Comes maxDepth steps (.callFunction pos number f args) m 1 left
      (.eval (.assign apos none (.name npos name) value)) m₁)
    (hassign : eval maxDepth left (.assign apos none (.name npos name) value) m₁ = .done v m₂) :
    findBinding? m₂.scopes name = none ∧ Dict.get? m₂.env name = some v ∧
    ∀ {α : Type} (steps' active : Nat) (t : Task α) (m₀ k n : Machine) (r : Value) (a : α),
      Task.Passes maxDepth name (.eval (.assign apos none (.name npos name) value)) left m₁ v m₂
        steps (.callFunction pos number f args) m 1 r k →
      Task.Passes maxDepth name (.callFunction pos number f args) steps m r k
        steps' t m₀ active a n →
      Dict.get? n.env name = some v ∧
      (n.scopes = [] → ∀ steps p, eval maxDepth (steps + 1) (.name p name) n = .done v n) := by
  have hfree : m₁.Free name := by
    generalize hactive : 1 = active at hcomes
    cases hcomes with
    | further hstarts hrest =>
      have hone := (planCallFunction_starts hstarts).1
      obtain ⟨huses, hm⟩ := planCallFunction_starts_free hstarts hparam hname hbody
      exact hrest.free (by omega) huses hm
  obtain ⟨hscopes, henv⟩ := eval_assign_free hfree hassign
  refine ⟨hscopes, henv, fun steps' active t m₀ k n r a hcall hrun => ?_⟩
  have hvalue : Dict.get? n.env name = some v := by rw [hrun.get?, hcall.get?, henv]
  refine ⟨hvalue, fun houtside steps p => ?_⟩
  have hlookup : n.lookup? name = some v := by
    rw [Machine.lookup?, houtside, hvalue]
    rfl
  rw [eval_name_eq, nameValue_apply, hlookup]

/-- What a function assigns is there for the statements after its call. -/
theorem callFunction_writes_through_read :
    let assign : Expr := .assign ⟨0, 15⟩ none (.name ⟨0, 15⟩ "x") (.text ⟨0, 19⟩ "a")
    let f : Function := ⟨⟨0, 0⟩, "f", ["p"], [.expr assign]⟩
    let call : Stmt := .expr (.call ⟨1, 0⟩ (.name ⟨1, 0⟩ "f") [])
    let m := Machine.start 2 [("f", .function 1 f)]
    "x" ∉ f.params ∧ "x" ≠ f.name ∧
    (∀ u ∈ Stmt.usesList f.body, u.1.binds = true → u.2 ≠ "x") ∧
    ∃ n, execAll 64 20 [call] m = .done .next n ∧ Dict.get? n.env "x" = some (.text "a") ∧
      eval 64 1 (.name ⟨2, 0⟩ "x") n = .done (.text "a") n := by
  intro assign f call m
  have hparam : "x" ∉ f.params := by decide
  have hname : "x" ≠ f.name := by decide
  have hbody : ∀ u ∈ Stmt.usesList f.body, u.1.binds = true → u.2 ≠ "x" := by decide
  refine ⟨hparam, hname, hbody, ?_⟩
  let n : Machine := ⟨[("f", .function 1 f), ("x", .text "a")], [], [], 0, 2⟩
  -- from the assignment on, nothing is left to do but to end what has begun
  have hinside : Task.Passes 64 "x" (.eval assign) 13
      ((m.beginCall 1 (Scope.ofCall 1 f [])).hoist f.body) (.text "a") _ 16
      (.callFunction ⟨1, 0⟩ 1 f []) m (1 + (0 + (0 + 0))) .undefined n :=
    .further (.next rfl (.first (.inCall (.next rfl (.task rfl))) rfl (Plan.spares_pure _)))
      (.further (.first (.task rfl) rfl
        (Plan.spares_task (Task.spares_of_plan (Plan.spares_pure _))))
        (.further (.first (.task rfl) rfl (Plan.spares_pure _)) (.here rfl)))
  have houtside : Task.Passes 64 "x" (.callFunction ⟨1, 0⟩ 1 f []) 16 m .undefined n 20
      (.execAll [call]) m (0 + (0 + (0 + (0 + 0)))) .next n :=
    .further (.first (.task rfl) rfl
        (Plan.spares_task (Task.spares_of_plan (Plan.spares_pure _))))
      (.further (.first (.task rfl) rfl (Plan.spares_pure _))
        (.further (.next rfl (.next rfl (.task rfl)))
          (.further (.task rfl) (.here rfl))))
  obtain ⟨-, -, hafter⟩ := callFunction_writes_through hparam hname hbody hinside.comes rfl
  obtain ⟨hvalue, hread⟩ := hafter 20 _ _ m n n .undefined Flow.next hinside houtside
  exact ⟨n, rfl, hvalue, hread rfl 0 ⟨2, 0⟩⟩

/-- What a function assigns to its own name stays in the call. -/
theorem callFunction_own_name :
    let assign : Expr := .assign ⟨0, 15⟩ none (.name ⟨0, 15⟩ "f") (.text ⟨0, 19⟩ "a")
    let f : Function := ⟨⟨0, 0⟩, "f", [], [.expr assign]⟩
    let m := Machine.start 2 [("f", .function 1 f)]
    "f" ∉ f.params ∧ (∀ u ∈ Stmt.usesList f.body, u.1.binds = true → u.2 ≠ "f") ∧
    ∃ m₁ m₂ n, Task.Comes 64 16 (.callFunction ⟨1, 0⟩ 1 f []) m 1 13 (.eval assign) m₁ ∧
      eval 64 13 assign m₁ = .done (.text "a") m₂ ∧
      callFunction 64 16 ⟨1, 0⟩ 1 f [] m = .done .undefined n ∧
      Dict.get? m₂.env "f" = some (.function 1 f) ∧ Dict.get? n.env "f" = some (.function 1 f) ∧
      eval 64 1 (.name ⟨2, 0⟩ "f") n = .done (.function 1 f) n := by
  intro assign f m
  have hcomes : Task.Comes 64 16 (.callFunction ⟨1, 0⟩ 1 f []) m (1 + (0 + (0 + 0))) 13
      (.eval assign) ((m.beginCall 1 (Scope.ofCall 1 f [])).hoist f.body) :=
    .further (.next rfl (.first (.inCall (.next rfl (.task _ _)))))
      (.further (.first (.task _ _)) (.further (.first (.task _ _)) (.here 13 _ _)))
  exact ⟨by decide, by decide, _, _, _, hcomes, rfl, rfl, rfl, rfl, rfl⟩

end

end Stencil.Script
