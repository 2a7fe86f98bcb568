/-
  The values in the state of a run.

  They are the values in its environment and in its scopes.  Looking a name up gives a value of the
  state, binding and assigning put one value into it, and a slot is read and written along with the
  value around it; so each of these keeps what all values in the state have in common, if the values
  in arrays and objects have it too.  The case that comes up most is that of the functions in them
  (`Machine.Holds`).
-/
import Stencil.Proofs.Script.Run.Values

namespace Stencil.Script

open Value (Hereditary Holds holds_undefined holds_object holds_function)

variable {F : Function → Prop} {H : Value → Prop}

/-! ## Properties of all values -/

/-- Every value in the environment has the property. -/
def Environment.All (H : Value → Prop) (env : Environment) : Prop := ∀ p ∈ env, H p.2

/-- Every value bound in the scope has the property. -/
def Scope.All (H : Value → Prop) (s : Scope) : Prop := ∀ p ∈ s.names, H p.2.value

/-- Every value in the state has the property. -/
structure Machine.All (H : Value → Prop) (m : Machine) : Prop where
  env : m.env.All H
  scopes : ∀ s ∈ m.scopes, s.All H

/-! ## Scopes -/

theorem Scope.block_all : Scope.block.All H := fun _ hp => by cases hp

theorem Scope.All.bind {s : Scope} (h : s.All H) (name : String) {b : Binding}
    (hb : H b.value) : (s.bind name b).All H :=
  Dict.forall_insert (Q := fun b : Binding => H b.value) h name hb

theorem Scope.All.get? {s : Scope} (h : s.All H) {name : String} {b : Binding}
    (hb : s.get? name = some b) : H b.value :=
  Dict.forall_get? (Q := fun b : Binding => H b.value) h hb

/-- The scopes of a call hold the arguments and the function itself. -/
theorem Scope.ofCall_all [Hereditary H] {run : Nat} {f : Function} {args : List Value}
    (hf : H (.function run f)) (hargs : ∀ v ∈ args, H v) :
    ∀ s ∈ Scope.ofCall run f args, s.All H := by
  intro s hs
  simp only [Scope.ofCall, List.mem_cons, List.not_mem_nil, or_false] at hs
  rcases hs with rfl | rfl
  · refine Dict.forall_ofList (Q := fun b : Binding => H b.value) fun p hp => ?_
    obtain ⟨⟨name, i⟩, -, rfl⟩ := List.mem_map.mp hp
    exact Value.holds_getD hargs i
  · intro p hp
    rw [List.mem_singleton.mp hp]
    exact hf

section

variable {scopes : List Scope} (h : ∀ s ∈ scopes, s.All H)

include h

theorem findBinding?_all {name : String} {b : Binding}
    (hb : findBinding? scopes name = some b) : H b.value := by
  obtain ⟨s, hs, hget⟩ := List.exists_of_findSome?_eq_some hb
  exact (h s hs).get? hget

theorem setBinding_all (name : String) {v : Value} (hv : H v) :
    ∀ s ∈ setBinding scopes name v, s.All H := by
  induction scopes with
  | nil => exact h
  | cons s outer ih =>
    rw [List.forall_mem_cons] at h
    rw [setBinding]
    split
    · exact List.forall_mem_cons.mpr ⟨h.1.bind name hv, h.2⟩
    · exact List.forall_mem_cons.mpr ⟨h.1, ih h.2⟩

theorem bindInFrame?_all {name : String} {b : Binding} (hb : H b.value)
    {scopes' : List Scope} (hbind : bindInFrame? scopes name b = some scopes') :
    ∀ s ∈ scopes', s.All H := by
  induction scopes generalizing scopes' with
  | nil => cases hbind
  | cons s outer ih =>
    rw [List.forall_mem_cons] at h
    rw [bindInFrame?] at hbind
    split at hbind
    · cases hbind
      exact List.forall_mem_cons.mpr ⟨h.1.bind name hb, h.2⟩
    · obtain ⟨outer', houter, rfl⟩ := Option.map_eq_some_iff.mp hbind
      exact List.forall_mem_cons.mpr ⟨h.1, ih h.2 houter⟩

end

/-! ## Names -/

theorem Machine.run_bindInnermost (m : Machine) (name : String) (v : Value) :
    (m.bindInnermost name v).run = m.run := by
  unfold Machine.bindInnermost
  split <;> rfl

namespace Machine.All

variable {m : Machine} (h : m.All H)

include h

theorem lookup? [Hereditary H] {name : String} {v : Value} (hv : m.lookup? name = some v) :
    H v := by
  unfold Machine.lookup? at hv
  split at hv
  · cases hv
    exact findBinding?_all h.scopes ‹_›
  · split at hv
    · cases hv
      exact Dict.forall_get? h.env ‹_›
    · exact global?_holds hv

theorem setEnv (name : String) {v : Value} (hv : H v) : (m.setEnv name v).All H :=
  ⟨Dict.forall_insert h.env name hv, h.scopes⟩

theorem bindInnermost (name : String) {v : Value} (hv : H v) :
    (m.bindInnermost name v).All H := by
  unfold Machine.bindInnermost
  split
  · exact h.setEnv name hv
  · rename_i s outer hscopes
    have hs := h.scopes
    rw [hscopes, List.forall_mem_cons] at hs
    exact ⟨h.env, List.forall_mem_cons.mpr ⟨hs.1.bind name hv, hs.2⟩⟩

theorem declare (kind : DeclKind) (name : String) {v : Value} (hv : H v) :
    Gives (m.declare kind name v) (Machine.All H) := by
  cases kind with
  | varDecl =>
    simp only [Machine.declare]
    split
    · exact ⟨h.env, bindInFrame?_all h.scopes hv ‹_›⟩
    · exact h.setEnv name hv
  | letDecl | constDecl =>
    simp only [Machine.declare]
    split
    · split
      · rfl
      · exact ⟨(h.setEnv name hv).env, h.scopes⟩
    · rename_i s outer hscopes
      have hs := h.scopes
      rw [hscopes, List.forall_mem_cons] at hs
      split
      · rfl
      · exact ⟨h.env, List.forall_mem_cons.mpr ⟨hs.1.bind name hv, hs.2⟩⟩

theorem assign (name : String) {v : Value} (hv : H v) :
    Gives (m.assign name v) (Machine.All H) := by
  unfold Machine.assign
  split
  · split
    · rfl
    · exact ⟨h.env, setBinding_all h.scopes name hv⟩
  · split
    · rfl
    · exact h.setEnv name hv

theorem changeable? {name : String} {v : Value} (hv : m.changeable? name = some v) :
    H v := by
  unfold Machine.changeable? at hv
  split at hv
  · cases hv
    exact findBinding?_all h.scopes ‹_›
  · exact Dict.forall_get? h.env hv

theorem setVariable (name : String) {v : Value} (hv : H v) :
    (m.setVariable name v).All H := by
  unfold Machine.setVariable
  split
  · exact ⟨h.env, setBinding_all h.scopes name hv⟩
  · exact h.setEnv name hv

/-- Declaring functions in front puts these functions into the state. -/
theorem hoist {body : List Stmt}
    (hbody : ∀ f ∈ declaredFunctions body, H (.function m.run f)) : (m.hoist body).All H := by
  unfold Machine.hoist
  generalize declaredFunctions body = fs at hbody
  induction fs generalizing m with
  | nil => exact h
  | cons f rest ih =>
    rw [List.forall_mem_cons] at hbody
    exact ih (h.bindInnermost f.name hbody.1) (by rw [Machine.run_bindInnermost]; exact hbody.2)

/-! ## Slots -/

section

variable [Hereditary H]

theorem slot_read (s : Slot) : Gives (s.read m) H := by
  unfold Slot.read
  split
  · rfl
  · exact (Value.readPath_yields _ (h.lookup? ‹_›)).gives

theorem slot_modify {α : Type} {change : Value → Except Fault (Value × α)} {R : α → Prop}
    (hchange : ∀ v, H v → Yields (change v) fun out => H out.1 ∧ R out.2)
    (s : Slot) : Gives (s.modify change m) fun out => out.1.All H ∧ R out.2 := by
  unfold Slot.modify
  split
  · rfl
  · rename_i v hv
    have hmodify := (Value.modifyAt_yields hchange s.path (h.changeable? hv)).gives
    split <;> rename_i hout <;> rw [hout] at hmodify
    · exact hmodify
    · exact ⟨h.setVariable _ hmodify.1, hmodify.2⟩

/-- A value put in the place of the one in the slot. -/
theorem slot_replace (s : Slot) {v : Value} (hv : H v) :
    Gives (s.modify (fun _ => .ok (v, ())) m) fun out => out.1.All H := by
  have hreplace : ∀ w, H w → Yields (Except.ok (v, ()) : Except Fault (Value × Unit))
      fun out => H out.1 ∧ True := fun _ _ => ⟨hv, trivial⟩
  have hmodify := h.slot_modify (R := fun _ => True) hreplace s
  cases hout : s.modify (fun _ => .ok (v, ())) m with
  | ok out =>
    rw [hout] at hmodify
    exact hmodify.1
  | error fault =>
    rw [hout] at hmodify
    exact hmodify

theorem slot_write (s : Slot) {v : Value} (hv : H v) :
    Gives (s.write v m) (Machine.All H) := by
  unfold Slot.write
  split
  · exact h.assign _ hv
  · rename_i key _
    refine (h.slot_modify (R := fun _ => True) (fun w hw => ?_) _).map fun out hout => hout.1
    exact (Value.setIndex_yields hw key hv).map fun w' hw' => ⟨hw', trivial⟩

theorem slot_held (s : Slot) : Gives (s.held m) H := by
  have hsame : ∀ v, H v → Yields (Except.ok (v, v) : Except Fault (Value × Value))
      fun out => H out.1 ∧ H out.2 := fun _ hv => ⟨hv, hv⟩
  exact (h.slot_modify hsame s).map fun _ hout => hout.2

end

end Machine.All

/-! ## Functions in the state -/

/-- Every function found in the environment has the property. -/
def Environment.Holds (F : Function → Prop) (env : Environment) : Prop :=
  ∀ f ∈ Value.functionsMembers env, F f

theorem Environment.holds_iff {env : Environment} :
    env.Holds F ↔ ∀ p ∈ env, Value.Holds F p.2 := Value.forall_functionsMembers

/-- Every function bound in the scope has the property. -/
def Scope.Holds (F : Function → Prop) (s : Scope) : Prop := ∀ p ∈ s.names, Value.Holds F p.2.value

/-- Every function found in the state has the property. -/
structure Machine.Holds (F : Function → Prop) (m : Machine) : Prop where
  env : m.env.Holds F
  scopes : ∀ s ∈ m.scopes, s.Holds F

theorem Machine.holds_true (m : Machine) : m.Holds fun _ => True :=
  ⟨fun _ _ => trivial, fun _ _ _ _ _ _ => trivial⟩

theorem Environment.Holds.start {env : Environment} (h : env.Holds F) (run : Nat) :
    (Machine.start run env).Holds F :=
  ⟨h, fun _ hs => absurd hs List.not_mem_nil⟩

theorem Machine.holds_iff {m : Machine} : m.Holds F ↔ m.All (Value.Holds F) :=
  ⟨fun h => ⟨Environment.holds_iff.mp h.env, h.scopes⟩,
    fun h => ⟨Environment.holds_iff.mpr h.env, h.scopes⟩⟩

theorem Scope.block_holds : Scope.block.Holds F := block_all

theorem Scope.ofCall_holds {run : Nat} {f : Function} {args : List Value} (hf : F f)
    (hargs : ∀ v ∈ args, Value.Holds F v) : ∀ s ∈ Scope.ofCall run f args, s.Holds F :=
  ofCall_all (holds_function.mpr hf) hargs

namespace Machine.Holds

variable {m : Machine} (h : m.Holds F)

include h

theorem lookup? {name : String} {v : Value} (hv : m.lookup? name = some v) : Value.Holds F v :=
  (holds_iff.mp h).lookup? hv

theorem setEnv (name : String) {v : Value} (hv : Value.Holds F v) : (m.setEnv name v).Holds F :=
  holds_iff.mpr ((holds_iff.mp h).setEnv name hv)

theorem declare (kind : DeclKind) (name : String) {v : Value} (hv : Value.Holds F v) :
    Gives (m.declare kind name v) (Machine.Holds F) :=
  ((holds_iff.mp h).declare kind name hv).mono fun _ => holds_iff.mpr

theorem hoist {body : List Stmt} (hbody : ∀ f ∈ declaredFunctions body, F f) :
    (m.hoist body).Holds F :=
  holds_iff.mpr ((holds_iff.mp h).hoist fun f hf => holds_function.mpr (hbody f hf))

theorem slot_read (s : Slot) : Gives (s.read m) (Value.Holds F) := (holds_iff.mp h).slot_read s

theorem slot_replace (s : Slot) {v : Value} (hv : Value.Holds F v) :
    Gives (s.modify (fun _ => .ok (v, ())) m) fun out => out.1.Holds F :=
  ((holds_iff.mp h).slot_replace s hv).mono fun _ => holds_iff.mpr

theorem slot_write (s : Slot) {v : Value} (hv : Value.Holds F v) :
    Gives (s.write v m) (Machine.Holds F) :=
  ((holds_iff.mp h).slot_write s hv).mono fun _ => holds_iff.mpr

theorem slot_held (s : Slot) : Gives (s.held m) (Value.Holds F) := (holds_iff.mp h).slot_held s

end Machine.Holds

end Stencil.Script
