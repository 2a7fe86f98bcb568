/-
  The changes of the state, one by one.

  Whatever is declared, assigned or changed in place, either one name is bound anew in one of the
  scopes (`Machine.bindAt`), or the environment gets a value for it.  There is one lemma for each
  kind of change that says where the value goes and what was there before.
-/
import Stencil.Proofs.Dict
import Stencil.Script.Slot

namespace Stencil.Script

/-! ## Scopes -/

theorem Scope.get?_bind (s : Scope) (name other : String) (b : Binding) :
    (s.bind name b).get? other = if other = name then some b else s.get? other :=
  Dict.get?_insert s.names name other b

/-- The scopes with a name bound anew in the one at `i`. -/
def bindAt (scopes : List Scope) (i : Nat) (name : String) (b : Binding) : List Scope :=
  scopes.modify i fun s => s.bind name b

theorem getElem?_bindAt (scopes : List Scope) (i j : Nat) (name : String) (b : Binding) :
    (bindAt scopes i name b)[j]? =
      if i = j then scopes[j]?.map fun s => s.bind name b else scopes[j]? := by
  rw [bindAt, List.getElem?_modify]
  split <;> simp

theorem map_isFrame_bindAt (scopes : List Scope) (i : Nat) (name : String) (b : Binding) :
    (bindAt scopes i name b).map Scope.isFrame = scopes.map Scope.isFrame := by
  refine List.ext_getElem? fun j => ?_
  rw [List.getElem?_map, List.getElem?_map, getElem?_bindAt]
  split
  · rw [Option.map_map]
    rfl
  · rfl

/-- The name of a variable in scope is bound anew where it is bound. -/
theorem setBinding_eq_bindAt {name : String} {b : Binding} (v : Value) :
    ∀ {scopes : List Scope}, findBinding? scopes name = some b →
      ∃ i s, scopes[i]? = some s ∧ s.get? name = some b ∧
        setBinding scopes name v = bindAt scopes i name ⟨v, b.constant⟩
  | s :: outer, h => by
    rw [findBinding?, List.findSome?_cons] at h
    rw [setBinding]
    cases hs : s.get? name with
    | some b' =>
      rw [hs] at h
      cases h
      exact ⟨0, s, rfl, hs, rfl⟩
    | none =>
      rw [hs] at h
      have houter : findBinding? outer name = some b := h
      obtain ⟨i, t, ht, hb, heq⟩ := setBinding_eq_bindAt v houter
      exact ⟨i + 1, t, ht, hb, congrArg (s :: ·) heq⟩

theorem map_isFrame_setBinding (scopes : List Scope) (name : String) (v : Value) :
    (setBinding scopes name v).map Scope.isFrame = scopes.map Scope.isFrame := by
  induction scopes with
  | nil => rfl
  | cons s outer ih =>
    rw [setBinding]
    split
    · rfl
    · rw [List.map_cons, ih, List.map_cons]

theorem bindInFrame?_eq_bindAt {name : String} {b : Binding} :
    ∀ {scopes scopes' : List Scope}, bindInFrame? scopes name b = some scopes' →
      ∃ i s, scopes[i]? = some s ∧ s.isFrame = true ∧ scopes' = bindAt scopes i name b
  | s :: outer, scopes', h => by
    rw [bindInFrame?] at h
    split at h
    · rename_i hframe
      cases h
      exact ⟨0, s, rfl, hframe, rfl⟩
    · obtain ⟨outer', houter, rfl⟩ := Option.map_eq_some_iff.mp h
      obtain ⟨i, t, ht, hframe, heq⟩ := bindInFrame?_eq_bindAt houter
      exact ⟨i + 1, t, ht, hframe, congrArg (s :: ·) heq⟩

theorem bindInFrame?_eq_none {name : String} {b : Binding} :
    ∀ {scopes : List Scope}, bindInFrame? scopes name b = none ↔
      scopes.any Scope.isFrame = false
  | [] => by simp [bindInFrame?]
  | s :: outer => by
    have houter : bindInFrame? outer name b = none ↔ outer.any Scope.isFrame = false :=
      bindInFrame?_eq_none
    rw [bindInFrame?, List.any_cons]
    cases s.isFrame with
    | true => simp
    | false => simp [houter]

/-! ## Functions declared in front -/

/-- The scope with some functions bound in it. -/
def Scope.withFunctions (s : Scope) (run : Nat) (fs : List Function) : Scope :=
  fs.foldl (fun s f => s.bind f.name ⟨.function run f, false⟩) s

theorem Scope.isFrame_withFunctions (s : Scope) (run : Nat) (fs : List Function) :
    (s.withFunctions run fs).isFrame = s.isFrame := by
  unfold withFunctions
  induction fs generalizing s with
  | nil => rfl
  | cons f rest ih => exact ih (s.bind f.name _)

/-- The environment with some functions as variables. -/
def Environment.withFunctions (env : Environment) (run : Nat) (fs : List Function) : Environment :=
  fs.foldl (fun env f => Dict.insert env f.name (.function run f)) env

/-! ## Values from inside -/

/-- A value has been changed from inside: members and items of it have been stored, or arrays in it
    have lost their last item or got more. -/
inductive Value.Inside : Value → Value → Prop where
  | refl {v} : Inside v v
  | trans {v v' v''} : Inside v v' → Inside v' v'' → Inside v v''
  | store {v v' path key w} :
      v.modifyAt (fun u => (u.setIndex key w).map fun u' => (u', ())) path = .ok (v', ()) →
      Inside v v'
  | items {v v' path w items items'} :
      v.modifyAt (fun u => .ok (u, u)) path = .ok (w, .array items) →
      (items' = items.dropLast ∨ items <+: items') →
      v.modifyAt (fun _ => .ok (.array items', ())) path = .ok (v', ()) → Inside v v'

/-- A text has nothing inside that could be changed. -/
theorem Value.Inside.of_text {t : String} {u v : Value} (h : u.Inside v) (hu : u = .text t) :
    v = .text t := by
  induction h with
  | refl => exact hu
  | trans _ _ ih ih' => exact ih' (ih hu)
  | @store _ _ path _ _ hstore =>
    subst hu
    cases path with
    | nil => cases hstore
    | cons key path => cases hstore
  | @items _ _ path _ _ _ hread =>
    subst hu
    cases path with
    | nil => cases hread
    | cons key path => cases hread

/-! ## Changes of the state -/

namespace Machine

variable {m m' : Machine} {name : String} {v : Value}

theorem declare_cases {kind : DeclKind} (h : m.declare kind name v = .ok m') :
    (kind = .varDecl ∧
      ((∃ i s, m.scopes[i]? = some s ∧ s.isFrame = true ∧
          m' = { m with scopes := bindAt m.scopes i name ⟨v, false⟩ }) ∨
        (m.inFunction = false ∧ m' = m.setEnv name v))) ∨
    (kind ≠ .varDecl ∧
      ((∃ s, m.scopes[0]? = some s ∧ s.get? name = none ∧
          m' = { m with scopes := bindAt m.scopes 0 name ⟨v, kind == .constDecl⟩ }) ∨
        (m.scopes = [] ∧ Dict.contains m.lexical name = false ∧
          m' = { m.setEnv name v with
            lexical := Dict.insert m.lexical name (kind == .constDecl) }))) := by
  cases kind with
  | varDecl =>
    refine Or.inl ⟨rfl, ?_⟩
    simp only [declare] at h
    split at h <;> cases h
    · rename_i scopes hbind
      obtain ⟨i, s, hs, hframe, rfl⟩ := bindInFrame?_eq_bindAt hbind
      exact Or.inl ⟨i, s, hs, hframe, rfl⟩
    · rename_i hnone
      exact Or.inr ⟨bindInFrame?_eq_none.mp hnone, rfl⟩
  | letDecl | constDecl =>
    refine Or.inr ⟨by decide, ?_⟩
    simp only [declare] at h
    split at h
    · rename_i hscopes
      split at h <;> cases h
      rename_i hnew
      exact Or.inr ⟨hscopes, Bool.eq_false_iff.mpr hnew, rfl⟩
    · rename_i s outer hscopes
      split at h <;> cases h
      rename_i hnew
      refine Or.inl ⟨s, by rw [hscopes]; rfl, Option.not_isSome_iff_eq_none.mp hnew, ?_⟩
      rw [hscopes]
      rfl

theorem assign_cases (h : m.assign name v = .ok m') :
    (∃ i s b, m.scopes[i]? = some s ∧ s.get? name = some b ∧ b.constant = false ∧
      m' = { m with scopes := bindAt m.scopes i name ⟨v, false⟩ }) ∨
    (Dict.get? m.lexical name ≠ some true ∧ m' = m.setEnv name v) := by
  unfold assign at h
  split at h
  · rename_i b hb
    split at h <;> cases h
    rename_i hconst
    rw [Bool.not_eq_true] at hconst
    obtain ⟨i, s, hs, hget, heq⟩ := setBinding_eq_bindAt v hb
    rw [hconst] at heq
    exact Or.inl ⟨i, s, b, hs, hget, hconst, by rw [heq]⟩
  · split at h <;> cases h
    rename_i hlexical
    exact Or.inr ⟨hlexical, rfl⟩

/-- A variable that is changed from inside stays where it is, and as constant as it is. -/
theorem setVariable_cases (h : m.changeable? name = some v) (v' : Value) :
    (∃ i s b, m.scopes[i]? = some s ∧ s.get? name = some b ∧ b.value = v ∧
      m.setVariable name v' = { m with scopes := bindAt m.scopes i name ⟨v', b.constant⟩ }) ∨
    (Dict.get? m.env name = some v ∧ m.setVariable name v' = m.setEnv name v') := by
  unfold changeable? at h
  unfold setVariable
  split at h
  · rename_i b hb
    cases h
    obtain ⟨i, s, hs, hget, heq⟩ := setBinding_eq_bindAt v' hb
    exact Or.inl ⟨i, s, b, hs, hget, rfl, by rw [heq]⟩
  · exact Or.inr ⟨h, rfl⟩

/-- Functions declared in a block or call are bound in its innermost scope. -/
theorem hoist_of_cons (body : List Stmt) {s : Scope} {outer : List Scope}
    (h : m.scopes = s :: outer) : m.hoist body =
      { m with scopes := s.withFunctions m.run (declaredFunctions body) :: outer } := by
  unfold hoist Scope.withFunctions
  generalize declaredFunctions body = fs
  induction fs generalizing m s with
  | nil =>
    rw [List.foldl_nil, List.foldl_nil, ← h]
  | cons f rest ih =>
    have hbind : m.bindInnermost f.name (.function m.run f)
        = { m with scopes := s.bind f.name ⟨.function m.run f, false⟩ :: outer } := by
      rw [bindInnermost, h]
    rw [List.foldl_cons, hbind, List.foldl_cons]
    exact ih rfl

/-- Functions declared by a script are variables of the environment. -/
theorem hoist_of_nil (body : List Stmt) (h : m.scopes = []) :
    m.hoist body = { m with env := m.env.withFunctions m.run (declaredFunctions body) } := by
  unfold hoist Environment.withFunctions
  generalize declaredFunctions body = fs
  induction fs generalizing m with
  | nil => rfl
  | cons f rest ih =>
    have hset : m.bindInnermost f.name (.function m.run f)
        = m.setEnv f.name (.function m.run f) := by
      rw [bindInnermost, h]
    rw [List.foldl_cons, hset, List.foldl_cons]
    exact ih h

end Machine

/-! ## Slots -/

theorem exists_of_map_ok {α β : Type} {r : Except Fault α} {f : α → β} {b : β}
    (h : r.map f = .ok b) : ∃ a, r = .ok a ∧ f a = b := by
  cases r with
  | ok a =>
    cases h
    exact ⟨a, rfl, rfl⟩
  | error fault => cases h

namespace Slot

variable {s : Slot} {m m' : Machine}

theorem modify_cases {α : Type} {change : Value → Except Fault (Value × α)} {r : α}
    (h : s.modify change m = .ok (m', r)) :
    ∃ v v', m.changeable? s.root = some v ∧ v.modifyAt change s.path = .ok (v', r) ∧
      m' = m.setVariable s.root v' := by
  unfold modify at h
  split at h
  · cases h
  · rename_i v hv
    split at h <;> cases h
    exact ⟨v, _, hv, ‹_›, rfl⟩

/-- A slot that is written is a variable that is assigned, or lies in one that is changed from
    inside. -/
theorem write_cases {w : Value} (h : s.write w m = .ok m') :
    m.assign s.root w = .ok m' ∨
    ∃ v v', m.changeable? s.root = some v ∧ v.Inside v' ∧ m' = m.setVariable s.root v' := by
  unfold write at h
  split at h
  · exact Or.inl h
  · rename_i key _
    obtain ⟨⟨n, u⟩, hout, rfl⟩ := exists_of_map_ok h
    obtain ⟨v, v', hv, hmodify, heq⟩ := modify_cases hout
    exact Or.inr ⟨v, v', hv, .store hmodify, heq⟩

theorem mutate_cases {items items' : List Value} (hheld : s.held m = .ok (.array items))
    (hitems : items' = items.dropLast ∨ items <+: items')
    (h : s.modify (fun _ => .ok (.array items', ())) m = .ok (m', ())) :
    ∃ v v', m.changeable? s.root = some v ∧ v.Inside v' ∧ m' = m.setVariable s.root v' := by
  obtain ⟨⟨n, r⟩, hout, hsnd⟩ := exists_of_map_ok hheld
  obtain ⟨v, w, hv, hread, -⟩ := modify_cases hout
  obtain ⟨u, v', hu, hmodify, heq⟩ := modify_cases h
  rw [hv] at hu
  cases hu
  cases hsnd
  exact ⟨v, v', hv, .items hread hitems hmodify, heq⟩

end Slot

end Stencil.Script
