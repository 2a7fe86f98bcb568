/-
  Where effects lead, and what they keep.

  `Goes I E R x Q` says that `x`, started in a state with `I`, leaves a state with `I` that is
  related by `R` to the one it was started in, however it ends: a result has `Q`, a fault has `E`.
  An effect that runs out of steps goes anywhere.  There is one rule for each way in which effects
  are made, so what the evaluator does is found by following its definition.  `Keeps I E x Q`
  leaves out the relation.
-/
import Stencil.Script.Machine

namespace Stencil.Script

/-! ## Scopes and calls -/

/-- The state with one more scope. -/
def Machine.enter (m : Machine) (scope : Scope) : Machine := { m with scopes := scope :: m.scopes }

/-- The state without its innermost scope. -/
def Machine.leave (m : Machine) : Machine := { m with scopes := m.scopes.tail }

/-- The state in a call, with the scopes of the call alone. -/
def Machine.beginCall (m : Machine) (run : Nat) (scopes : List Scope) : Machine :=
  { m with scopes := scopes, depth := m.depth + 1, run := run }

/-- The state after a call, with what the caller had before it. -/
def Machine.endCall (m caller : Machine) : Machine :=
  { m with scopes := caller.scopes, depth := caller.depth, run := caller.run }

/-- The outcome with its state changed. -/
def Outcome.mapState {α : Type} (f : Machine → Machine) : Outcome α → Outcome α
  | .done a m => .done a (f m)
  | .failed e m => .failed e (f m)
  | .exhausted => .exhausted

theorem Outcome.mapState_eq_exhausted {α : Type} {f : Machine → Machine} {out : Outcome α} :
    out.mapState f = .exhausted ↔ out = .exhausted := by
  cases out <;> simp [mapState]

/-- An effect ended in a state with `I` and `R`, with a result in `Q` or a fault in `E`. -/
def Outcome.Leads {α : Type} (I : Machine → Prop) (E : ScriptError → Prop) (R : Machine → Prop)
    (Q : α → Prop) : Outcome α → Prop
  | .done a m => Q a ∧ I m ∧ R m
  | .failed e m => E e ∧ I m ∧ R m
  | .exhausted => True

namespace Effect

variable {α β : Type} {I : Machine → Prop} {E : ScriptError → Prop}

theorem bind_of_done {x : Effect α} {f : α → Effect β} {m m' : Machine} {a : α}
    (h : x m = .done a m') : (x >>= f) m = f a m' := by rw [bind_apply, h]

theorem bind_of_failed {x : Effect α} {f : α → Effect β} {m m' : Machine} {e : ScriptError}
    (h : x m = .failed e m') : (x >>= f) m = .failed e m' := by rw [bind_apply, h]

theorem bind_failed_cases {x : Effect α} {f : α → Effect β} {m m' : Machine} {e : ScriptError}
    (h : (x >>= f) m = .failed e m') :
    x m = .failed e m' ∨ ∃ a n, x m = .done a n ∧ f a n = .failed e m' := by
  rw [bind_apply] at h
  cases hx : x m with
  | done a n =>
    rw [hx] at h
    exact Or.inr ⟨a, n, rfl, h⟩
  | failed e' n =>
    rw [hx] at h
    cases h
    exact Or.inl rfl
  | exhausted =>
    rw [hx] at h
    cases h

theorem bind_done_iff {x : Effect α} {f : α → Effect β} {m m' : Machine} {b : β} :
    (x >>= f) m = .done b m' ↔ ∃ a n, x m = .done a n ∧ f a n = .done b m' := by
  constructor
  · intro h
    rw [bind_apply] at h
    cases hx : x m with
    | done a n =>
      rw [hx] at h
      exact ⟨a, n, rfl, h⟩
    | failed e n =>
      rw [hx] at h
      cases h
    | exhausted =>
      rw [hx] at h
      cases h
  · rintro ⟨a, n, hx, hf⟩
    rw [bind_of_done hx, hf]

theorem within_apply {x : Effect α} {scope : Scope} {m : Machine} :
    within scope x m = (x (m.enter scope)).mapState Machine.leave := by
  unfold within
  rw [Machine.enter]
  cases x { m with scopes := scope :: m.scopes } <;> rfl

theorem inCall_apply {x : Effect α} {run : Nat} {scopes : List Scope} {m : Machine} :
    inCall run scopes x m = (x (m.beginCall run scopes)).mapState (·.endCall m) := by
  unfold inCall
  rw [Machine.beginCall]
  cases x { m with scopes := scopes, depth := m.depth + 1, run := run } <;> rfl

theorem within_done_iff {x : Effect α} {scope : Scope} {m m' : Machine} {a : α} :
    within scope x m = .done a m' ↔ ∃ n, x (m.enter scope) = .done a n ∧ m' = n.leave := by
  unfold within
  rw [Machine.enter]
  constructor
  · intro h
    split at h <;> cases h
    exact ⟨_, ‹_›, rfl⟩
  · rintro ⟨n, hx, rfl⟩
    rw [hx]
    rfl

theorem inCall_done_iff {x : Effect α} {run : Nat} {scopes : List Scope} {m m' : Machine} {a : α} :
    inCall run scopes x m = .done a m' ↔
      ∃ n, x (m.beginCall run scopes) = .done a n ∧ m' = n.endCall m := by
  unfold inCall
  rw [Machine.beginCall]
  constructor
  · intro h
    split at h <;> cases h
    exact ⟨_, ‹_›, rfl⟩
  · rintro ⟨n, hx, rfl⟩
    rw [hx]
    rfl

theorem within_failed_iff {x : Effect α} {scope : Scope} {m m' : Machine} {e : ScriptError} :
    within scope x m = .failed e m' ↔
      ∃ n, x (m.enter scope) = .failed e n ∧ m' = n.leave := by
  unfold within
  rw [Machine.enter]
  constructor
  · intro h
    split at h <;> cases h
    exact ⟨_, ‹_›, rfl⟩
  · rintro ⟨n, hx, rfl⟩
    rw [hx]
    rfl

theorem inCall_failed_iff {x : Effect α} {run : Nat} {scopes : List Scope} {m m' : Machine}
    {e : ScriptError} :
    inCall run scopes x m = .failed e m' ↔
      ∃ n, x (m.beginCall run scopes) = .failed e n ∧ m' = n.endCall m := by
  unfold inCall
  rw [Machine.beginCall]
  constructor
  · intro h
    split at h <;> cases h
    exact ⟨_, ‹_›, rfl⟩
  · rintro ⟨n, hx, rfl⟩
    rw [hx]
    rfl

theorem get_bind (f : Machine → Effect α) (m : Machine) : (get >>= f) m = f m m := rfl

/-! ## Where effects lead -/

/-- From a state with `I` to a state with `I` that it is related to by `R`, with results in `Q` and
    faults in `E`. -/
def Goes (I : Machine → Prop) (E : ScriptError → Prop) (R : Machine → Machine → Prop)
    (x : Effect α) (Q : α → Prop) : Prop :=
  ∀ m, I m → (x m).Leads I E (R m) Q

variable {R R' : Machine → Machine → Prop}

theorem Goes.bind {x : Effect α} {f : α → Effect β} {S : α → Prop} {Q : β → Prop}
    (htrans : ∀ {m m' m''}, R m m' → R m' m'' → R m m'') (hx : Goes I E R x S)
    (hf : ∀ a, S a → Goes I E R (f a) Q) : Goes I E R (x >>= f) Q := by
  intro m hm
  rw [bind_apply]
  have := hx m hm
  cases h : x m with
  | done a m' =>
    rw [h] at this
    have hthen := hf a this.1 m' this.2.1
    dsimp only
    cases h' : f a m' with
    | done b m'' =>
      rw [h'] at hthen
      exact ⟨hthen.1, hthen.2.1, htrans this.2.2 hthen.2.2⟩
    | failed e m'' =>
      rw [h'] at hthen
      exact ⟨hthen.1, hthen.2.1, htrans this.2.2 hthen.2.2⟩
    | exhausted => trivial
  | failed e m' =>
    rw [h] at this
    exact this
  | exhausted => trivial

/-- A change of the state in front of an effect. -/
theorem Goes.after {f : Machine → Machine} {x : Effect α} {Q : α → Prop} (h : Goes I E R x Q)
    (hI : ∀ m, I m → I (f m)) : Goes I E (fun m m' => R (f m) m') (do modify f; x) Q :=
  fun m hm => h (f m) (hI m hm)

theorem Goes.within {x : Effect α} {scope : Scope} {Q : α → Prop} (h : Goes I E R' x Q)
    (henter : ∀ m, I m → I (m.enter scope)) (hleave : ∀ m, I m → I m.leave)
    (hrel : ∀ {m m'}, R' (m.enter scope) m' → R m m'.leave) : Goes I E R (within scope x) Q := by
  intro m hm
  unfold Effect.within
  have := h _ (henter m hm)
  rw [Machine.enter] at this
  cases hx : x { m with scopes := scope :: m.scopes } with
  | done a m' =>
    rw [hx] at this
    exact ⟨this.1, hleave m' this.2.1, hrel this.2.2⟩
  | failed e m' =>
    rw [hx] at this
    exact ⟨this.1, hleave m' this.2.1, hrel this.2.2⟩
  | exhausted => trivial

theorem Goes.inCall {x : Effect α} {run : Nat} {scopes : List Scope} {Q : α → Prop}
    (h : Goes I E R' x Q) (henter : ∀ m, I m → I (m.beginCall run scopes))
    (hleave : ∀ m m', I m → I m' → I (m'.endCall m))
    (hrel : ∀ {m m'}, R' (m.beginCall run scopes) m' → R m (m'.endCall m)) :
    Goes I E R (inCall run scopes x) Q := by
  intro m hm
  unfold Effect.inCall
  have := h _ (henter m hm)
  rw [Machine.beginCall] at this
  cases hx : x { m with scopes := scopes, depth := m.depth + 1, run := run } with
  | done a m' =>
    rw [hx] at this
    exact ⟨this.1, hleave m m' hm this.2.1, hrel this.2.2⟩
  | failed e m' =>
    rw [hx] at this
    exact ⟨this.1, hleave m m' hm this.2.1, hrel this.2.2⟩
  | exhausted => trivial

/-! ## What is kept -/

/-- From states with `I` to states with `I`, with results in `Q` and faults in `E`. -/
def Keeps (I : Machine → Prop) (E : ScriptError → Prop) (x : Effect α) (Q : α → Prop) : Prop :=
  ∀ m, I m →
    match x m with
    | .done a m' => Q a ∧ I m'
    | .failed e m' => E e ∧ I m'
    | .exhausted => True

theorem keeps_iff_goes {x : Effect α} {Q : α → Prop} :
    Keeps I E x Q ↔ Goes I E (fun _ _ => True) x Q := by
  refine forall_congr' fun m => imp_congr_right fun _ => ?_
  cases x m <;> simp [Outcome.Leads]

theorem keeps_pure {a : α} {Q : α → Prop} (h : Q a) : Keeps I E (pure a : Effect α) Q :=
  fun _ hm => ⟨h, hm⟩

theorem keeps_fail {pos : Position} {fault : Fault} {Q : α → Prop} (h : E ⟨fault, pos⟩) :
    Keeps I E (fail pos fault : Effect α) Q := fun _ hm => ⟨h, hm⟩

theorem keeps_exhausted {Q : α → Prop} : Keeps I E (exhausted : Effect α) Q := fun _ _ => trivial

theorem Keeps.bind {x : Effect α} {f : α → Effect β} {S : α → Prop} {Q : β → Prop}
    (hx : Keeps I E x S) (hf : ∀ a, S a → Keeps I E (f a) Q) : Keeps I E (x >>= f) Q :=
  keeps_iff_goes.mpr (Goes.bind (fun _ _ => trivial) (keeps_iff_goes.mp hx) fun a ha =>
    keeps_iff_goes.mp (hf a ha))

theorem Keeps.within {x : Effect α} {scope : Scope} {Q : α → Prop} (h : Keeps I E x Q)
    (henter : ∀ m, I m → I (m.enter scope)) (hleave : ∀ m, I m → I m.leave) :
    Keeps I E (within scope x) Q :=
  keeps_iff_goes.mpr (Goes.within (keeps_iff_goes.mp h) henter hleave fun _ => trivial)

end Effect

end Stencil.Script
