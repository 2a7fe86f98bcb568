/-
  The methods that change arrays, called as other methods are.

  `push` and `pop` on a place do not act on the value of the place but on the array where it is
  held, so their place must exist: the variable, and all that the keys lead to.  There the call
  agrees with an ordinary one (`callOn`) but for the array that it writes back
  (`Slot.WrittenBack`).  Where the place does not exist both calls fail, since the values that can
  be read there, characters, lengths, functions of the language and `undefined`, have no such
  methods (`Value.Lacks`); but they may fail in different ways.
-/
import Stencil.Proofs.Script.Run.Reading

namespace Stencil.Script

open Effect

/-! ## Values without the methods -/

namespace Value

/-- No member of its own and no method of the language answers to the name. -/
structure Lacks (v : Value) (name : String) : Prop where
  own : ∀ members, v = .object members → Dict.get? members name = none
  method : ∀ args, ∃ fault, v.callMethod name args = .error fault

variable {v : Value} {name property : String}

theorem callMethod_object (members : Dict Value) (args : List Value)
    (hproperty : property = "push" ∨ property = "pop") :
    ∃ fault, (Value.object members).callMethod property args = .error fault := by
  rcases hproperty with rfl | rfl <;> exact ⟨_, rfl⟩

theorem lacks_of_isAtom (hproperty : property = "push" ∨ property = "pop")
    (hv : v.isAtom = true) : v.Lacks property where
  own members hmembers := by
    subst hmembers
    cases hv
  method args := by
    cases v with
    | array items => cases hv
    | object members => cases hv
    | _ => rcases hproperty with rfl | rfl <;> exact ⟨_, rfl⟩

theorem lacks_of_global (hproperty : property = "push" ∨ property = "pop")
    (hglobal : global? name = some v) : v.Lacks property := by
  unfold global? at hglobal
  split at hglobal <;> cases hglobal
  all_goals first
    | exact lacks_of_isAtom hproperty rfl
    | refine ⟨?_, fun args => callMethod_object _ args hproperty⟩
      rintro _ ⟨⟩
      rcases hproperty with rfl | rfl <;> rfl

end Value

/-! ## What is held -/

namespace Value

theorem readPath_of_modifyAt {path : List Value} {v v' w : Value}
    (h : v.modifyAt (fun u => .ok (u, u)) path = .ok (v', w)) : v.readPath path = .ok w := by
  induction path generalizing v v' with
  | nil =>
    cases h
    rfl
  | cons key path ih =>
    rw [modifyAt] at h
    split at h
    · cases h
    · rename_i inner hinner
      split at h
      · cases h
      · rename_i inner' w' hinner'
        cases h
        rw [readPath_cons (readIndex_of_existing hinner (apart_irrefl v key))]
        exact ih hinner'

end Value

namespace Slot

variable {s : Slot} {m n : Machine} {v : Value} {property : String}

/-- What is held in a slot is read there. -/
theorem read_of_held (h : s.held m = .ok v) : s.read m = .ok v := by
  obtain ⟨⟨n, w⟩, hmodify, rfl⟩ := exists_of_map_ok h
  obtain ⟨old, new, hold, hchange, -⟩ := modify_cases hmodify
  rw [read_eq (Machine.lookup?_of_changeable? hold)]
  exact Value.readPath_of_modifyAt hchange

/-- What is read in a slot and not held there has no methods that change arrays. -/
theorem lacks_of_not_held (hproperty : property = "push" ∨ property = "pop")
    (hread : s.read m = .ok v) (hheld : ∀ w, s.held m ≠ .ok w) : v.Lacks property := by
  by_cases hv : v.isAtom = true
  · exact Value.lacks_of_isAtom hproperty hv
  rw [read] at hread
  split at hread
  · cases hread
  rename_i u hlookup
  rcases Machine.lookup?_cases hlookup with hroot | hglobal
  · -- an array or an object in a variable would be held
    obtain ⟨v', -, hmodify⟩ := modify_of_changeable hroot hread (Bool.eq_false_iff.mpr hv)
      (fun v => .ok (v, v)) rfl
    exact absurd (by rw [held, hmodify]; rfl) (hheld v)
  · rcases Value.readPath_global hglobal hread with hatom | ⟨rfl, -⟩
    · exact absurd hatom hv
    · exact Value.lacks_of_global hproperty hglobal

/-- The second state is the first one with what the method leaves of an array in the slot: the
    items without the last one, or with the arguments behind them.  Other values are left alone. -/
def WrittenBack (s : Slot) (property : String) (v : Value) (vs : List Value) (m n : Machine) :
    Prop :=
  match v with
  | .array items =>
    s.modify (fun _ =>
      .ok (.array (if property == "pop" then items.dropLast else items ++ vs), ())) m = .ok (n, ())
  | _ => n = m

theorem writtenBack_iff (hv : ∀ items, v ≠ .array items) {vs : List Value} :
    s.WrittenBack property v vs m n ↔ n = m := by
  cases v with
  | array items => exact absurd rfl (hv items)
  | _ => exact Iff.rfl

end Slot

/-! ## Both calls -/

/-- The method called on the value of an expression. -/
def callOn (maxDepth : Nat) (pos mpos : Position) (object : Expr) (property : String)
    (args : List Expr) (steps : Nat) : Effect Value := do
  let v ← eval maxDepth steps object
  let vs ← evalAll maxDepth steps args
  callMethod maxDepth steps pos (.member mpos object property) v property vs

section

variable {maxDepth : Nat} {m n : Machine} {p : Place} {property : String} {args : List Expr}
  {pos mpos : Position} {slot : Slot} {v : Value}

/-- The method called on the value that a slot holds. -/
def planOnHeld (pos mpos : Position) (p : Place) (property : String) (slot : Slot)
    (vs : List Value) (v : Value) : Plan Value :=
  match v with
  | .array items => .effect (changeArray pos slot (property == "pop") items vs)
  | v => .task (.callMethod pos (.member mpos p.toExpr property) v property vs)

theorem same_mutate (hproperty : property = "push" ∨ property = "pop") :
    (Plan.task (.eval (.call pos (.member mpos p.toExpr property) args))).Same maxDepth
      (Plan.task (.resolve p) >>= fun slot => Plan.task (.evalAll args) >>= fun vs =>
        Plan.effect (heldSlot pos slot) >>= planOnHeld pos mpos p property slot vs) m := by
  have hmutated : mutatedPlace? p.toExpr property = some p := by
    rw [mutatedPlace?, if_pos hproperty, p.toPlace?_toExpr]
  refine .trans (.task _) ?_
  rw [Task.plan, planEval, planCall, hmutated]
  refine .andThen fun slot n => .andThen fun vs n => .andThen fun v n => ?_
  cases v <;> exact .refl _

/-- The method called on the value of a place: what `callOn` runs. -/
def planCallOn (pos mpos : Position) (p : Place) (property : String) (args : List Expr) :
    Plan Value := do
  let v ← Plan.task (.eval p.toExpr)
  let vs ← Plan.task (.evalAll args)
  Plan.task (.callMethod pos (.member mpos p.toExpr property) v property vs)

theorem same_heldSlot (maxDepth : Nat) (pos : Position) (slot : Slot) (m : Machine) :
    (Plan.effect (heldSlot pos slot)).Same maxDepth (.effect (lift pos (slot.held m))) m :=
  .of_run fun _ => rfl

/-- Values without a method of their own have at most one of the language. -/
theorem same_callMethod (pos : Position) (callee : Expr) (vs : List Value)
    (hown : ∀ members, v = .object members → Dict.get? members property = none) :
    (Plan.task (.callMethod pos callee v property vs)).Same maxDepth
      (.effect (lift pos (v.callMethod property vs))) m := by
  cases v with
  | object members =>
    refine .trans (.task _) ?_
    simp only [Task.plan, planCallMethod, hown members rfl]
    exact .refl _
  | _ => exact .task _

/-! ## Where the place exists -/

/-- Started in `m`, both give the same results, the first one with a state to which `back` leads
    from the state of the second one; they fail in the same way, or both diverge. -/
structure AgreeBut {α : Type} (back : Machine → Machine → Prop) (x y : Nat → Effect α)
    (m : Machine) : Prop where
  done : ∀ a n, Ends x m (.done a n) ↔ ∃ n', Ends y m (.done a n') ∧ back n' n
  failed : ∀ e n, Ends x m (.failed e n) ↔ Ends y m (.failed e n)
  diverges : Diverges x m ↔ Diverges y m

theorem AgreeBut.of_same {α : Type} {back : Machine → Machine → Prop} {x x' y y' : Plan α}
    (h : AgreeBut back (x'.run maxDepth) (y'.run maxDepth) m) (hx : x.Same maxDepth x' m)
    (hy : y.Same maxDepth y' m) : AgreeBut back (x.run maxDepth) (y.run maxDepth) m where
  done a n := (hx _).trans ((h.done a n).trans
    (exists_congr fun _ => and_congr_left fun _ => (hy _).symm))
  failed e n := (hx _).trans ((h.failed e n).trans (hy _).symm)
  diverges := hx.diverges_iff.trans (h.diverges.trans hy.diverges_iff.symm)

/-- Two plans that begin with the same one, which changes nothing, and then give the same result,
    the first one with a change of the state. -/
theorem Plan.agreeBut_bind {α β : Type} {x : Plan α} {f g : α → Plan β}
    {back : α → Machine → Machine → Prop} (hx : Quiet (x.run maxDepth) m)
    (h : ∀ a, ∃ b n, Ends ((f a).run maxDepth) m (.done b n) ∧
      Ends ((g a).run maxDepth) m (.done b m) ∧ ∀ n', back a m n' ↔ n' = n) :
    AgreeBut (fun n' n => ∃ a, Ends (x.run maxDepth) m (.done a m) ∧ back a n' n)
      ((x >>= f).run maxDepth) ((x >>= g).run maxDepth) m := by
  have hf : ∀ a n, Ends (x.run maxDepth) m (.done a n) →
      ∃ b n', Ends ((f a).run maxDepth) n (.done b n') := fun a n ha => by
    cases hx.of_done ha
    obtain ⟨b, n', hb, -⟩ := h a
    exact ⟨b, n', hb⟩
  have hg : ∀ a n, Ends (x.run maxDepth) m (.done a n) →
      ∃ b n', Ends ((g a).run maxDepth) n (.done b n') := fun a n ha => by
    cases hx.of_done ha
    obtain ⟨b, -, -, hb, -⟩ := h a
    exact ⟨b, m, hb⟩
  obtain ⟨hfailed, hdiverges⟩ := fails_bind_iff hf
  obtain ⟨hfailed', hdiverges'⟩ := fails_bind_iff hg
  refine ⟨fun b n => ⟨fun hends => ?_, ?_⟩, fun e n => (hfailed e n).trans (hfailed' e n).symm,
    hdiverges.trans hdiverges'.symm⟩
  · obtain ⟨a, n', ha, hthen⟩ := ends_bind_done.mp hends
    cases hx.of_done ha
    obtain ⟨b', n', hb, hb', hback⟩ := h a
    cases ends_unique hthen hb
    exact ⟨m, (ends_bind_of_done ha).mpr hb', a, ha, (hback _).mpr rfl⟩
  · rintro ⟨n', hends, a, ha, hto⟩
    obtain ⟨b', n'', hb, hb', hback⟩ := h a
    cases ends_unique ((ends_bind_of_done ha).mp hends) hb'
    cases (hback _).mp hto
    exact (ends_bind_of_done ha).mpr hb

/-- What an array is changed to in its slot is what the method of the language reports. -/
theorem changeArray_eq {items : List Value} (hproperty : property = "push" ∨ property = "pop")
    (hheld : slot.held m = .ok (.array items)) (pos : Position) (vs : List Value) :
    ∃ w n, changeArray pos slot (property == "pop") items vs m = .done w n ∧
      (Value.array items).callMethod property vs = .ok w ∧
      ∀ n', slot.WrittenBack property (.array items) vs m n' ↔ n' = n := by
  obtain ⟨-, v', -, -, -, hmodify⟩ := Slot.modify_of_array (Slot.read_of_held hheld) (fun _ =>
    .ok (.array (if property == "pop" then items.dropLast else items ++ vs), ())) rfl
  refine ⟨_, _, by rw [changeArray, hmodify], ?_, fun n' => ⟨fun h => ?_, fun h => h ▸ hmodify⟩⟩
  · rcases hproperty with rfl | rfl
    · exact congrArg (fun n => Except.ok (Value.number (Number.ofCount n))) List.length_append.symm
    · rfl
  · cases hmodify.symm.trans h
    rfl

section

variable (hargs : ∀ arg ∈ args, Quiet (eval maxDepth · arg) m)
  (hslot : Ends (resolve maxDepth · p) m (.done slot m))

include hslot

theorem same_callOn_of_held (hkeys : ∀ key ∈ p.keys, Quiet (eval maxDepth · key) m)
    (hheld : slot.held m = .ok v) (pos mpos : Position) (property : String) (args : List Expr) :
    (planCallOn pos mpos p property args).Same maxDepth (Plan.task (.evalAll args) >>= fun vs =>
      Plan.task (.callMethod pos (.member mpos p.toExpr property) v property vs)) m := by
  have hread : Ends ((Plan.task (.eval p.toExpr)).run maxDepth) m (.done v m) :=
    (ends_toExpr_done hkeys).mpr ⟨slot, hslot, Slot.read_of_held hheld⟩
  exact fun _ => Plan.ends_bind_of_done hread

variable (hproperty : property = "push" ∨ property = "pop")

include hargs hproperty

theorem same_mutate_of_held (hheld : slot.held m = .ok v) (pos mpos : Position) :
    (Plan.task (.eval (.call pos (.member mpos p.toExpr property) args))).Same maxDepth
      (Plan.task (.evalAll args) >>= fun vs => planOnHeld pos mpos p property slot vs v) m := by
  refine (same_mutate hproperty).trans
    (.trans (fun _ => Plan.ends_bind_of_done (p := .task (.resolve p)) hslot) ?_)
  refine .bind (.refl _) fun vs n hvs => ?_
  cases (evalAll_quiet hargs).of_done hvs
  exact fun _ => Plan.ends_bind_of_done ((same_heldSlot maxDepth pos slot m _).mpr
    (ends_lift_done.mpr ⟨hheld, rfl⟩))

variable (hkeys : ∀ key ∈ p.keys, Quiet (eval maxDepth · key) m)

include hkeys

/-- On what is no array, the methods are called as on any value. -/
theorem mutate_of_no_array (hheld : slot.held m = .ok v) (hv : ∀ items, v ≠ .array items)
    (pos mpos : Position) :
    AgreeBut (fun n' n => ∃ vs, Ends (evalAll maxDepth · args) m (.done vs m) ∧
        slot.WrittenBack property v vs n' n)
      (eval maxDepth · (.call pos (.member mpos p.toExpr property) args))
      (callOn maxDepth pos mpos p.toExpr property args) m := by
  have hplain := same_callOn_of_held hslot hkeys hheld pos mpos property args
  have hsame : (Plan.task (.eval (.call pos (.member mpos p.toExpr property) args))).Same maxDepth
      (planCallOn pos mpos p property args) m := by
    refine (same_mutate_of_held hargs hslot hproperty hheld pos mpos).trans
      (.trans (.andThen fun vs n => ?_) hplain.symm)
    cases v with
    | array items => exact absurd rfl (hv items)
    | _ => exact .refl _
  refine ⟨fun w n => ⟨fun h => ?_, ?_⟩, fun e n => hsame _, hsame.diverges_iff⟩
  · have hcall := (hsame _).mp h
    obtain ⟨vs, n', hvs, -⟩ := Plan.ends_bind_done.mp ((hplain _).mp hcall)
    cases (evalAll_quiet hargs).of_done hvs
    exact ⟨n, hcall, vs, hvs, (Slot.writtenBack_iff hv).mpr rfl⟩
  · rintro ⟨n', hcall, vs, -, hback⟩
    cases (Slot.writtenBack_iff hv).mp hback
    exact (hsame _).mpr hcall

/-- On an array both calls give the same, and one of them writes the array back. -/
theorem mutate_array {items : List Value} (hheld : slot.held m = .ok (.array items))
    (pos mpos : Position) :
    AgreeBut (fun n' n => ∃ vs, Ends (evalAll maxDepth · args) m (.done vs m) ∧
        slot.WrittenBack property (.array items) vs n' n)
      (eval maxDepth · (.call pos (.member mpos p.toExpr property) args))
      (callOn maxDepth pos mpos p.toExpr property args) m := by
  have hplain : (planCallOn pos mpos p property args).Same maxDepth (Plan.task (.evalAll args) >>=
      fun vs => .effect (lift pos ((Value.array items).callMethod property vs))) m :=
    (same_callOn_of_held hslot hkeys hheld pos mpos property args).trans (.andThen fun vs n =>
      same_callMethod pos _ vs fun members hmembers => by cases hmembers)
  have hquiet : Quiet ((Plan.task (.evalAll args)).run maxDepth) m := evalAll_quiet hargs
  refine AgreeBut.of_same (Plan.agreeBut_bind hquiet fun vs => ?_)
    (same_mutate_of_held hargs hslot hproperty hheld pos mpos) hplain
  obtain ⟨w, n, heq, hmethod, hback⟩ := changeArray_eq hproperty hheld pos vs
  exact ⟨w, n, Plan.ends_effect.mpr ⟨nofun, heq⟩, ends_lift_done.mpr ⟨hmethod, rfl⟩, hback⟩

end

/-! ## Where it does not -/

/-- Started in `m` it gives no result, and if it fails it leaves `m` behind. -/
def Refused {α : Type} (x : Nat → Effect α) (m : Machine) : Prop :=
  ∀ out, Ends x m out → ∃ e, out = .failed e m

theorem Plan.refused_bind {α β : Type} {q : Plan α} {f : α → Plan β}
    (hq : Quiet (q.run maxDepth) m)
    (hf : ∀ a, Ends (q.run maxDepth) m (.done a m) → Refused ((f a).run maxDepth) m) :
    Refused ((q >>= f).run maxDepth) m := by
  intro out h
  rcases Plan.ends_bind.mp h with ⟨a, n, ha, hout⟩ | ⟨e, n, he, rfl⟩
  · cases hq.of_done ha
    exact hf a ha out hout
  · cases hq.of_failed he
    exact ⟨e, rfl⟩

theorem Plan.Same.refused {α : Type} {q q' : Plan α} (h : q.Same maxDepth q' m)
    (hq : Refused (q'.run maxDepth) m) : Refused (q.run maxDepth) m :=
  fun out hout => hq out ((h out).mp hout)

section

variable (hproperty : property = "push" ∨ property = "pop")
  (hkeys : ∀ key ∈ p.keys, Quiet (eval maxDepth · key) m)
  (hargs : ∀ arg ∈ args, Quiet (eval maxDepth · arg) m)
  (hheld : ∀ slot v, Ends (resolve maxDepth · p) m (.done slot m) → slot.held m ≠ .ok v)

include hproperty hkeys hargs hheld

theorem mutate_refused (pos mpos : Position) :
    Refused ((Plan.task (.eval (.call pos (.member mpos p.toExpr property) args))).run maxDepth)
      m := by
  refine (same_mutate hproperty).refused ?_
  refine Plan.refused_bind (resolve_quiet hkeys) fun slot hslot => ?_
  refine Plan.refused_bind (evalAll_quiet hargs) fun vs _ => ?_
  have hsame := same_heldSlot maxDepth pos slot m
  refine Plan.refused_bind (hsame.quiet (Plan.quiet_lift pos _)) fun v hv => ?_
  exact absurd (ends_lift_done.mp ((hsame _).mp hv)).1 (hheld slot v hslot)

theorem callOn_refused (pos mpos : Position) :
    Refused ((planCallOn pos mpos p property args).run maxDepth) m := by
  refine Plan.refused_bind (toExpr_quiet hkeys) fun v hv => ?_
  refine Plan.refused_bind (evalAll_quiet hargs) fun vs _ => ?_
  obtain ⟨slot, hslot, hread⟩ := (ends_toExpr_done hkeys).mp hv
  have hlacks := Slot.lacks_of_not_held hproperty hread fun w => hheld slot w hslot
  obtain ⟨fault, hfault⟩ := hlacks.method vs
  refine (same_callMethod pos _ vs hlacks.own).refused ?_
  rw [hfault]
  rintro out ⟨-, -, rfl⟩
  exact ⟨_, rfl⟩

end

/-- Where the variable stands in a place. -/
def Place.rootPos : Place → Position
  | .name pos _ => pos
  | .member _ base _ => base.rootPos
  | .index _ base _ => base.rootPos

theorem toExpr_undefined (hroot : m.lookup? p.root = none) :
    Ends ((Plan.task (.eval p.toExpr)).run maxDepth) m
      (.failed ⟨.undefinedVariable p.root, p.rootPos⟩ m) := by
  induction p using Place.outward with
  | name pos s =>
    refine (same_eval_name pos s _).mpr (ends_lift_failed.mpr ⟨?_, rfl, rfl⟩)
    have hlookup : m.lookup? s = none := hroot
    rw [Slot.read, hlookup]
    rfl
  | member pos base property ih =>
    exact (same_eval_member pos base.toExpr property _).mpr
      (Plan.ends_bind_failed.mpr (Or.inl (ih hroot)))
  | index pos base key ih =>
    exact (same_eval_index pos base.toExpr key _).mpr
      (Plan.ends_bind_failed.mpr (Or.inl (ih hroot)))

theorem root_of_resolve (h : Ends (resolve maxDepth · p) m (.done slot n)) :
    slot.root = p.root := by
  induction p using Place.outward generalizing slot n with
  | name pos s =>
    cases Plan.ends_pure.mp ((Plan.Same.task (.resolve (.name pos s)) _).mp h)
    rfl
  | member pos base property ih =>
    obtain ⟨slot', n', hbase, hinto⟩ :=
      Plan.ends_bind_done.mp ((same_resolve_member pos base property _).mp h)
    cases Plan.ends_pure.mp hinto
    have hroot : slot'.root = base.root := ih hbase
    exact hroot
  | index pos base key ih =>
    obtain ⟨slot', n', hbase, hthen⟩ :=
      Plan.ends_bind_done.mp ((same_resolve_index pos base key _).mp h)
    obtain ⟨k, n'', hk, hinto⟩ := Plan.ends_bind_done.mp hthen
    cases Plan.ends_pure.mp hinto
    have hroot : slot'.root = base.root := ih hbase
    exact hroot

theorem held_undefined (hroot : m.lookup? p.root = none)
    (hslot : Ends (resolve maxDepth · p) m (.done slot n)) :
    slot.held m = .error (.undefinedVariable p.root) := by
  have hnone : m.changeable? p.root = none := by
    cases h : m.changeable? p.root with
    | none => rfl
    | some v => rw [Machine.lookup?_of_changeable? h] at hroot; cases hroot
  rw [Slot.held, Slot.modify, root_of_resolve hslot, hnone]
  rfl

theorem mutate_undefined (hproperty : property = "push" ∨ property = "pop")
    (hroot : m.lookup? p.root = none) {vs : List Value}
    (hslot : Ends (resolve maxDepth · p) m (.done slot m))
    (hvs : Ends (evalAll maxDepth · args) m (.done vs m)) (pos mpos : Position) :
    Ends ((Plan.task (.eval (.call pos (.member mpos p.toExpr property) args))).run maxDepth) m
      (.failed ⟨.undefinedVariable p.root, pos⟩ m) := by
  refine (same_mutate hproperty _).mpr
    ((Plan.ends_bind_of_done (p := .task (.resolve p)) hslot).mpr
      ((Plan.ends_bind_of_done (p := .task (.evalAll args)) hvs).mpr
        (Plan.ends_bind_failed.mpr (Or.inl ?_))))
  exact (same_heldSlot maxDepth pos slot m _).mpr
    (ends_lift_failed.mpr ⟨held_undefined hroot hslot, rfl, rfl⟩)

theorem callOn_undefined (hroot : m.lookup? p.root = none) (pos mpos : Position)
    (property : String) (args : List Expr) :
    Ends ((planCallOn pos mpos p property args).run maxDepth) m
      (.failed ⟨.undefinedVariable p.root, p.rootPos⟩ m) :=
  Plan.ends_bind_failed.mpr (Or.inl (toExpr_undefined hroot))

/-- Where the place can be read, an argument that fails is met by both calls. -/
theorem mutate_args_failed (hproperty : property = "push" ∨ property = "pop")
    (hkeys : ∀ key ∈ p.keys, Quiet (eval maxDepth · key) m) {e : ScriptError}
    (hread : Ends (eval maxDepth · p.toExpr) m (.done v m))
    (hfails : Ends (evalAll maxDepth · args) m (.failed e m)) (pos mpos : Position) :
    Ends ((Plan.task (.eval (.call pos (.member mpos p.toExpr property) args))).run maxDepth) m
        (.failed e m) ∧
      Ends ((planCallOn pos mpos p property args).run maxDepth) m (.failed e m) := by
  obtain ⟨slot, hslot, -⟩ := (ends_toExpr_done hkeys).mp hread
  constructor
  · exact (same_mutate hproperty _).mpr
      ((Plan.ends_bind_of_done (p := .task (.resolve p)) hslot).mpr
        (Plan.ends_bind_failed.mpr (Or.inl hfails)))
  · exact (Plan.ends_bind_of_done (p := .task (.eval p.toExpr)) hread).mpr
      (Plan.ends_bind_failed.mpr (Or.inl hfails))

end

/-! ## Any place -/

/-- **`push` and `pop` on a place agree with a call on its value.**  Evaluating the keys and the
    arguments shall change nothing.  If the place exists, whatever it holds, both calls give the
    same value or fail in the same way, or both diverge; the states they leave behind differ only by
    the array that is written back, if the place holds one.  If it does not exist, neither gives a
    value or changes anything.  Then they fail in the same way where the place has a value and an
    argument fails, and with the same fault where its variable is not defined and the rest can be
    evaluated. -/
theorem mutate_agrees_callOn {maxDepth : Nat} {m : Machine} {p : Place} {property : String}
    {args : List Expr} (hproperty : property = "push" ∨ property = "pop")
    (hkeys : ∀ key ∈ p.keys, Quiet (eval maxDepth · key) m)
    (hargs : ∀ arg ∈ args, Quiet (eval maxDepth · arg) m) (pos mpos : Position) :
    let mutate := (eval maxDepth · (.call pos (.member mpos p.toExpr property) args))
    let call := callOn maxDepth pos mpos p.toExpr property args
    (∀ slot v, Ends (resolve maxDepth · p) m (.done slot m) → slot.held m = .ok v →
      AgreeBut (fun n' n => ∃ vs, Ends (evalAll maxDepth · args) m (.done vs m) ∧
        slot.WrittenBack property v vs n' n) mutate call m) ∧
    ((∀ slot v, Ends (resolve maxDepth · p) m (.done slot m) → slot.held m ≠ .ok v) →
      Refused mutate m ∧ Refused call m) ∧
    (∀ v e, Ends (eval maxDepth · p.toExpr) m (.done v m) →
      Ends (evalAll maxDepth · args) m (.failed e m) →
      Ends mutate m (.failed e m) ∧ Ends call m (.failed e m)) ∧
    (m.lookup? p.root = none →
      (∀ slot vs, Ends (resolve maxDepth · p) m (.done slot m) →
        Ends (evalAll maxDepth · args) m (.done vs m) →
        Ends mutate m (.failed ⟨.undefinedVariable p.root, pos⟩ m)) ∧
      Ends call m (.failed ⟨.undefinedVariable p.root, p.rootPos⟩ m)) := by
  intro mutate call
  refine ⟨fun slot v hslot hheld => ?_, fun hheld => ?_, fun v e hread hfails => ?_,
    fun hroot => ?_⟩
  · by_cases hv : ∃ items, v = .array items
    · obtain ⟨items, rfl⟩ := hv
      exact mutate_array hargs hslot hproperty hkeys hheld pos mpos
    · exact mutate_of_no_array hargs hslot hproperty hkeys hheld (not_exists.mp hv) pos mpos
  · exact ⟨mutate_refused hproperty hkeys hargs hheld pos mpos,
      callOn_refused hproperty hkeys hargs hheld pos mpos⟩
  · exact mutate_args_failed hproperty hkeys hread hfails pos mpos
  · exact ⟨fun slot vs hslot hvs => mutate_undefined hproperty hroot hslot hvs pos mpos,
      callOn_undefined hroot pos mpos property args⟩

/-- A member of an object is pushed to. -/
theorem mutate_agrees_callOn_member :
    let m : Machine := .start 1 [("o", .object [("xs", .array [.text "a"])])]
    let m' : Machine := .start 1 [("o", .object [("xs", .array [.text "a", .text "b"])])]
    let p : Place := .member ⟨0, 0⟩ (.name ⟨0, 0⟩ "o") "xs"
    let args : List Expr := [.text ⟨0, 10⟩ "b"]
    let mutate := (eval 64 · (.call ⟨0, 0⟩ (.member ⟨0, 0⟩ p.toExpr "push") args))
    let call := callOn 64 ⟨0, 0⟩ ⟨0, 0⟩ p.toExpr "push" args
    (∀ key ∈ p.keys, Quiet (eval 64 · key) m) ∧ (∀ arg ∈ args, Quiet (eval 64 · arg) m) ∧
    AgreeBut (fun n' n => ∃ vs, Ends (evalAll 64 · args) m (.done vs m) ∧
      Slot.WrittenBack ⟨"o", [.text "xs"]⟩ "push" (.array [.text "a"]) vs n' n) mutate call m ∧
    Ends call m (.done (.number (Number.ofCount 2)) m) ∧
    Ends mutate m (.done (.number (Number.ofCount 2)) m') := by
  intro m m' p args mutate call
  have hkeys : ∀ key ∈ p.keys, Quiet (eval 64 · key) m := nofun
  have hargs : ∀ arg ∈ args, Quiet (eval 64 · arg) m := fun arg harg => by
    cases List.mem_singleton.mp harg
    exact Expr.quiet_of_isPlain rfl
  have hslot : Ends (resolve 64 · p) m (.done ⟨"o", [.text "xs"]⟩ m) := ⟨nofun, 2, rfl⟩
  have hagrees := (mutate_agrees_callOn (Or.inl rfl) hkeys hargs ⟨0, 0⟩ ⟨0, 0⟩).1 _ _ hslot rfl
  have hcall : Ends call m (.done (.number (Number.ofCount 2)) m) := ⟨nofun, 4, rfl⟩
  have hvs : Ends (evalAll 64 · args) m (.done [.text "b"] m) := ⟨nofun, 3, rfl⟩
  exact ⟨hkeys, hargs, hagrees, hcall, (hagrees.done _ m').mpr ⟨m, hcall, _, hvs, rfl⟩⟩

/-- The length of a text is no place that exists, so the two calls on it fail in different ways. -/
theorem push_on_length :
    let script := "s = \"ab\"; s.length.push(\"c\");"
    let first : Stmt := .expr (.assign ⟨0, 0⟩ none (.name ⟨0, 0⟩ "s") (.text ⟨0, 4⟩ "ab"))
    let p : Place := .member ⟨0, 10⟩ (.name ⟨0, 10⟩ "s") "length"
    let args : List Expr := [.text ⟨0, 24⟩ "c"]
    let mutate : Expr := .call ⟨0, 10⟩ (.member ⟨0, 10⟩ p.toExpr "push") args
    let m : Machine := .start 1 [("s", .text "ab")]
    parse script = .ok [first, .expr mutate] ∧
    exec 64 98 first (.start 1 []) = .done .next m ∧
    (∀ key ∈ p.keys, Quiet (eval 64 · key) m) ∧ (∀ arg ∈ args, Quiet (eval 64 · arg) m) ∧
    Ends (eval 64 · mutate) m (.failed ⟨.misuse (.missingMember "length"), ⟨0, 10⟩⟩ m) ∧
    Ends (callOn 64 ⟨0, 10⟩ ⟨0, 10⟩ p.toExpr "push" args) m
      (.failed ⟨.notCallable "number.push", ⟨0, 10⟩⟩ m) ∧
    execute ⟨64, 100⟩ script []
      = .failed ⟨.misuse (.missingMember "length"), ⟨0, 10⟩⟩ [("s", .text "ab")] := by
  intro script first p args mutate m
  have hlexemes : lexemes script = .ok
      [⟨.name "s", ⟨0, 0⟩, false⟩, ⟨.symbol .assign, ⟨0, 2⟩, false⟩,
       ⟨.text "ab", ⟨0, 4⟩, false⟩, ⟨.symbol .semicolon, ⟨0, 8⟩, false⟩,
       ⟨.name "s", ⟨0, 10⟩, false⟩, ⟨.symbol .dot, ⟨0, 11⟩, false⟩,
       ⟨.name "length", ⟨0, 12⟩, false⟩, ⟨.symbol .dot, ⟨0, 18⟩, false⟩,
       ⟨.name "push", ⟨0, 19⟩, false⟩, ⟨.symbol .leftParen, ⟨0, 23⟩, false⟩,
       ⟨.text "c", ⟨0, 24⟩, false⟩, ⟨.symbol .rightParen, ⟨0, 27⟩, false⟩,
       ⟨.symbol .semicolon, ⟨0, 28⟩, false⟩] := by
    decide +kernel
  have hparse : parse script = .ok [first, .expr mutate] := by
    rw [parse, hlexemes]
    rfl
  have hargs : ∀ arg ∈ args, Quiet (eval 64 · arg) m := fun arg harg => by
    cases List.mem_singleton.mp harg
    exact Expr.quiet_of_isPlain rfl
  have hkeys : ∀ key ∈ p.keys, Quiet (eval 64 · key) m := fun key hkey => by cases hkey
  have hends {e : ScriptError} : (Outcome.failed e m : Outcome Value) ≠ .exhausted := fun h => by
    cases h
  refine ⟨hparse, rfl, hkeys, hargs, ⟨hends, 4, rfl⟩, ⟨hends, 4, rfl⟩, ?_⟩
  rw [execute, hparse]
  rfl

end Stencil.Script
