/-
  What can be said of everything that runs.

  A `Logic` speaks about two effects side by side, which may differ in how many calls they allow to
  be active.  It has a rule for each way in which the evaluator makes effects: for sequences, for
  blocks and calls, and for the few effects that read or change the state.  The rules say what the
  code makes sure of: names are used as the code says, functions that are called have `F`, positions
  of faults are in `P`.  Whatever has these rules holds of the evaluator run beside itself: there
  is one lemma for each function of the evaluator, about one step more than those that it calls,
  and one induction on the steps (`Logic.covers`).  What is said of one effect alone is a logic
  too, that leaves the second one out of account.
-/
import Stencil.Proofs.Script.Run.States
import Stencil.Proofs.Script.Tree.Uses

namespace Stencil.Script

open Effect
open Value (Holds holds_undefined holds_null holds_bool holds_number holds_text holds_array
  holds_object holds_function)

/-! ## Code -/

/-- The positions of a piece of code are in `P`, and its uses of names in `U`. -/
structure Fits (P : Position → Prop) (U : NameUse × String → Prop) (positions : List Position)
    (uses : List (NameUse × String)) : Prop where
  positions : ∀ p ∈ positions, P p
  uses : ∀ u ∈ uses, U u

section

variable {P : Position → Prop} {U : NameUse × String → Prop} {p : Position} {u : NameUse × String}
  {ps qs : List Position} {us vs : List (NameUse × String)}

theorem fits_cons : Fits P U (p :: ps) us ↔ P p ∧ Fits P U ps us := by
  rw [fits_iff, fits_iff, List.forall_mem_cons, and_assoc]
where
  fits_iff {ps us} : Fits P U ps us ↔ (∀ p ∈ ps, P p) ∧ ∀ u ∈ us, U u :=
    ⟨fun h => ⟨h.1, h.2⟩, fun h => ⟨h.1, h.2⟩⟩

theorem fits_use : Fits P U ps (u :: us) ↔ U u ∧ Fits P U ps us :=
  ⟨fun h => ⟨h.uses u List.mem_cons_self, h.positions, fun w hw =>
    h.uses w (List.mem_cons_of_mem _ hw)⟩, fun h => ⟨h.2.positions, List.forall_mem_cons.mpr
      ⟨h.1, h.2.uses⟩⟩⟩

theorem fits_append : Fits P U (ps ++ qs) (us ++ vs) ↔ Fits P U ps us ∧ Fits P U qs vs := by
  constructor
  · rintro ⟨hpos, huses⟩
    rw [List.forall_mem_append] at hpos huses
    exact ⟨⟨hpos.1, huses.1⟩, ⟨hpos.2, huses.2⟩⟩
  · rintro ⟨h, h'⟩
    exact ⟨List.forall_mem_append.mpr ⟨h.positions, h'.positions⟩,
      List.forall_mem_append.mpr ⟨h.uses, h'.uses⟩⟩

end

/-- A statement finishes with a value that holds functions with `F` only, if with any. -/
def Flow.Holds (F : Function → Prop) : Flow → Prop
  | .ret v => Value.Holds F v
  | .next | .breakLoop | .continueLoop => True

/-- The positions of some statements are in `P`, and the functions declared in them have `F`. -/
structure Stmt.OverList (P : Position → Prop) (F : Function → Prop) (body : List Stmt) : Prop where
  positions : ∀ p ∈ Stmt.positionsList body, P p
  functions : ∀ f ∈ Stmt.functionsList body, F f

/-- The body of a function with `F` has its positions in `P`, and the functions declared in it have
    `F` again. -/
def Closed (P : Position → Prop) (F : Function → Prop) : Prop :=
  ∀ f, F f → Stmt.OverList P F f.body

/-- What the body of a function does with names. -/
def Function.Uses (f : Function) (u : NameUse × String) : Prop := u ∈ Stmt.usesList f.body

/-- The function, with those declared in it, uses names as in `A` only. -/
def Function.UsesOnly (A : NameUse × String → Prop) (f : Function) : Prop :=
  ∀ u ∈ Stmt.usesWhole f.body, A u

theorem closed_usesOnly (A : NameUse × String → Prop) :
    Closed (fun _ => True) (Function.UsesOnly A) := fun _ hf =>
  ⟨fun _ _ => trivial, fun _ hg u hu => hf u (Stmt.usesWhole_subset hg hu)⟩

theorem Stmt.overList_usesOnly {A : NameUse × String → Prop} {body : List Stmt}
    (h : ∀ u ∈ Stmt.usesWhole body, A u) :
    Stmt.OverList (fun _ => True) (Function.UsesOnly A) body :=
  ⟨fun _ _ => trivial, fun _ hg u hu => h u (Stmt.usesWhole_subset hg hu)⟩

/-- What is known of the functions declared directly among statements that use names as in `U`. -/
def Hoistable (F : Function → Prop) (U : NameUse × String → Prop) (body : List Stmt) : Prop :=
  ∀ f ∈ declaredFunctions body, F f ∧ U (.function, f.name)

theorem iterated?_holds {H : Value → Prop} [Value.Hereditary H] {v : Value} (hv : H v)
    {items : List Value} (h : iterated? v = some items) : ∀ w ∈ items, H w := by
  unfold iterated? at h
  split at h <;> cases h
  · exact Value.Hereditary.array.mp hv
  · rw [List.forall_mem_map]
    exact fun _ _ => Value.Hereditary.text _

/-! ## Reading the state -/

/-- The value of a name, if it has one. -/
def lookupName (name : String) : Effect (Option Value) := do return (← get).lookup? name

/-- What can be read from a slot. -/
def readSlot (pos : Position) (slot : Slot) : Effect Value := do lift pos (slot.read (← get))

section

variable {maxDepth steps : Nat} {pos : Position}

theorem eval_name_succ (name : String) :
    eval maxDepth (steps + 1) (.name pos name) = (do
      match ← lookupName name with
      | some v => return v
      | none => fail pos (.undefinedVariable name)) := rfl

theorem eval_typeOf_succ (p : Position) (name : String) :
    eval maxDepth (steps + 1) (.unary pos .typeOf (.name p name)) = (do
      return .text ((← lookupName name).getD .undefined).typeName) := rfl

theorem eval_assignWith_succ (op : BinaryOp) (target : Place) (value : Expr) :
    eval maxDepth (steps + 1) (.assign pos (some op) target value) = (do
      let slot ← resolve maxDepth steps target
      let old ← readSlot pos slot
      let v ← eval maxDepth steps value
      writeSlot pos slot (op.apply old v)
      return op.apply old v) := rfl

theorem eval_update_succ (op : UpdateOp) (before : Bool) (target : Place) :
    eval maxDepth (steps + 1) (.update pos op before target) = (do
      let slot ← resolve maxDepth steps target
      let old ← readSlot pos slot
      writeSlot pos slot (.number (op.apply old.toNumber))
      return .number (if before then op.apply old.toNumber else old.toNumber)) := rfl

end

/-! ## Rules -/

/-- A way to speak about two effects, with a rule for each way in which the evaluator makes effects.
    `Says U D x y Q` is said of `x` and `y` where names are used as in `U` only and only names in
    `D` are declared by `let` and `const` in the innermost block; the results have `Q`. -/
structure Logic (P : Position → Prop) (F : Function → Prop) (maxDepth maxDepth' : Nat) where
  Says : {α : Type} → (NameUse × String → Prop) → (String → Prop) → Effect α → Effect α →
    (α → Prop) → Prop
  of_pure : ∀ {α : Type} {U D} {a : α} {Q}, Q a → Says U D (pure a) (pure a) Q
  of_exhausted : ∀ {α : Type} {U D} {Q : α → Prop}, Says U D exhausted exhausted Q
  of_bind : ∀ {α β : Type} {U D} {x y : Effect α} {f g : α → Effect β} {R Q}, Says U D x y R →
    (∀ a, R a → Says U D (f a) (g a) Q) → Says U D (x >>= f) (y >>= g) Q
  /-- An operation on values; what it cannot do is a fault. -/
  of_lift : ∀ {α : Type} {U D pos} {r : Except Fault α} {Q}, P pos → Gives r Q →
    Says U D (lift pos r) (lift pos r) Q
  of_lookup : ∀ {U D name}, U (.read, name) → Says U D (lookupName name) (lookupName name)
    fun v? => ∀ v, v? = some v → Value.Holds F v
  of_read : ∀ {U D pos} {slot : Slot}, P pos → U (.change, slot.root) →
    Says U D (readSlot pos slot) (readSlot pos slot) (Value.Holds F)
  of_write : ∀ {U D pos} {slot : Slot} {v}, P pos → U (.change, slot.root) → Value.Holds F v →
    Says U D (writeSlot pos slot v) (writeSlot pos slot v) fun _ => True
  /-- The array in a slot is changed there; anything else in it is used as a value. -/
  of_mutate : ∀ {U D pos} {slot : Slot} {pop args} {f g : Value → Effect Value},
    P pos → U (.change, slot.root) → (∀ v ∈ args, Value.Holds F v) →
    (∀ v, Value.Holds F v → Says U D (f v) (g v) (Value.Holds F)) →
    Says U D
      (get >>= fun m => lift pos (slot.held m) >>= fun v =>
        match v with
        | .array items => changeArray pos slot pop items args
        | v => f v)
      (get >>= fun m => lift pos (slot.held m) >>= fun v =>
        match v with
        | .array items => changeArray pos slot pop items args
        | v => g v) (Value.Holds F)
  of_append : ∀ {U D pos args}, P pos → (∀ v ∈ args, Value.Holds F v) →
    Says U D (appendOutput pos args) (appendOutput pos args) (Value.Holds F)
  of_declare : ∀ {U D pos kind name v}, P pos → U (.declare kind, name) →
    (kind ≠ .varDecl → D name) → Value.Holds F v →
    Says U D (declareName pos kind name v) (declareName pos kind name v) fun _ => True
  /-- A block: functions are declared in front, and any name may be declared in it. -/
  of_block : ∀ {α : Type} {U D body} {x y : Effect α} {Q}, Hoistable F U body →
    Says U (fun _ => True) x y Q →
    Says U D (within .block do modify fun m => m.hoist body; x)
      (within .block do modify fun m => m.hoist body; y) Q
  /-- Only so many calls may be active. -/
  of_limit : ∀ {α : Type} {U D pos} {x y : Effect α} {Q}, P pos → Says U D x y Q →
    Says U D
      (get >>= fun m => if maxDepth ≤ m.depth then fail pos (.callDepthExceeded maxDepth) else x)
      (get >>= fun m => if maxDepth' ≤ m.depth then fail pos (.callDepthExceeded maxDepth') else y)
      Q
  /-- A call: the body uses names in its own way, and any name may be declared in its frame. -/
  of_call : ∀ {α : Type} {U D run f args} {x y : Effect α} {Q}, F f →
    Hoistable F f.Uses f.body → (∀ v ∈ args, Value.Holds F v) →
    Says f.Uses (fun _ => True) x y Q →
    Says U D (inCall run (Scope.ofCall run f args) do modify fun m => m.hoist f.body; x)
      (inCall run (Scope.ofCall run f args) do modify fun m => m.hoist f.body; y) Q

namespace Logic

variable {P : Position → Prop} {F : Function → Prop} {maxDepth maxDepth' : Nat}

/-! ## One step more -/

/-- With so many steps, the logic holds of every function of the evaluator, on code over `P` and
    `F`. -/
structure Covers (L : Logic P F maxDepth maxDepth') (steps : Nat) : Prop where
  eval : ∀ {U D} e, Fits P U e.positions e.uses →
    L.Says U D (eval maxDepth steps e) (eval maxDepth' steps e) (Holds F)
  evalAll : ∀ {U D} es, Fits P U (Expr.positionsItems es) (Expr.usesItems es) →
    L.Says U D (evalAll maxDepth steps es) (evalAll maxDepth' steps es)
      fun vs => ∀ v ∈ vs, Holds F v
  evalMembers : ∀ {U D} es members, Fits P U (Expr.positionsMembers es) (Expr.usesMembers es) →
    (∀ p ∈ members, Holds F p.2) →
    L.Says U D (evalMembers maxDepth steps es members) (evalMembers maxDepth' steps es members)
      fun members => ∀ p ∈ members, Holds F p.2
  resolve : ∀ {U D} place, Fits P U place.positions place.uses →
    L.Says U D (resolve maxDepth steps place) (resolve maxDepth' steps place)
      fun slot => slot.root = place.root
  callMethod : ∀ {U D pos callee receiver name args}, P pos → (∀ p ∈ callee.positions, P p) →
    Holds F receiver → (∀ v ∈ args, Holds F v) →
    L.Says U D (callMethod maxDepth steps pos callee receiver name args)
      (callMethod maxDepth' steps pos callee receiver name args) (Holds F)
  callValue : ∀ {U D pos callee v args}, P pos → (∀ p ∈ callee.positions, P p) → Holds F v →
    (∀ v ∈ args, Holds F v) →
    L.Says U D (callValue maxDepth steps pos callee v args)
      (callValue maxDepth' steps pos callee v args) (Holds F)
  callFunction : ∀ {U D pos run f args}, P pos → F f → (∀ v ∈ args, Holds F v) →
    L.Says U D (callFunction maxDepth steps pos run f args)
      (callFunction maxDepth' steps pos run f args) (Holds F)
  exec : ∀ {U} {D : String → Prop} s, Fits P U s.positions s.uses → (∀ f ∈ s.functions, F f) →
    (∀ name ∈ s.bound, D name) →
    L.Says U D (exec maxDepth steps s) (exec maxDepth' steps s) (Flow.Holds F)
  execAll : ∀ {U} body, Fits P U (Stmt.positionsList body) (Stmt.usesList body) →
    (∀ f ∈ Stmt.functionsList body, F f) →
    L.Says U (fun _ => True) (execAll maxDepth steps body) (execAll maxDepth' steps body)
      (Flow.Holds F)
  declareAll : ∀ {U} {D : String → Prop} kind items,
    Fits P U (Declarator.positionsList items) (Declarator.usesList kind items) →
    (kind ≠ .varDecl → ∀ d ∈ items, D d.name) →
    L.Says U D (declareAll maxDepth steps kind items) (declareAll maxDepth' steps kind items)
      fun _ => True
  execBlock : ∀ {U D} body, Fits P U (Stmt.positionsList body) (Stmt.usesList body) →
    (∀ f ∈ Stmt.functionsList body, F f) →
    L.Says U D (execBlock maxDepth steps body) (execBlock maxDepth' steps body) (Flow.Holds F)
  execScoped : ∀ {U D} s, Fits P U s.positions s.uses → (∀ f ∈ s.functions, F f) →
    L.Says U D (execScoped maxDepth steps s) (execScoped maxDepth' steps s) (Flow.Holds F)
  execWhile : ∀ {U D} cond body, Fits P U cond.positions cond.uses →
    Fits P U body.positions body.uses → (∀ f ∈ body.functions, F f) →
    L.Says U D (execWhile maxDepth steps cond body) (execWhile maxDepth' steps cond body)
      (Flow.Holds F)
  execDoWhile : ∀ {U D} body cond, Fits P U body.positions body.uses →
    Fits P U cond.positions cond.uses → (∀ f ∈ body.functions, F f) →
    L.Says U D (execDoWhile maxDepth steps body cond) (execDoWhile maxDepth' steps body cond)
      (Flow.Holds F)
  execFor : ∀ {U D} cond update body,
    Fits P U (Expr.positionsOption cond) (Expr.usesOption cond) →
    Fits P U (Expr.positionsOption update) (Expr.usesOption update) →
    Fits P U body.positions body.uses → (∀ f ∈ body.functions, F f) →
    L.Says U D (execFor maxDepth steps cond update body) (execFor maxDepth' steps cond update body)
      (Flow.Holds F)
  execForOf : ∀ {U D pos kind name body items}, P pos → U (.declare kind, name) →
    Fits P U body.positions body.uses → (∀ f ∈ body.functions, F f) → (∀ v ∈ items, Holds F v) →
    L.Says U D (execForOf maxDepth steps pos kind name body items)
      (execForOf maxDepth' steps pos kind name body items) (Flow.Holds F)

namespace Covers

variable {L : Logic P F maxDepth maxDepth'} {steps : Nat} {U : NameUse × String → Prop}
  {D : String → Prop}

/-- With no step left nothing happens. -/
theorem zero : L.Covers 0 where
  eval _ _ := L.of_exhausted
  evalAll _ _ := L.of_exhausted
  evalMembers _ _ _ _ := L.of_exhausted
  resolve _ _ := L.of_exhausted
  callMethod _ _ _ _ := L.of_exhausted
  callValue _ _ _ _ := L.of_exhausted
  callFunction _ _ _ := L.of_exhausted
  exec _ _ _ _ := L.of_exhausted
  execAll _ _ _ := L.of_exhausted
  declareAll _ _ _ _ := L.of_exhausted
  execBlock _ _ _ := L.of_exhausted
  execScoped _ _ _ := L.of_exhausted
  execWhile _ _ _ _ _ := L.of_exhausted
  execDoWhile _ _ _ _ _ := L.of_exhausted
  execFor _ _ _ _ _ _ _ := L.of_exhausted
  execForOf _ _ _ _ _ := L.of_exhausted

/-- The value of an assignment or an update is written to its slot. -/
theorem written {pos : Position} (hpos : P pos) {slot : Slot} (hslot : U (.change, slot.root))
    {v w : Value} (hv : Holds F v) (hw : Holds F w) :
    L.Says U D (do writeSlot pos slot v; return w) (do writeSlot pos slot v; return w)
      (Holds F) :=
  L.of_bind (L.of_write hpos hslot hv) fun _ _ => L.of_pure hw

/-- A round of a loop: the body may leave the loop or the function, or go on with the next round. -/
theorem round {x y : Effect Flow} (hround : L.Says U D x y (Flow.Holds F))
    {next next' : Effect Flow} (hnext : L.Says U D next next' (Flow.Holds F)) :
    L.Says U D (do
      match ← x with
      | .breakLoop => return .next
      | .ret v => return .ret v
      | .next | .continueLoop => next) (do
      match ← y with
      | .breakLoop => return .next
      | .ret v => return .ret v
      | .next | .continueLoop => next') (Flow.Holds F) := by
  refine L.of_bind hround fun flow hflow => ?_
  cases flow with
  | next => exact hnext
  | continueLoop => exact hnext
  | breakLoop => exact L.of_pure trivial
  | ret v => exact L.of_pure hflow

variable (h : L.Covers steps)

include h

/-! ### Expressions -/

theorem call_succ {pos : Position} {callee : Expr} {args : List Expr} (hpos : P pos)
    (hmutates : ∀ u ∈ callee.mutates, U u) (hcallee : Fits P U callee.positions callee.uses)
    (hargs : Fits P U (Expr.positionsItems args) (Expr.usesItems args)) :
    L.Says U D (Script.eval maxDepth (steps + 1) (.call pos callee args))
      (Script.eval maxDepth' (steps + 1) (.call pos callee args)) (Holds F) := by
  cases callee with
  | member mpos object property =>
    have hobject : Fits P U object.positions object.uses := by
      rw [Expr.positions, Expr.uses, fits_cons] at hcallee
      exact hcallee.2
    rw [Script.eval, Script.eval]
    split
    · -- the array in a place is changed there
      rename_i place hplace
      have hroot : U (.change, place.root) := by
        refine hmutates _ ?_
        simp [Expr.mutates, hplace]
      have hfits : Fits P U place.positions place.uses := by
        unfold mutatedPlace? at hplace
        split at hplace
        · refine ⟨?_, fun u hu => ?_⟩
          · rw [Expr.positions_of_toPlace? hplace]
            exact hobject.positions
          · rcases Place.uses_toExpr hu with rfl | hu
            · exact hroot
            · rw [Place.toExpr_of_toPlace? hplace] at hu
              exact hobject.uses u hu
        · cases hplace
      refine L.of_bind (h.resolve place hfits) fun slot hslot =>
        L.of_bind (h.evalAll args hargs) fun vs hvs => ?_
      exact L.of_mutate hpos (hslot ▸ hroot) hvs fun v hv =>
        h.callMethod hpos hcallee.positions hv hvs
    · exact L.of_bind (h.eval object hobject) fun v hv =>
        L.of_bind (h.evalAll args hargs) fun vs hvs => h.callMethod hpos hcallee.positions hv hvs
  | _ =>
    rw [Script.eval, Script.eval]
    · exact L.of_bind (h.eval _ hcallee) fun f hf => L.of_bind (h.evalAll args hargs) fun vs hvs =>
        h.callValue hpos hcallee.positions hf hvs
    all_goals simp

theorem eval_succ (e : Expr) (he : Fits P U e.positions e.uses) :
    L.Says U D (Script.eval maxDepth (steps + 1) e) (Script.eval maxDepth' (steps + 1) e)
      (Holds F) := by
  cases e with
  | number pos x => exact L.of_pure (holds_number x)
  | text pos s => exact L.of_pure (holds_text s)
  | bool pos b => exact L.of_pure (holds_bool b)
  | null pos => exact L.of_pure holds_null
  | undefined pos => exact L.of_pure holds_undefined
  | name pos s =>
    rw [eval_name_succ, eval_name_succ]
    refine L.of_bind (L.of_lookup (he.uses _ List.mem_cons_self)) fun v? hv => ?_
    cases v? with
    | none => exact L.of_lift (he.positions pos List.mem_cons_self) (r := .error _) rfl
    | some v => exact L.of_pure (hv v rfl)
  | array pos items =>
    rw [Expr.positions, Expr.uses, fits_cons] at he
    rw [Script.eval, Script.eval]
    exact L.of_bind (h.evalAll items he.2) fun vs hvs => L.of_pure (holds_array.mpr hvs)
  | object pos members =>
    rw [Expr.positions, Expr.uses, fits_cons] at he
    rw [Script.eval, Script.eval]
    exact L.of_bind (h.evalMembers members [] he.2 (by simp)) fun ms hms =>
      L.of_pure (holds_object.mpr hms)
  | unary pos op operand =>
    rw [Expr.positions, Expr.uses, fits_cons] at he
    have hoperand : L.Says U D (do return op.apply (← Script.eval maxDepth steps operand))
        (do return op.apply (← Script.eval maxDepth' steps operand)) (Holds F) :=
      L.of_bind (h.eval operand he.2) fun v _ =>
        L.of_pure (by cases op <;> simp [UnaryOp.apply])
    by_cases hname : op = .typeOf ∧ ∃ pos s, operand = .name pos s
    · -- a name that has no value has a kind
      obtain ⟨rfl, _, s, rfl⟩ := hname
      rw [eval_typeOf_succ, eval_typeOf_succ]
      exact L.of_bind (L.of_lookup (he.2.uses _ List.mem_cons_self)) fun _ _ =>
        L.of_pure (holds_text _)
    · have hoperator : ∀ pos s, op = .typeOf → operand = .name pos s → False :=
        fun _ s hop hs => hname ⟨hop, _, s, hs⟩
      rw [Script.eval, Script.eval]
      · exact hoperand
      · exact hoperator
      · exact hoperator
  | binary pos op lhs rhs =>
    rw [Expr.positions, Expr.uses, fits_cons, fits_append] at he
    rw [Script.eval, Script.eval]
    exact L.of_bind (h.eval lhs he.2.1) fun a _ => L.of_bind (h.eval rhs he.2.2) fun b _ =>
      L.of_pure (op.apply_holds a b)
  | logical pos op lhs rhs =>
    rw [Expr.positions, Expr.uses, fits_cons, fits_append] at he
    rw [Script.eval, Script.eval]
    refine L.of_bind (h.eval lhs he.2.1) fun a ha => ?_
    split
    · exact L.of_pure ha
    · exact h.eval rhs he.2.2
  | conditional pos cond whenTrue whenFalse =>
    rw [Expr.positions, Expr.uses, fits_cons, fits_append, fits_append] at he
    rw [Script.eval, Script.eval]
    refine L.of_bind (h.eval cond he.2.1) fun v _ => ?_
    split
    · exact h.eval whenTrue he.2.2.1
    · exact h.eval whenFalse he.2.2.2
  | assign pos op target value =>
    rw [Expr.positions, Expr.uses, fits_cons, fits_append] at he
    have hroot : ∀ slot : Slot, slot.root = target.root → U (.change, slot.root) :=
      fun slot hslot => hslot ▸ he.2.1.uses _ target.root_mem_uses
    cases op with
    | none =>
      rw [Script.eval, Script.eval]
      exact L.of_bind (h.resolve target he.2.1) fun slot hslot =>
        L.of_bind (h.eval value he.2.2) fun v hv => written he.1 (hroot slot hslot) hv hv
    | some op =>
      rw [eval_assignWith_succ, eval_assignWith_succ]
      exact L.of_bind (h.resolve target he.2.1) fun slot hslot =>
        L.of_bind (L.of_read he.1 (hroot slot hslot)) fun old _ =>
          L.of_bind (h.eval value he.2.2) fun v _ =>
            written he.1 (hroot slot hslot) (op.apply_holds _ _) (op.apply_holds _ _)
  | update pos op before target =>
    rw [Expr.positions, Expr.uses, fits_cons] at he
    have hroot : ∀ slot : Slot, slot.root = target.root → U (.change, slot.root) :=
      fun slot hslot => hslot ▸ he.2.uses _ target.root_mem_uses
    rw [eval_update_succ, eval_update_succ]
    exact L.of_bind (h.resolve target he.2) fun slot hslot =>
      L.of_bind (L.of_read he.1 (hroot slot hslot)) fun old _ =>
        written he.1 (hroot slot hslot) (holds_number _) (holds_number _)
  | member pos object property =>
    rw [Expr.positions, Expr.uses, fits_cons] at he
    rw [Script.eval, Script.eval]
    exact L.of_bind (h.eval object he.2) fun v hv =>
      L.of_lift he.1 (Value.readMember_yields hv property).gives
  | index pos object key =>
    rw [Expr.positions, Expr.uses, fits_cons, fits_append] at he
    rw [Script.eval, Script.eval]
    exact L.of_bind (h.eval object he.2.1) fun v hv => L.of_bind (h.eval key he.2.2) fun k _ =>
      L.of_lift he.1 (Value.readIndex_yields hv k).gives
  | call pos callee args =>
    rw [Expr.positions, Expr.uses, fits_cons] at he
    have hmutates : ∀ u ∈ callee.mutates, U u := fun u hu => he.2.uses u (List.mem_append_left _ hu)
    have hparts : Fits P U (callee.positions ++ Expr.positionsItems args)
        (callee.uses ++ Expr.usesItems args) :=
      ⟨he.2.positions, fun u hu => he.2.uses u (List.mem_append_right _ hu)⟩
    rw [fits_append] at hparts
    exact h.call_succ he.1 hmutates hparts.1 hparts.2

theorem evalAll_succ (es : List Expr)
    (hes : Fits P U (Expr.positionsItems es) (Expr.usesItems es)) :
    L.Says U D (Script.evalAll maxDepth (steps + 1) es) (Script.evalAll maxDepth' (steps + 1) es)
      fun vs => ∀ v ∈ vs, Holds F v := by
  cases es with
  | nil => exact L.of_pure (by simp)
  | cons e rest =>
    rw [Expr.positionsItems, Expr.usesItems, fits_append] at hes
    exact L.of_bind (h.eval e hes.1) fun v hv => L.of_bind (h.evalAll rest hes.2) fun vs hvs =>
      L.of_pure (List.forall_mem_cons.mpr ⟨hv, hvs⟩)

theorem evalMembers_succ (es : List (String × Expr)) (members : Dict Value)
    (hes : Fits P U (Expr.positionsMembers es) (Expr.usesMembers es))
    (hmembers : ∀ p ∈ members, Holds F p.2) :
    L.Says U D (Script.evalMembers maxDepth (steps + 1) es members)
      (Script.evalMembers maxDepth' (steps + 1) es members)
      fun members => ∀ p ∈ members, Holds F p.2 := by
  cases es with
  | nil => exact L.of_pure hmembers
  | cons x rest =>
    obtain ⟨key, e⟩ := x
    rw [Expr.positionsMembers, Expr.usesMembers, fits_append] at hes
    exact L.of_bind (h.eval e hes.1) fun v hv =>
      h.evalMembers rest _ hes.2 (Dict.forall_insert hmembers key hv)

theorem resolve_succ (place : Place) (hplace : Fits P U place.positions place.uses) :
    L.Says U D (Script.resolve maxDepth (steps + 1) place)
      (Script.resolve maxDepth' (steps + 1) place) fun slot => slot.root = place.root := by
  cases place with
  | name pos s => exact L.of_pure rfl
  | member pos base property =>
    rw [Place.positions, Place.uses, fits_cons] at hplace
    exact L.of_bind (h.resolve base hplace.2) fun slot hslot => L.of_pure hslot
  | index pos base key =>
    rw [Place.positions, Place.uses, fits_cons, fits_append] at hplace
    exact L.of_bind (h.resolve base hplace.2.1) fun slot hslot =>
      L.of_bind (h.eval key hplace.2.2) fun k _ => L.of_pure hslot

/-! ### Calls -/

theorem callMethod_succ {pos : Position} {callee : Expr} {receiver : Value} {name : String}
    {args : List Value} (hpos : P pos) (hcallee : ∀ p ∈ callee.positions, P p)
    (hreceiver : Holds F receiver) (hargs : ∀ v ∈ args, Holds F v) :
    L.Says U D (Script.callMethod maxDepth (steps + 1) pos callee receiver name args)
      (Script.callMethod maxDepth' (steps + 1) pos callee receiver name args) (Holds F) := by
  unfold Script.callMethod
  dsimp only
  split
  · rename_i f hown
    have hf : Holds F f := by
      split at hown
      · exact Dict.forall_get? (holds_object.mp hreceiver) hown
      · cases hown
    exact h.callValue hpos hcallee hf hargs
  · exact L.of_lift hpos (Value.callMethod_yields hreceiver name args).gives

theorem callValue_succ {pos : Position} {callee : Expr} {v : Value} {args : List Value}
    (hpos : P pos) (hcallee : ∀ p ∈ callee.positions, P p) (hv : Holds F v)
    (hargs : ∀ v ∈ args, Holds F v) :
    L.Says U D (Script.callValue maxDepth (steps + 1) pos callee v args)
      (Script.callValue maxDepth' (steps + 1) pos callee v args) (Holds F) := by
  unfold Script.callValue
  split
  · exact h.callFunction hpos (holds_function.mp hv) hargs
  · exact L.of_append hpos hargs
  · exact L.of_lift hpos (Native.call_yields _ args).gives
  · exact L.of_lift (hcallee _ callee.pos_mem_positions) (r := .error _) rfl

/-- The body of a function runs with its parameters and its own name in scope. -/
theorem callFunction_succ (hclosed : Closed P F) {pos : Position} {run : Nat} {f : Function}
    {args : List Value} (hpos : P pos) (hf : F f) (hargs : ∀ v ∈ args, Holds F v) :
    L.Says U D (Script.callFunction maxDepth (steps + 1) pos run f args)
      (Script.callFunction maxDepth' (steps + 1) pos run f args) (Holds F) := by
  have hbody := hclosed f hf
  have hhoist : Hoistable F f.Uses f.body := fun g hg =>
    ⟨hbody.functions g (mem_functionsList_of_declared hg), mem_usesList_of_declared hg⟩
  have hrun := h.execAll (U := f.Uses) f.body ⟨hbody.positions, fun _ hu => hu⟩ hbody.functions
  rw [Script.callFunction, Script.callFunction]
  refine L.of_limit hpos (L.of_bind (L.of_call hf hhoist hargs hrun) fun flow hflow => ?_)
  cases flow with
  | ret v => exact L.of_pure hflow
  | next => exact L.of_pure holds_undefined
  | breakLoop => exact L.of_pure holds_undefined
  | continueLoop => exact L.of_pure holds_undefined

/-! ### Statements -/

theorem exec_succ (s : Stmt) (hs : Fits P U s.positions s.uses) (hfun : ∀ f ∈ s.functions, F f)
    (hbound : ∀ name ∈ s.bound, D name) :
    L.Says U D (Script.exec maxDepth (steps + 1) s) (Script.exec maxDepth' (steps + 1) s)
      (Flow.Holds F) := by
  cases s with
  | declare kind items =>
    rw [Script.exec, Script.exec]
    refine L.of_bind (h.declareAll kind items hs fun hkind d hd => ?_) fun _ _ => L.of_pure trivial
    cases kind with
    | varDecl => exact absurd rfl hkind
    | letDecl => exact hbound _ (List.mem_map_of_mem hd)
    | constDecl => exact hbound _ (List.mem_map_of_mem hd)
  | expr e =>
    rw [Script.exec, Script.exec]
    exact L.of_bind (h.eval e hs) fun _ _ => L.of_pure trivial
  | branch cond whenTrue whenFalse =>
    rw [Stmt.positions, Stmt.uses, fits_append, fits_append] at hs
    rw [Stmt.functions, List.forall_mem_append] at hfun
    refine L.of_bind (h.eval cond hs.1) fun v _ => ?_
    split
    · exact h.execScoped whenTrue hs.2.1 hfun.1
    · cases whenFalse with
      | none => exact L.of_pure trivial
      | some s => exact h.execScoped s hs.2.2 hfun.2
  | whileLoop cond body =>
    rw [Stmt.positions, Stmt.uses, fits_append] at hs
    rw [Script.exec, Script.exec]
    exact h.execWhile cond body hs.1 hs.2 hfun
  | doWhile body cond =>
    rw [Stmt.positions, Stmt.uses, fits_append] at hs
    rw [Script.exec, Script.exec]
    exact h.execDoWhile body cond hs.1 hs.2 hfun
  | forLoop start cond update body =>
    rw [Stmt.positions, Stmt.uses, fits_append, fits_append, fits_append] at hs
    have hrounds := h.execFor (U := U) (D := fun _ => True) cond update body hs.2.1 hs.2.2.1
      hs.2.2.2 hfun
    have hnone : Hoistable F U [] := fun f hf => absurd hf List.not_mem_nil
    rw [Script.exec, Script.exec]
    refine L.of_block hnone ?_
    cases start with
    | none => exact L.of_bind (L.of_pure (a := ()) trivial) fun _ (_ : True) => hrounds
    | some start =>
      cases start with
      | declare kind items =>
        exact L.of_bind (h.declareAll kind items hs.1 fun _ _ _ => trivial) fun _ _ => hrounds
      | expr e => exact L.of_bind (h.eval e hs.1) fun _ _ => hrounds
  | forOf kind name iterable body =>
    rw [Stmt.positions, Stmt.uses, fits_use, fits_append] at hs
    have hiter := hs.2.1.positions _ iterable.pos_mem_positions
    rw [Script.exec, Script.exec]
    refine L.of_bind (h.eval iterable hs.2.1) fun v hv => ?_
    split
    · rename_i items hitems
      exact h.execForOf hiter hs.1 hs.2.2 hfun (iterated?_holds hv hitems)
    · exact L.of_lift hiter (r := .error _) rfl
  | block body =>
    rw [Script.exec, Script.exec]
    exact h.execBlock body hs hfun
  | function pos name params body => exact L.of_pure trivial
  | ret value =>
    cases value with
    | none => exact L.of_pure holds_undefined
    | some e => exact L.of_bind (h.eval e hs) fun v hv => L.of_pure hv
  | breakLoop => exact L.of_pure trivial
  | continueLoop => exact L.of_pure trivial
  | empty => exact L.of_pure trivial

theorem execAll_succ (body : List Stmt)
    (hbody : Fits P U (Stmt.positionsList body) (Stmt.usesList body))
    (hfun : ∀ f ∈ Stmt.functionsList body, F f) :
    L.Says U (fun _ => True) (Script.execAll maxDepth (steps + 1) body)
      (Script.execAll maxDepth' (steps + 1) body) (Flow.Holds F) := by
  cases body with
  | nil => exact L.of_pure trivial
  | cons s rest =>
    rw [Stmt.positionsList, Stmt.usesList, fits_append] at hbody
    rw [Stmt.functionsList, List.forall_mem_append] at hfun
    rw [Script.execAll, Script.execAll]
    refine L.of_bind (h.exec s hbody.1 hfun.1 fun _ _ => trivial) fun flow hflow => ?_
    cases flow with
    | next => exact h.execAll rest hbody.2 hfun.2
    | ret v => exact L.of_pure hflow
    | breakLoop => exact L.of_pure trivial
    | continueLoop => exact L.of_pure trivial

theorem declareAll_succ (kind : DeclKind) (items : List Declarator)
    (hitems : Fits P U (Declarator.positionsList items) (Declarator.usesList kind items))
    (hbound : kind ≠ .varDecl → ∀ d ∈ items, D d.name) :
    L.Says U D (Script.declareAll maxDepth (steps + 1) kind items)
      (Script.declareAll maxDepth' (steps + 1) kind items) fun _ => True := by
  cases items with
  | nil => exact L.of_pure trivial
  | cons d rest =>
    rw [Declarator.positionsList, Declarator.usesList, fits_cons, fits_use, fits_append] at hitems
    obtain ⟨hpos, huse, hinit, hothers⟩ := hitems
    have hrest : ∀ v, Holds F v → L.Says U D (do
        declareName d.pos kind d.name v
        Script.declareAll maxDepth steps kind rest) (do
        declareName d.pos kind d.name v
        Script.declareAll maxDepth' steps kind rest) fun _ => True := fun v hv =>
      L.of_bind (L.of_declare hpos huse (fun hkind => hbound hkind d List.mem_cons_self) hv)
        fun _ _ => h.declareAll kind rest hothers fun hkind d' hd' =>
          hbound hkind d' (List.mem_cons_of_mem _ hd')
    rw [Script.declareAll, Script.declareAll]
    cases hd : d.init with
    | none => exact L.of_bind (L.of_pure holds_undefined) hrest
    | some e =>
      rw [hd] at hinit
      exact L.of_bind (h.eval e hinit) hrest

theorem execBlock_succ (body : List Stmt)
    (hbody : Fits P U (Stmt.positionsList body) (Stmt.usesList body))
    (hfun : ∀ f ∈ Stmt.functionsList body, F f) :
    L.Says U D (Script.execBlock maxDepth (steps + 1) body)
      (Script.execBlock maxDepth' (steps + 1) body) (Flow.Holds F) :=
  L.of_block (fun f hf => ⟨hfun f (mem_functionsList_of_declared hf),
    hbody.uses _ (mem_usesList_of_declared hf)⟩) (h.execAll body hbody hfun)

theorem execScoped_succ (s : Stmt) (hs : Fits P U s.positions s.uses)
    (hfun : ∀ f ∈ s.functions, F f) :
    L.Says U D (Script.execScoped maxDepth (steps + 1) s)
      (Script.execScoped maxDepth' (steps + 1) s) (Flow.Holds F) := by
  have hnone : Hoistable F U [] := fun f hf => absurd hf List.not_mem_nil
  cases s with
  | block body => exact h.execBlock body hs hfun
  | _ =>
    rw [Script.execScoped, Script.execScoped]
    · exact L.of_block hnone (h.exec _ hs hfun fun _ _ => trivial)
    all_goals simp

/-! ### Loops -/

theorem execWhile_succ (cond : Expr) (body : Stmt) (hcond : Fits P U cond.positions cond.uses)
    (hbody : Fits P U body.positions body.uses) (hfun : ∀ f ∈ body.functions, F f) :
    L.Says U D (Script.execWhile maxDepth (steps + 1) cond body)
      (Script.execWhile maxDepth' (steps + 1) cond body) (Flow.Holds F) := by
  rw [Script.execWhile, Script.execWhile]
  refine L.of_bind (h.eval cond hcond) fun v _ => ?_
  split
  · exact round (h.execScoped body hbody hfun) (h.execWhile cond body hcond hbody hfun)
  · exact L.of_pure trivial

theorem execDoWhile_succ (body : Stmt) (cond : Expr) (hbody : Fits P U body.positions body.uses)
    (hcond : Fits P U cond.positions cond.uses) (hfun : ∀ f ∈ body.functions, F f) :
    L.Says U D (Script.execDoWhile maxDepth (steps + 1) body cond)
      (Script.execDoWhile maxDepth' (steps + 1) body cond) (Flow.Holds F) := by
  rw [Script.execDoWhile, Script.execDoWhile]
  refine round (h.execScoped body hbody hfun) (L.of_bind (h.eval cond hcond) fun v _ => ?_)
  split
  · exact h.execDoWhile body cond hbody hcond hfun
  · exact L.of_pure trivial

/-- A round of a counting loop, after its condition has been evaluated. -/
theorem execFor_round (cond update : Option Expr) (body : Stmt)
    (hcond : Fits P U (Expr.positionsOption cond) (Expr.usesOption cond))
    (hupdate : Fits P U (Expr.positionsOption update) (Expr.usesOption update))
    (hbody : Fits P U body.positions body.uses) (hfun : ∀ f ∈ body.functions, F f) (v : Value) :
    L.Says U D (do
      if v.truthy then
        match ← Script.execScoped maxDepth steps body with
        | .breakLoop => return .next
        | .ret v => return .ret v
        | .next | .continueLoop =>
          match update with
          | some e => do let _ ← Script.eval maxDepth steps e
          | none => pure ()
          Script.execFor maxDepth steps cond update body
      else return .next) (do
      if v.truthy then
        match ← Script.execScoped maxDepth' steps body with
        | .breakLoop => return .next
        | .ret v => return .ret v
        | .next | .continueLoop =>
          match update with
          | some e => do let _ ← Script.eval maxDepth' steps e
          | none => pure ()
          Script.execFor maxDepth' steps cond update body
      else return .next) (Flow.Holds F) := by
  have hnext := h.execFor (U := U) (D := D) cond update body hcond hupdate hbody hfun
  split
  · refine round (h.execScoped body hbody hfun) ?_
    cases update with
    | none => exact L.of_bind (L.of_pure (a := ()) trivial) fun _ (_ : True) => hnext
    | some e => exact L.of_bind (h.eval e hupdate) fun _ _ => hnext
  · exact L.of_pure trivial

theorem execFor_succ (cond update : Option Expr) (body : Stmt)
    (hcond : Fits P U (Expr.positionsOption cond) (Expr.usesOption cond))
    (hupdate : Fits P U (Expr.positionsOption update) (Expr.usesOption update))
    (hbody : Fits P U body.positions body.uses) (hfun : ∀ f ∈ body.functions, F f) :
    L.Says U D (Script.execFor maxDepth (steps + 1) cond update body)
      (Script.execFor maxDepth' (steps + 1) cond update body) (Flow.Holds F) := by
  have hround := h.execFor_round (D := D) cond update body hcond hupdate hbody hfun
  cases cond with
  | none => exact L.of_bind (L.of_pure (a := Value.bool true) trivial) fun v (_ : True) => hround v
  | some e => exact L.of_bind (h.eval e hcond) fun v _ => hround v

theorem execForOf_succ {pos : Position} {kind : DeclKind} {name : String} {body : Stmt}
    {items : List Value} (hpos : P pos) (huse : U (.declare kind, name))
    (hbody : Fits P U body.positions body.uses) (hfun : ∀ f ∈ body.functions, F f)
    (hitems : ∀ v ∈ items, Holds F v) :
    L.Says U D (Script.execForOf maxDepth (steps + 1) pos kind name body items)
      (Script.execForOf maxDepth' (steps + 1) pos kind name body items) (Flow.Holds F) := by
  have hnone : Hoistable F U [] := fun f hf => absurd hf List.not_mem_nil
  cases items with
  | nil => exact L.of_pure trivial
  | cons v rest =>
    rw [List.forall_mem_cons] at hitems
    have hround : L.Says U D (within .block do
        declareName pos kind name v
        Script.execScoped maxDepth steps body) (within .block do
        declareName pos kind name v
        Script.execScoped maxDepth' steps body) (Flow.Holds F) :=
      L.of_block hnone (L.of_bind (L.of_declare hpos huse (fun _ => trivial) hitems.1) fun _ _ =>
        h.execScoped body hbody hfun)
    rw [Script.execForOf, Script.execForOf]
    exact round hround (h.execForOf hpos huse hbody hfun hitems.2)

theorem succ (hclosed : Closed P F) : L.Covers (steps + 1) where
  eval := h.eval_succ
  evalAll := h.evalAll_succ
  evalMembers := h.evalMembers_succ
  resolve := h.resolve_succ
  callMethod := h.callMethod_succ
  callValue := h.callValue_succ
  callFunction := h.callFunction_succ hclosed
  exec := h.exec_succ
  execAll := h.execAll_succ
  declareAll := h.declareAll_succ
  execBlock := h.execBlock_succ
  execScoped := h.execScoped_succ
  execWhile := h.execWhile_succ
  execDoWhile := h.execDoWhile_succ
  execFor := h.execFor_succ
  execForOf := h.execForOf_succ

end Covers

/-- **What a logic says, it says of the whole evaluator**, however deep and however long it runs. -/
theorem covers (L : Logic P F maxDepth maxDepth') (hclosed : Closed P F) (steps : Nat) :
    L.Covers steps := by
  induction steps with
  | zero => exact .zero
  | succ steps ih => exact ih.succ hclosed

end Logic

end Stencil.Script
