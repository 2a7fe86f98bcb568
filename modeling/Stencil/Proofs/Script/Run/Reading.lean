/-
  Reading a place.

  A place is read in two ways: as an expression, each object in front of the key that leads into it,
  and through its slot, for which all keys are evaluated first.  If evaluating the keys changes
  nothing (`Quiet`), the two come to the same: they read the same value or meet the same fault
  (`agree_toExpr`), and as an expression the place only has a value if it has a slot
  (`exists_slot_of_toExpr`).
-/
import Stencil.Proofs.Script.Run.Same
import Stencil.Proofs.Script.Run.Slots

namespace Stencil.Script

open Effect

/-! ## Paths that go one key further -/

theorem Value.readPath_concat (path : List Value) (key v : Value) :
    readPath (path ++ [key]) v = (readPath path v).bind (·.readIndex key) := by
  induction path generalizing v with
  | nil =>
    rw [List.nil_append, readPath, readPath]
    change _ = v.readIndex key
    cases v.readIndex key <;> rfl
  | cons k path ih =>
    rw [List.cons_append, readPath, readPath]
    cases v.readIndex k with
    | ok inner => exact ih inner
    | error fault => rfl

theorem Slot.read_into (s : Slot) (key : Value) (m : Machine) :
    (s.into key).read m = (s.read m).bind (·.readIndex key) := by
  rw [read, read, into]
  cases m.lookup? s.root with
  | none => rfl
  | some v => exact Value.readPath_concat s.path key v

/-! ## What changes nothing -/

/-- However it ends when it is started in `m`, it leaves `m` behind. -/
def Quiet {α : Type} (x : Nat → Effect α) (m : Machine) : Prop :=
  ∀ out, Ends x m out → (∃ a, out = .done a m) ∨ ∃ e, out = .failed e m

section

variable {α β : Type} {maxDepth : Nat} {m n : Machine}

theorem Quiet.of_done {x : Nat → Effect α} (h : Quiet x m) {a : α} (hends : Ends x m (.done a n)) :
    n = m := by
  rcases h _ hends with ⟨_, heq⟩ | ⟨_, heq⟩ <;> cases heq
  rfl

theorem Quiet.of_failed {x : Nat → Effect α} (h : Quiet x m) {e : ScriptError}
    (hends : Ends x m (.failed e n)) : n = m := by
  rcases h _ hends with ⟨_, heq⟩ | ⟨_, heq⟩ <;> cases heq
  rfl

namespace Plan

variable {p q : Plan α}

theorem quiet_pure (a : α) : Quiet ((pure a : Plan α).run maxDepth) m :=
  fun _ h => Or.inl ⟨a, ends_pure.mp h⟩

theorem quiet_bind {f : α → Plan β} (hp : Quiet (p.run maxDepth) m)
    (hf : ∀ a, Quiet ((f a).run maxDepth) m) : Quiet ((p >>= f).run maxDepth) m := by
  intro out h
  rcases ends_bind.mp h with ⟨a, n, ha, hout⟩ | ⟨e, n, he, rfl⟩
  · cases hp.of_done ha
    exact hf a out hout
  · cases hp.of_failed he
    exact Or.inr ⟨e, rfl⟩

theorem Same.quiet (h : p.Same maxDepth q m) (hq : Quiet (q.run maxDepth) m) :
    Quiet (p.run maxDepth) m := fun out hout => hq out ((h out).mp hout)

theorem quiet_lift (pos : Position) (r : Except Fault α) :
    Quiet ((effect (lift pos r)).run maxDepth) m := by
  rintro out ⟨-, -, rfl⟩
  cases r with
  | ok a => exact Or.inl ⟨a, rfl⟩
  | error fault => exact Or.inr ⟨⟨fault, pos⟩, rfl⟩

end Plan

variable {pos pos' : Position} {r : Except Fault α}

theorem ends_lift_done {a : α} : Ends ((Plan.effect (lift pos r)).run maxDepth) m (.done a n) ↔
    r = .ok a ∧ n = m := by
  rw [Plan.ends_effect]
  cases r with
  | ok b =>
    constructor
    · rintro ⟨-, h⟩
      cases h
      exact ⟨rfl, rfl⟩
    · rintro ⟨⟨⟩, rfl⟩
      exact ⟨nofun, rfl⟩
  | error fault => exact iff_of_false (fun h => by cases h.2) fun h => by cases h.1

theorem ends_lift_failed {fault : Fault} :
    Ends ((Plan.effect (lift pos r)).run maxDepth) m (.failed ⟨fault, pos'⟩ n) ↔
      r = .error fault ∧ pos' = pos ∧ n = m := by
  rw [Plan.ends_effect]
  cases r with
  | ok b => exact iff_of_false (fun h => by cases h.2) fun h => by cases h.1
  | error fault' =>
    constructor
    · rintro ⟨-, h⟩
      cases h
      exact ⟨rfl, rfl, rfl⟩
    · rintro ⟨⟨⟩, rfl, rfl⟩
      exact ⟨nofun, rfl⟩

/-- Where a fault is placed makes no other difference. -/
theorem agree_lift (pos pos' : Position) (r : Except Fault α) :
    Agree ((Plan.effect (lift pos r)).run maxDepth) ((Plan.effect (lift pos' r)).run maxDepth) m :=
  .of_ends (fun _ _ => by rw [ends_lift_done, ends_lift_done]) fun _ _ => by
    simp only [ends_lift_failed, exists_and_left, exists_eq_left]

end

/-! ## Reading slots -/

section

variable {maxDepth : Nat} {m : Machine}

theorem same_readSlot (pos : Position) (slot : Slot) (m : Machine) :
    (Plan.effect (readSlot pos slot)).Same maxDepth (.effect (lift pos (slot.read m))) m :=
  .of_run fun _ => rfl

theorem quiet_readSlot (pos : Position) (slot : Slot) :
    Quiet ((Plan.effect (readSlot pos slot)).run maxDepth) m :=
  (same_readSlot pos slot m).quiet (Plan.quiet_lift pos _)

/-- The slot one key further in is read by reading the slot, and then under the key. -/
theorem same_readSlot_into (pos : Position) (slot : Slot) (key : Value) :
    (Plan.effect (readSlot pos (slot.into key))).Same maxDepth
      (Plan.effect (readSlot pos slot) >>= fun v => .effect (lift pos (v.readIndex key))) m := by
  refine .of_run fun _ => ?_
  change lift pos ((slot.into key).read m) m
    = (lift pos (slot.read m) >>= fun v => lift pos (v.readIndex key)) m
  rw [Slot.read_into]
  cases slot.read m <;> rfl

end

/-! ## Both ways to read -/

/-- What holds of names, and of a member of a place if it holds of the place, holds of places. -/
@[elab_as_elim]
theorem Place.outward {motive : Place → Prop} (name : ∀ pos s, motive (.name pos s))
    (member : ∀ pos base property, motive base → motive (.member pos base property))
    (index : ∀ pos base key, motive base → motive (.index pos base key)) (p : Place) :
    motive p := by
  cases p with
  | name pos s => exact name pos s
  | member pos base property => exact member pos base property (outward name member index base)
  | index pos base key => exact index pos base key (outward name member index base)

/-- The expressions in brackets, from the root outward. -/
def Place.keys : Place → List Expr
  | name _ _ => []
  | member _ base _ => base.keys
  | index _ base key => base.keys ++ [key]

section

variable {maxDepth : Nat} {m n : Machine} {p : Place} {slot : Slot}

theorem forall_keys_index {pos : Position} {base : Place} {key : Expr} {Q : Expr → Prop} :
    (∀ k ∈ (Place.index pos base key).keys, Q k) ↔ (∀ k ∈ base.keys, Q k) ∧ Q key := by
  simp only [Place.keys, List.mem_append, List.mem_singleton, or_imp, forall_and, forall_eq]

theorem same_resolve_member (pos : Position) (base : Place) (property : String) :
    (Plan.task (.resolve (.member pos base property))).Same maxDepth
      (Plan.task (.resolve base) >>= fun slot => pure (slot.into (.text property))) m := .task _

theorem same_resolve_index (pos : Position) (base : Place) (key : Expr) :
    (Plan.task (.resolve (.index pos base key))).Same maxDepth
      (Plan.task (.resolve base) >>= fun slot => Plan.task (.eval key) >>= fun k =>
        pure (slot.into k)) m := .task _

theorem same_eval_name (pos : Position) (s : String) :
    (Plan.task (.eval (.name pos s))).Same maxDepth
      (.effect (lift pos (Slot.read ⟨s, []⟩ m))) m := by
  refine .trans (.task _) (.of_run fun _ => ?_)
  change nameValue pos s m = lift pos (Slot.read ⟨s, []⟩ m) m
  rw [nameValue_apply, Slot.read]
  cases m.lookup? s <;> rfl

theorem same_eval_member (pos : Position) (object : Expr) (property : String) :
    (Plan.task (.eval (.member pos object property))).Same maxDepth
      (Plan.task (.eval object) >>= fun v =>
        .effect (lift pos (v.readIndex (.text property)))) m := by
  refine .trans (.task _) (.andThen fun v n => .of_run fun _ => ?_)
  cases v <;> rfl

theorem same_eval_index (pos : Position) (object key : Expr) :
    (Plan.task (.eval (.index pos object key))).Same maxDepth
      (Plan.task (.eval object) >>= fun v => Plan.task (.eval key) >>= fun k =>
        .effect (lift pos (v.readIndex k))) m := .task _

theorem evalAll_quiet {es : List Expr} (hes : ∀ e ∈ es, Quiet (eval maxDepth · e) m) :
    Quiet (evalAll maxDepth · es) m := by
  induction es with
  | nil => exact (Plan.Same.task (.evalAll [])).quiet (Plan.quiet_pure _)
  | cons e rest ih =>
    obtain ⟨he, hrest⟩ := List.forall_mem_cons.mp hes
    exact (Plan.Same.task (.evalAll (e :: rest))).quiet
      (Plan.quiet_bind (p := .task (.eval e)) he fun _ =>
        Plan.quiet_bind (p := .task (.evalAll rest)) (ih hrest) fun _ => Plan.quiet_pure _)

theorem resolve_quiet (hkeys : ∀ key ∈ p.keys, Quiet (eval maxDepth · key) m) :
    Quiet (resolve maxDepth · p) m := by
  induction p using Place.outward with
  | name pos s => exact (Plan.Same.task (.resolve (.name pos s))).quiet (Plan.quiet_pure _)
  | member pos base property ih =>
    exact (same_resolve_member pos base property).quiet
      (Plan.quiet_bind (ih hkeys) fun _ => Plan.quiet_pure _)
  | index pos base key ih =>
    obtain ⟨hbase, hkey⟩ := forall_keys_index.mp hkeys
    exact (same_resolve_index pos base key).quiet
      (Plan.quiet_bind (ih hbase) fun _ => Plan.quiet_bind hkey fun _ => Plan.quiet_pure _)

theorem toExpr_quiet (hkeys : ∀ key ∈ p.keys, Quiet (eval maxDepth · key) m) :
    Quiet (eval maxDepth · p.toExpr) m := by
  induction p using Place.outward with
  | name pos s => exact (same_eval_name pos s).quiet (Plan.quiet_lift pos _)
  | member pos base property ih =>
    exact (same_eval_member pos base.toExpr property).quiet
      (Plan.quiet_bind (ih hkeys) fun _ => Plan.quiet_lift pos _)
  | index pos base key ih =>
    obtain ⟨hbase, hkey⟩ := forall_keys_index.mp hkeys
    exact (same_eval_index pos base.toExpr key).quiet
      (Plan.quiet_bind (ih hbase) fun _ => Plan.quiet_bind hkey fun _ => Plan.quiet_lift pos _)

/-- **A place with a slot reads as its slot does.** -/
theorem agree_toExpr (hkeys : ∀ key ∈ p.keys, Quiet (eval maxDepth · key) m) (pos : Position)
    (hslot : Ends (resolve maxDepth · p) m (.done slot n)) :
    Agree (eval maxDepth · p.toExpr) ((Plan.effect (readSlot pos slot)).run maxDepth) m := by
  induction p using Place.outward generalizing slot n with
  | name npos s =>
    obtain rfl : slot = ⟨s, []⟩ := by
      cases Plan.ends_pure.mp ((Plan.Same.task (.resolve (.name npos s)) _).mp hslot)
      rfl
    exact (Agree.of_same (same_eval_name npos s)).trans
      ((agree_lift npos pos _).trans (.of_same (same_readSlot pos _ m).symm))
  | member mpos base property ih =>
    obtain ⟨slot', n', hbase, hinto⟩ :=
      Plan.ends_bind_done.mp ((same_resolve_member mpos base property _).mp hslot)
    cases Plan.ends_pure.mp hinto
    refine (Agree.of_same (same_eval_member mpos base.toExpr property)).trans (.trans ?_
      (.of_same (same_readSlot_into pos slot' _).symm))
    exact .bind (ih hkeys hbase) fun v n _ => agree_lift mpos pos _
  | index ipos base key ih =>
    obtain ⟨hbasekeys, hkey⟩ := forall_keys_index.mp hkeys
    obtain ⟨slot', n', hbase, hthen⟩ :=
      Plan.ends_bind_done.mp ((same_resolve_index ipos base key _).mp hslot)
    cases (resolve_quiet hbasekeys).of_done hbase
    obtain ⟨k, n'', hk, hinto⟩ := Plan.ends_bind_done.mp hthen
    cases hkey.of_done hk
    cases Plan.ends_pure.mp hinto
    refine (Agree.of_same (same_eval_index ipos base.toExpr key)).trans (.trans ?_
      (.of_same (same_readSlot_into pos slot' k).symm))
    refine .bind (ih hbasekeys hbase) fun v n hv => ?_
    -- the key was evaluated for the slot in this very state, so it has the same value again
    cases (toExpr_quiet hbasekeys).of_done hv
    exact (Agree.of_same fun _ => Plan.ends_bind_of_done hk).trans (agree_lift ipos pos _)

/-- A place that has a value as an expression has a slot. -/
theorem exists_slot_of_toExpr (hkeys : ∀ key ∈ p.keys, Quiet (eval maxDepth · key) m) {v : Value}
    (h : Ends (eval maxDepth · p.toExpr) m (.done v n)) :
    ∃ slot, Ends ((Plan.task (.resolve p)).run maxDepth) m (.done slot m) := by
  induction p using Place.outward generalizing v n with
  | name pos s =>
    exact ⟨_, (Plan.Same.task (.resolve (.name pos s)) _).mpr (Plan.ends_pure.mpr rfl)⟩
  | member pos base property ih =>
    obtain ⟨v', n', hbase, -⟩ :=
      Plan.ends_bind_done.mp ((same_eval_member pos base.toExpr property _).mp h)
    obtain ⟨slot, hslot⟩ := ih hkeys hbase
    exact ⟨_, (same_resolve_member pos base property _).mpr
      ((Plan.ends_bind_of_done hslot).mpr (Plan.ends_pure.mpr rfl))⟩
  | index pos base key ih =>
    obtain ⟨hbasekeys, hkey⟩ := forall_keys_index.mp hkeys
    obtain ⟨v', n', hbase, hthen⟩ :=
      Plan.ends_bind_done.mp ((same_eval_index pos base.toExpr key _).mp h)
    cases (toExpr_quiet hbasekeys).of_done hbase
    obtain ⟨slot, hslot⟩ := ih hbasekeys hbase
    obtain ⟨k, n'', hk, -⟩ := Plan.ends_bind_done.mp hthen
    cases hkey.of_done hk
    exact ⟨_, (same_resolve_index pos base key _).mpr ((Plan.ends_bind_of_done hslot).mpr
      ((Plan.ends_bind_of_done hk).mpr (Plan.ends_pure.mpr rfl)))⟩

/-- **The value of a place is what its slot reads.** -/
theorem ends_toExpr_done (hkeys : ∀ key ∈ p.keys, Quiet (eval maxDepth · key) m) {v : Value} :
    Ends (eval maxDepth · p.toExpr) m (.done v m) ↔
      ∃ slot, Ends (resolve maxDepth · p) m (.done slot m) ∧ slot.read m = .ok v := by
  constructor
  · intro h
    obtain ⟨slot, hslot⟩ := exists_slot_of_toExpr hkeys h
    have hread := ((agree_toExpr hkeys ⟨0, 0⟩ hslot).done v m).mp h
    exact ⟨slot, hslot, (ends_lift_done.mp ((same_readSlot _ slot m _).mp hread)).1⟩
  · rintro ⟨slot, hslot, hread⟩
    exact ((agree_toExpr hkeys ⟨0, 0⟩ hslot).done v m).mpr
      ((same_readSlot _ slot m _).mpr (ends_lift_done.mpr ⟨hread, rfl⟩))

end

/-! ## Literals and variables -/

mutual

/-- A variable, or a literal whose items and members are such themselves. -/
def Expr.isPlain : Expr → Bool
  | .number .. | .text .. | .bool .. | .null _ | .undefined _ | .name .. => true
  | .array _ items => Expr.isPlainList items
  | .object _ members => Expr.isPlainMembers members
  | .unary .. | .binary .. | .logical .. | .conditional .. | .assign .. | .update .. | .member ..
  | .index .. | .call .. => false

def Expr.isPlainList : List Expr → Bool
  | [] => true
  | e :: rest => e.isPlain && Expr.isPlainList rest

def Expr.isPlainMembers : List (String × Expr) → Bool
  | [] => true
  | (_, e) :: rest => e.isPlain && Expr.isPlainMembers rest

end

section

variable {maxDepth : Nat} {m : Machine}

mutual

theorem Expr.quiet_of_isPlain : ∀ {e : Expr}, e.isPlain = true → Quiet (eval maxDepth · e) m
  | .number pos x, _ => (Plan.Same.task (.eval (.number pos x))).quiet (Plan.quiet_pure _)
  | .text pos s, _ => (Plan.Same.task (.eval (.text pos s))).quiet (Plan.quiet_pure _)
  | .bool pos b, _ => (Plan.Same.task (.eval (.bool pos b))).quiet (Plan.quiet_pure _)
  | .null pos, _ => (Plan.Same.task (.eval (.null pos))).quiet (Plan.quiet_pure _)
  | .undefined pos, _ => (Plan.Same.task (.eval (.undefined pos))).quiet (Plan.quiet_pure _)
  | .name pos s, _ => (same_eval_name pos s).quiet (Plan.quiet_lift pos _)
  | .array pos items, h => (Plan.Same.task (.eval (.array pos items))).quiet
      (Plan.quiet_bind (p := .task (.evalAll items)) (evalAll_quiet (quiet_of_isPlainList h))
        fun _ => Plan.quiet_pure _)
  | .object pos members, h => (Plan.Same.task (.eval (.object pos members))).quiet
      (Plan.quiet_bind (p := .task (.evalMembers members [])) (quiet_of_isPlainMembers h [])
        fun _ => Plan.quiet_pure _)

theorem Expr.quiet_of_isPlainList : ∀ {es : List Expr}, Expr.isPlainList es = true →
    ∀ e ∈ es, Quiet (eval maxDepth · e) m
  | [], _ => fun _ he => by cases he
  | e :: rest, h => by
    obtain ⟨he, hrest⟩ := Bool.and_eq_true_iff.mp h
    exact List.forall_mem_cons.mpr ⟨quiet_of_isPlain he, quiet_of_isPlainList hrest⟩

theorem Expr.quiet_of_isPlainMembers : ∀ {es : List (String × Expr)},
    Expr.isPlainMembers es = true → ∀ members, Quiet (evalMembers maxDepth · es members) m
  | [], _, members => (Plan.Same.task (.evalMembers [] members)).quiet (Plan.quiet_pure _)
  | (key, e) :: rest, h, members => by
    obtain ⟨he, hrest⟩ := Bool.and_eq_true_iff.mp h
    exact (Plan.Same.task (.evalMembers ((key, e) :: rest) members)).quiet
      (Plan.quiet_bind (p := .task (.eval e)) (Expr.quiet_of_isPlain he) fun _ =>
        quiet_of_isPlainMembers hrest _)

end

end

end Stencil.Script
