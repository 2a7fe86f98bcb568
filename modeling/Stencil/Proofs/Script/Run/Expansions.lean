/-
  Compound assignments and updates, written out.

  `p op= e` agrees with `p = p op e`, and `++p` with `p = (+p) + 1`, if evaluating the keys of `p`
  once more changes nothing.  In both the short and the long form the slot of `p` is found first;
  then the one reads the slot where the other evaluates `p` (`agree_toExpr`), makes the same of
  what it has read, and stores it (`agree_written_out`).  What stands behind `p++` is the old number
  instead of the new one.
-/
import Stencil.Proofs.Script.Run.Reading

namespace Stencil.Script

open Effect

section

variable {maxDepth : Nat} {m : Machine}

/-! ## Writing out -/

/-- Write a slot; the result is what has been written. -/
def planStore (pos : Position) (slot : Slot) (v : Value) : Plan Value := do
  Plan.effect (writeSlot pos slot v)
  return v

theorem agree_writeSlot (pos pos' : Position) (slot : Slot) (v : Value) :
    Agree ((Plan.effect (writeSlot pos slot v)).run maxDepth)
      ((Plan.effect (writeSlot pos' slot v)).run maxDepth) m := by
  cases h : slot.write v m with
  | ok m' =>
    exact .of_same (.of_run fun _ =>
      (Slot.writeSlot_of_ok h).trans (Slot.writeSlot_of_ok h).symm)
  | error fault =>
    have hfails (pos : Position) : (Plan.effect (writeSlot pos slot v)).Same maxDepth
        (.effect (lift pos (.error fault))) m := .of_run fun _ => Slot.writeSlot_of_error h
    exact (Agree.of_same (hfails pos)).trans
      ((agree_lift pos pos' _).trans (.of_same (hfails pos').symm))

theorem same_eval_assign (pos : Position) (p : Place) (e : Expr) :
    (Plan.task (.eval (.assign pos none p e))).Same maxDepth
      (Plan.task (.resolve p) >>= fun slot => Plan.task (.eval e) >>= planStore pos slot) m :=
  .task _

/-- What is made of the value of a place and then stored there, may be made of what the slot
    reads. -/
theorem agree_written_out {p : Place} (hkeys : ∀ key ∈ p.keys, Quiet (eval maxDepth · key) m)
    (pos pos' : Position) {rhs : Value → Plan Value} {e : Expr}
    (he : (Plan.task (.eval e)).Same maxDepth (Plan.task (.eval p.toExpr) >>= rhs) m) :
    Agree ((Plan.task (.resolve p) >>= fun slot => Plan.effect (readSlot pos slot) >>= fun old =>
        rhs old >>= planStore pos slot).run maxDepth)
      (eval maxDepth · (.assign pos' none p e)) m := by
  refine .trans (.bind (.of_same (.refl _)) fun slot n hslot => ?_)
    (.of_same (same_eval_assign pos' p e).symm)
  cases (resolve_quiet hkeys).of_done hslot
  have hstore (v : Value) (n : Machine) : Agree ((planStore pos slot v).run maxDepth)
      ((planStore pos' slot v).run maxDepth) n :=
    .bind (agree_writeSlot pos pos' slot v) fun _ _ _ => .of_same (.refl _)
  -- the long form reads the place first, as the short one does
  have hlong : (Plan.task (.eval e) >>= planStore pos' slot).Same maxDepth
      (Plan.task (.eval p.toExpr) >>= fun old => rhs old >>= planStore pos' slot) m :=
    .trans (.bind he fun _ _ _ => .refl _) (.bind_assoc _ _ _)
  refine .trans ?_ (.of_same hlong.symm)
  refine .bind (agree_toExpr hkeys pos hslot).symm fun old n _ => ?_
  exact .bind (.of_same (.refl _)) fun v n _ => hstore v n

/-! ## Compound assignments -/

/-- `p = p op e`. -/
def assignForm (pos opPos : Position) (op : BinaryOp) (p : Place) (e : Expr) : Expr :=
  .assign pos none p (.binary opPos op p.toExpr e)

theorem same_eval_binary (pos : Position) (op : BinaryOp) (lhs rhs : Expr) :
    (Plan.task (.eval (.binary pos op lhs rhs))).Same maxDepth
      (Plan.task (.eval lhs) >>= fun a => Plan.task (.eval rhs) >>= fun b => pure (op.apply a b))
      m := .task _

theorem agree_assignForm {p : Place} (hkeys : ∀ key ∈ p.keys, Quiet (eval maxDepth · key) m)
    (pos pos' opPos : Position) (op : BinaryOp) (e : Expr) :
    Agree (eval maxDepth · (.assign pos (some op) p e))
      (eval maxDepth · (assignForm pos' opPos op p e)) m := by
  have hshort : (Plan.task (.eval (.assign pos (some op) p e))).Same maxDepth
      (Plan.task (.resolve p) >>= fun slot => Plan.effect (readSlot pos slot) >>= fun old =>
        (Plan.task (.eval e) >>= fun v => pure (op.apply old v)) >>= planStore pos slot) m := by
    refine .trans (.task _) (.andThen fun slot n => .andThen fun old n => ?_)
    exact .symm (.trans (.bind_assoc _ _ _) (.andThen fun v n => .pure_bind _ _))
  exact (Agree.of_same hshort).trans
    (agree_written_out hkeys pos pos' (same_eval_binary opPos op _ e))

/-! ## Updates -/

/-- What an update does with the number there. -/
def UpdateOp.toBinary : UpdateOp → BinaryOp
  | .increment => .add
  | .decrement => .sub

/-- `p = (+p) + 1`, or `p = (+p) - 1`. -/
def updateForm (pos opPos plusPos onePos : Position) (op : UpdateOp) (p : Place) : Expr :=
  .assign pos none p
    (.binary opPos op.toBinary (.unary plusPos .plus p.toExpr) (.number onePos 1.0))

theorem UpdateOp.apply_toBinary (op : UpdateOp) (x : Float) :
    op.toBinary.apply (.number x) (.number 1.0) = .number (op.apply x) := by
  cases op <;> rfl

theorem same_eval_plus (pos : Position) (e : Expr) :
    (Plan.task (.eval (.unary pos .plus e))).Same maxDepth
      (Plan.task (.eval e) >>= fun v => pure (.number v.toNumber)) m := .task _

theorem same_eval_updated (opPos plusPos onePos : Position) (op : UpdateOp) (e : Expr) :
    (Plan.task (.eval
        (.binary opPos op.toBinary (.unary plusPos .plus e) (.number onePos 1.0)))).Same maxDepth
      (Plan.task (.eval e) >>= fun v => pure (.number (op.apply v.toNumber))) m := by
  refine .trans (same_eval_binary opPos _ _ _) ?_
  refine .trans (.bind (same_eval_plus plusPos e) fun a n _ =>
    .bind (.task (.eval (.number onePos 1.0))) fun b n _ => .refl _) ?_
  refine .trans (.bind_assoc _ _ _) (.andThen fun v n => ?_)
  refine .of_run fun _ => ?_
  exact congrArg (Outcome.done · n) (op.apply_toBinary v.toNumber)

/-- Update the number in a slot; the result is the old one. -/
def planUpdateSlot (pos : Position) (op : UpdateOp) (p : Place) : Plan Float := do
  let slot ← Plan.task (.resolve p)
  let old ← Plan.effect (readSlot pos slot)
  Plan.effect (writeSlot pos slot (.number (op.apply old.toNumber)))
  return old.toNumber

theorem same_eval_update (maxDepth : Nat) (pos : Position) (op : UpdateOp) (before : Bool)
    (p : Place) (m : Machine) :
    (Plan.task (.eval (.update pos op before p))).Same maxDepth
      (planUpdateSlot pos op p >>= fun x => pure (.number (if before then op.apply x else x)))
      m := by
  refine .trans (.task _) (.symm (.trans (.bind_assoc _ _ _) (.andThen fun slot n => ?_)))
  refine .trans (.bind_assoc _ _ _) (.andThen fun old n => ?_)
  exact .trans (.bind_assoc _ _ _) (.andThen fun _ n => .pure_bind _ _)

section

variable {p : Place}

theorem agree_updateForm (hkeys : ∀ key ∈ p.keys, Quiet (eval maxDepth · key) m)
    (pos pos' opPos plusPos onePos : Position) (op : UpdateOp) :
    Agree (eval maxDepth · (.update pos op true p))
      (eval maxDepth · (updateForm pos' opPos plusPos onePos op p)) m := by
  have hshort : (Plan.task (.eval (.update pos op true p))).Same maxDepth
      (Plan.task (.resolve p) >>= fun slot => Plan.effect (readSlot pos slot) >>= fun old =>
        pure (.number (op.apply old.toNumber)) >>= planStore pos slot) m :=
    .trans (.task _) (.of_run fun _ => rfl)
  exact (Agree.of_same hshort).trans
    (agree_written_out hkeys pos pos' (same_eval_updated opPos plusPos onePos op p.toExpr))

/-- The old number is the number that the place had. -/
theorem ends_plus_of_update (hkeys : ∀ key ∈ p.keys, Quiet (eval maxDepth · key) m)
    (plusPos : Position) {pos : Position} {op : UpdateOp} {x : Float} {n : Machine}
    (h : Ends ((planUpdateSlot pos op p).run maxDepth) m (.done x n)) :
    Ends (eval maxDepth · (.unary plusPos .plus p.toExpr)) m (.done (.number x) m) := by
  obtain ⟨slot, n', hslot, hthen⟩ := Plan.ends_bind_done.mp h
  cases (resolve_quiet hkeys).of_done hslot
  obtain ⟨old, n', hold, hthen⟩ := Plan.ends_bind_done.mp hthen
  cases (quiet_readSlot pos slot).of_done hold
  obtain ⟨-, n', -, hx⟩ := Plan.ends_bind_done.mp hthen
  cases Plan.ends_pure.mp hx
  have hread : Ends ((Plan.task (.eval p.toExpr)).run maxDepth) m (.done old m) :=
    ((agree_toExpr hkeys pos hslot).done old m).mpr hold
  exact (same_eval_plus plusPos _ _).mpr (Plan.ends_map_done.mpr ⟨old, hread, rfl⟩)

/-- The old number, with the state in which it has been replaced: what comes of `p++`. -/
theorem ends_update_after (hkeys : ∀ key ∈ p.keys, Quiet (eval maxDepth · key) m)
    (pos pos' opPos plusPos onePos : Position) (op : UpdateOp) (v : Value) (n : Machine) :
    Ends (eval maxDepth · (.update pos op false p)) m (.done v n) ↔
      ∃ x, v = .number x ∧
        Ends (eval maxDepth · (.unary plusPos .plus p.toExpr)) m (.done (.number x) m) ∧
        Ends (eval maxDepth · (updateForm pos' opPos plusPos onePos op p)) m
          (.done (.number (op.apply x)) n) := by
  have hafter := same_eval_update maxDepth pos op false p m
  have hbefore := same_eval_update maxDepth pos op true p m
  have hform := agree_updateForm hkeys pos pos' opPos plusPos onePos op
  constructor
  · intro h
    obtain ⟨x, hx, rfl⟩ := Plan.ends_map_done.mp ((hafter _).mp h)
    refine ⟨x, rfl, ends_plus_of_update hkeys plusPos hx, (hform.done _ n).mp ?_⟩
    exact (hbefore _).mpr (Plan.ends_map_done.mpr ⟨x, hx, rfl⟩)
  · rintro ⟨x, rfl, hplus, hlong⟩
    obtain ⟨x', hx', -⟩ := Plan.ends_map_done.mp ((hbefore _).mp ((hform.done _ n).mpr hlong))
    -- the place has one number, so the one given is the one that has been updated
    have hsame := Plan.ends_unique (p := .task (.eval (.unary plusPos .plus p.toExpr))) hplus
      (ends_plus_of_update hkeys plusPos hx')
    cases hsame
    exact (hafter _).mpr (Plan.ends_map_done.mpr ⟨x, hx', rfl⟩)

/-- Where an update fails, or diverges, it makes no difference on which side the operator stands. -/
theorem update_after_fails (hkeys : ∀ key ∈ p.keys, Quiet (eval maxDepth · key) m)
    (pos pos' opPos plusPos onePos : Position) (op : UpdateOp) :
    (∀ fault n, (∃ site, Ends (eval maxDepth · (.update pos op false p)) m
        (.failed ⟨fault, site⟩ n)) ↔
      ∃ site, Ends (eval maxDepth · (updateForm pos' opPos plusPos onePos op p)) m
        (.failed ⟨fault, site⟩ n)) ∧
    (Diverges (eval maxDepth · (.update pos op false p)) m ↔
      Diverges (eval maxDepth · (updateForm pos' opPos plusPos onePos op p)) m) := by
  have hafter := same_eval_update maxDepth pos op false p m
  have hbefore := same_eval_update maxDepth pos op true p m
  have hform := agree_updateForm hkeys pos pos' opPos plusPos onePos op
  constructor
  · intro fault n
    rw [← hform.failed fault n]
    refine exists_congr fun site => ?_
    exact ((hafter _).trans (Plan.fails_map_iff.1 _ n)).trans
      ((hbefore _).trans (Plan.fails_map_iff.1 _ n)).symm
  · rw [← hform.diverges]
    exact (hafter.diverges_iff.trans Plan.fails_map_iff.2).trans
      (hbefore.diverges_iff.trans Plan.fails_map_iff.2).symm

end

end

/-! ## All of them -/

/-- **Compound assignments and updates agree with what they are short for.**  If the keys of a place
    are literals and variables, then in every state `p op= e` agrees with `p = p op e`, and `++p`
    with `p = (+p) + 1`, `--p` with `p = (+p) - 1`: they give the same value and leave the same
    state behind, or they meet the same fault with the same state, or they diverge.  `p++` and `p--`
    leave the same states behind as these do, and give the number that the place had. -/
theorem eval_agrees_written_out {p : Place} (hkeys : ∀ key ∈ p.keys, key.isPlain = true)
    (maxDepth : Nat) (pos pos' opPos plusPos onePos : Position) (m : Machine) :
    (∀ op e, Agree (eval maxDepth · (.assign pos (some op) p e))
      (eval maxDepth · (assignForm pos' opPos op p e)) m) ∧
    ∀ op, Agree (eval maxDepth · (.update pos op true p))
        (eval maxDepth · (updateForm pos' opPos plusPos onePos op p)) m ∧
      (∀ v n, Ends (eval maxDepth · (.update pos op false p)) m (.done v n) ↔
        ∃ x, v = .number x ∧
          Ends (eval maxDepth · (.unary plusPos .plus p.toExpr)) m (.done (.number x) m) ∧
          Ends (eval maxDepth · (updateForm pos' opPos plusPos onePos op p)) m
            (.done (.number (op.apply x)) n)) ∧
      (∀ fault n, (∃ site, Ends (eval maxDepth · (.update pos op false p)) m
          (.failed ⟨fault, site⟩ n)) ↔
        ∃ site, Ends (eval maxDepth · (updateForm pos' opPos plusPos onePos op p)) m
          (.failed ⟨fault, site⟩ n)) ∧
      (Diverges (eval maxDepth · (.update pos op false p)) m ↔
        Diverges (eval maxDepth · (updateForm pos' opPos plusPos onePos op p)) m) := by
  have hquiet : ∀ key ∈ p.keys, Quiet (eval maxDepth · key) m := fun key hkey =>
    Expr.quiet_of_isPlain (hkeys key hkey)
  refine ⟨agree_assignForm hquiet pos pos' opPos, fun op => ?_⟩
  exact ⟨agree_updateForm hquiet pos pos' opPos plusPos onePos op,
    ends_update_after hquiet pos pos' opPos plusPos onePos op,
    update_after_fails hquiet pos pos' opPos plusPos onePos op⟩

/-- A member whose name a variable holds is added to, and updated. -/
theorem eval_agrees_written_out_member :
    let m : Machine := .start 1 [("k", .text "n"), ("o", .object [("n", .text "4")])]
    let p : Place := .index ⟨0, 1⟩ (.name ⟨0, 0⟩ "o") (.name ⟨0, 2⟩ "k")
    let e : Expr := .text ⟨0, 8⟩ "2"
    let short : Expr := .assign ⟨0, 0⟩ (some .add) p e
    let long : Expr := assignForm ⟨0, 0⟩ ⟨0, 7⟩ .add p e
    (∀ key ∈ p.keys, key.isPlain = true) ∧
    Agree (eval 64 · short) (eval 64 · long) m ∧
    Ends (eval 64 · short) m
      (.done (.text "42") (.start 1 [("k", .text "n"), ("o", .object [("n", .text "42")])])) ∧
    Agree (eval 64 · (.update ⟨0, 0⟩ .increment true p))
      (eval 64 · (updateForm ⟨0, 0⟩ ⟨0, 7⟩ ⟨0, 8⟩ ⟨0, 20⟩ .increment p)) m := by
  intro m p e short long
  have hkeys : ∀ key ∈ p.keys, key.isPlain = true := by
    intro key hkey
    cases List.mem_singleton.mp hkey
    rfl
  obtain ⟨hassign, hupdate⟩ :=
    eval_agrees_written_out hkeys 64 ⟨0, 0⟩ ⟨0, 0⟩ ⟨0, 7⟩ ⟨0, 8⟩ ⟨0, 20⟩ m
  exact ⟨hkeys, hassign .add e, ⟨nofun, 5, rfl⟩, (hupdate .increment).1⟩

end Stencil.Script
