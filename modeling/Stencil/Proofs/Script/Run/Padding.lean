/-
  An empty scope among others.

  A block in which nothing is bound cannot be told from no block: names are looked up and changed
  past it, `var` goes by it to the frame, and a call leaves it behind with the other scopes of the
  caller.  Only a declaration right in the block shows.  So code runs in the same way with an empty
  scope between those that it runs in, however deep, as long as what it binds lies further in
  (`Task.run_padded`); and a block around code that binds nothing in it makes no difference at all
  (`within_block_run`).
-/
import Stencil.Proofs.Script.Run.Changes
import Stencil.Proofs.Script.Run.Elements
import Stencil.Proofs.Script.Run.Lockstep
import Stencil.Proofs.Script.Run.Moves
import Stencil.Proofs.Script.Run.Steps

namespace Stencil.Script

open Effect

/-! ## Scopes -/

/-- The second scopes are the first with an empty block put in behind the first `n`. -/
inductive Padded : Nat → List Scope → List Scope → Prop where
  | here (scopes : List Scope) : Padded 0 scopes (.block :: scopes)
  | under {n : Nat} {scopes scopes' : List Scope} (s : Scope) (h : Padded n scopes scopes') :
      Padded (n + 1) (s :: scopes) (s :: scopes')

namespace Padded

variable {n : Nat} {scopes scopes' : List Scope} (h : Padded n scopes scopes') (name : String)

include h

theorem findBinding? : findBinding? scopes' name = findBinding? scopes name := by
  induction h with
  | here scopes => rfl
  | under s _ ih =>
    rw [Script.findBinding?, Script.findBinding?, List.findSome?_cons, List.findSome?_cons]
    cases s.get? name with
    | some b => rfl
    | none => exact ih

theorem setBinding (v : Value) :
    Padded n (setBinding scopes name v) (setBinding scopes' name v) := by
  induction h with
  | here scopes => exact .here _
  | under s h ih =>
    rw [Script.setBinding, Script.setBinding]
    cases s.get? name with
    | some b => exact .under _ h
    | none => exact .under s ih

/-- An empty block is no frame. -/
theorem bindInFrame? (b : Binding) :
    Option.Rel (Padded n) (bindInFrame? scopes name b) (bindInFrame? scopes' name b) := by
  induction h with
  | here scopes =>
    have hblock : Script.bindInFrame? (.block :: scopes) name b
        = (Script.bindInFrame? scopes name b).map (Scope.block :: ·) := rfl
    rw [hblock]
    cases Script.bindInFrame? scopes name b with
    | none => exact .none
    | some outer => exact .some (.here outer)
  | @under n scopes scopes' s h ih =>
    rw [Script.bindInFrame?, Script.bindInFrame?]
    split
    · exact .some (.under _ h)
    · generalize Script.bindInFrame? scopes name b = outer at ih ⊢
      generalize Script.bindInFrame? scopes' name b = outer' at ih ⊢
      cases ih with
      | none => exact .none
      | some h => exact .some (.under s h)

end Padded

/-! ## States -/

/-- The states differ only in an empty block behind the innermost `n` scopes. -/
inductive Machine.Padded (n : Nat) : Machine → Machine → Prop where
  | mk {env lexical scopes scopes' depth run} : Script.Padded n scopes scopes' →
      Padded n ⟨env, lexical, scopes, depth, run⟩ ⟨env, lexical, scopes', depth, run⟩

namespace Machine.Padded

variable {n : Nat} {m m' : Machine}

theorem enter_block (m : Machine) : m.Padded 0 (m.enter .block) := .mk (.here _)

theorem eq_enter_block (h : m.Padded 0 m') : m' = m.enter .block := by
  cases h with
  | mk h =>
    cases h
    rfl

variable (h : m.Padded n m')

include h

theorem lookup? (name : String) : m'.lookup? name = m.lookup? name := by
  cases h with
  | mk h => simp only [Machine.lookup?, h.findBinding?]

theorem changeable? (name : String) : m'.changeable? name = m.changeable? name := by
  cases h with
  | mk h => simp only [Machine.changeable?, h.findBinding?]

theorem setVariable (name : String) (v : Value) :
    (m.setVariable name v).Padded n (m'.setVariable name v) := by
  cases h with
  | mk h =>
    simp only [Machine.setVariable, h.findBinding?]
    split
    · exact .mk (h.setBinding name v)
    · exact .mk h

theorem assign (name : String) (v : Value) :
    Tied (Machine.Padded n) (m.assign name v) (m'.assign name v) := by
  cases h with
  | mk h =>
    simp only [Machine.assign, h.findBinding?]
    split
    · split
      · exact .error _
      · exact .ok (.mk (h.setBinding name v))
    · split
      · exact .error _
      · exact .ok (.mk h)

/-- What is declared goes into a scope further in, or into a frame or the environment. -/
theorem declare (hn : n ≠ 0) (kind : DeclKind) (name : String) (v : Value) :
    Tied (Machine.Padded n) (m.declare kind name v) (m'.declare kind name v) := by
  cases h with
  | @mk env lexical scopes scopes' _ _ h =>
    cases kind with
    | varDecl =>
      have hframe := h.bindInFrame? name ⟨v, false⟩
      simp only [Machine.declare]
      generalize bindInFrame? scopes name ⟨v, false⟩ = bound at hframe ⊢
      generalize bindInFrame? scopes' name ⟨v, false⟩ = bound' at hframe ⊢
      cases hframe with
      | none => exact .ok (.mk h)
      | some hbound => exact .ok (.mk hbound)
    | letDecl | constDecl =>
      cases h with
      | here _ => exact absurd rfl hn
      | under s h =>
        simp only [Machine.declare]
        split
        · exact .error _
        · exact .ok (.mk (.under _ h))

theorem hoist (hn : n ≠ 0) (body : List Stmt) : (m.hoist body).Padded n (m'.hoist body) := by
  cases h with
  | mk h =>
    cases h with
    | here _ => exact absurd rfl hn
    | under s h =>
      rw [Machine.hoist_of_cons body rfl, Machine.hoist_of_cons body rfl]
      exact .mk (.under _ h)

theorem enter (scope : Scope) : (m.enter scope).Padded (n + 1) (m'.enter scope) := by
  cases h with
  | mk h => exact .mk (.under scope h)

/-- In a call nothing is left of the difference. -/
theorem beginCall (run : Nat) (scopes : List Scope) :
    m'.beginCall run scopes = m.beginCall run scopes := by
  cases h
  rfl

theorem endCall (caller : Machine) : (caller.endCall m).Padded n (caller.endCall m') := by
  cases h with
  | mk h => exact .mk h

omit h in
theorem leave (h : m.Padded (n + 1) m') : m.leave.Padded n m'.leave := by
  cases h with
  | mk h =>
    cases h with
    | under s h => exact .mk h

end Machine.Padded

/-! ## Effects -/

/-- Both outcomes are the same, but for an empty block behind the innermost `n` scopes. -/
def Outcome.Padded {α : Type} (n : Nat) : Outcome α → Outcome α → Prop :=
  Outcome.Alike (Machine.Padded n) (fun _ => True) fun _ => False

section

variable {α : Type} {n : Nat} {m m' : Machine}

theorem padded_lift {pos : Position} (r : Except Fault α) (h : m.Padded n m') :
    (lift pos r m).Padded n (lift pos r m') := by
  cases r with
  | ok a => exact .done a h
  | error fault => exact .failed trivial h

theorem padded_appendOutput {pos : Position} (args : List Value) (h : m.Padded n m') :
    (appendOutput pos args m).Padded n (appendOutput pos args m') := by
  cases h with
  | mk h =>
    rw [appendOutput_apply, appendOutput_apply]
    dsimp only
    split
    · exact .done _ (.mk h)
    · exact .failed trivial (.mk h)

theorem padded_elementary {declares : Bool} {N : String → Prop} {x : Effect α}
    (hx : Elementary declares N x) (hn : declares = true → n ≠ 0) (h : m.Padded n m') :
    (x m).Padded n (x m') := by
  cases hx with
  | pure a => exact .done a h
  | fail pos _ => exact .failed trivial h
  | lift pos _ => exact padded_lift _ h
  | lookupName name =>
    rw [lookupName, get_bind, get_bind, h.lookup?]
    exact .done _ h
  | nameValue pos name =>
    rw [nameValue_apply, nameValue_apply, h.lookup?]
    cases m.lookup? name with
    | some v => exact .done v h
    | none => exact .failed trivial h
  | readSlot pos s =>
    rw [readSlot, get_bind, get_bind, Slot.read, Slot.read, h.lookup?]
    exact padded_lift _ h
  | heldSlot pos s =>
    rw [heldSlot, get_bind, get_bind, Slot.held_congr (h.changeable? _)]
    exact padded_lift _ h
  | writeSlot pos s v =>
    exact writeSlot_alike h (fun _ => trivial)
      (Slot.write_tied (h.changeable? _) (h.setVariable _) (h.assign _ v))
  | changeArray pos s pop items args =>
    exact changeArray_alike h (fun _ => trivial) (h.changeable? _) (h.setVariable _) pop items args
  | appendOutput pos args => exact padded_appendOutput args h
  | declareName pos kind name v hdeclares _ =>
    exact declareName_alike h (fun _ => trivial) (h.declare (hn hdeclares) kind name v)
  | hoist body hdeclares _ => exact .done () (h.hoist (hn hdeclares) body)

/-! ## Plans and tasks -/

theorem Plan.Made.padded {declares : Bool} {N : String → Prop} {p : Plan α}
    (hp : p.Made declares N) {run : Runner}
    (hrun : ∀ {β : Type} (t : Task β) {n : Nat} {m m' : Machine}, (t.declares = true → n ≠ 0) →
      m.Padded n m' → (run t m).Padded n (run t m'))
    (hn : declares = true → n ≠ 0) (h : m.Padded n m') :
    (p.follow run m).Padded n (p.follow run m') := by
  induction p generalizing declares n m m' with
  | effect x => exact padded_elementary hp hn h
  | task t => exact hrun t (fun ht => hn (hp.1 ht)) h
  | bind p f ihp ihf => exact (ihp hp.1 hn h).bind fun a _ _ _ h' => ihf a (hp.2 a) hn h'
  | within scope p ih =>
    exact (ih hp.2 (fun _ => Nat.succ_ne_zero n) (h.enter scope)).within Machine.Padded.leave
  | inCall number scopes p ih => exact hp.elim

/-- A call leaves the scopes of the caller behind, so its body runs in the very same state. -/
theorem planCallFunction_padded (maxDepth : Nat) (pos : Position) (number : Nat) (f : Function)
    (args : List Value) (run : Runner) (h : m.Padded n m') :
    ((planCallFunction maxDepth pos number f args).follow run m).Padded n
      ((planCallFunction maxDepth pos number f args).follow run m') := by
  have hcheck : (checkDepth maxDepth pos m).Padded n (checkDepth maxDepth pos m') := by
    cases h with
    | mk h =>
      rw [checkDepth_apply, checkDepth_apply]
      split
      · exact .failed trivial (.mk h)
      · exact .done () (.mk h)
  refine hcheck.bind fun _ m m' _ h => ?_
  have hbody : ((planBody number f args).follow run m).Padded n
      ((planBody number f args).follow run m') := by
    refine Outcome.Alike.inCall (by rw [h.beginCall]; exact Outcome.alike_refl _)
      @fun k k' hk => ?_
    rw [hk]
    exact h.endCall k
  refine hbody.bind fun flow m m' _ h => ?_
  cases flow <;> exact .done _ h

/-- **An empty block among the scopes makes no difference.** -/
theorem Task.run_padded (maxDepth steps : Nat) (t : Task α) (hn : t.declares = true → n ≠ 0)
    (h : m.Padded n m') : (t.run maxDepth steps m).Padded n (t.run maxDepth steps m') := by
  induction steps generalizing α n m m' with
  | zero =>
    rw [Task.run_zero]
    exact .exhausted
  | succ steps ih =>
    rw [Task.run_succ]
    refine t.made_or_call maxDepth (motive := fun t => (t.declares = true → n ≠ 0) →
      ((t.plan maxDepth).follow (Task.run maxDepth steps) m).Padded n
        ((t.plan maxDepth).follow (Task.run maxDepth steps) m')) ?_ ?_ hn
    · exact fun t ht hn => ht.padded (fun t _ _ _ hn h => ih t hn h) hn h
    · exact fun pos number f args _ => planCallFunction_padded maxDepth pos number f args _ h

/-- **A block around code that binds nothing in it might as well not be there.** -/
theorem within_block_run (maxDepth steps : Nat) (t : Task α) (ht : t.declares = false)
    (m : Machine) : within .block (t.run maxDepth steps) m = t.run maxDepth steps m := by
  have h := t.run_padded maxDepth steps (fun h => absurd (ht.symm.trans h) Bool.false_ne_true)
    (Machine.Padded.enter_block m)
  rw [within_apply]
  generalize t.run maxDepth steps m = out at h ⊢
  generalize t.run maxDepth steps (m.enter .block) = out' at h ⊢
  cases h with
  | done a h => rw [h.eq_enter_block]; rfl
  | failed _ h => rw [h.eq_enter_block]; rfl
  | skipped h => exact h.elim
  | exhausted => rfl

end

end Stencil.Script
