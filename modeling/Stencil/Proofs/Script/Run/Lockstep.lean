/-
  Two runs in lockstep.

  The same code runs in two states that are related.  As long as each change of the state keeps
  them related and gives the same values, both runs do the same (`Outcome.Alike`): they give the
  same results, meet the same faults and leave related states behind.  What has to be looked at is
  gathered in `Lockstep`; the evaluator follows as a logic (`Lockstep.logic`).  Only in how many
  calls may be active may the runs differ: then the first may meet faults that the second does
  not (`Lockstep.Skips`).
-/
import Stencil.Proofs.Script.Run.Sound

namespace Stencil.Script

open Effect
open Value (Holds)

/-! ## Outcomes -/

section

variable {R R' : Machine → Machine → Prop} {E S : Fault → Prop} {α β : Type}

/-- Two runs ended in the same way, in states related by `R`, and if with a fault, then with one in
    `E`; but if the first one failed with a fault in `S`, nothing is known of the second. -/
inductive Outcome.Alike (R : Machine → Machine → Prop) (E S : Fault → Prop) {α : Type} :
    Outcome α → Outcome α → Prop where
  | done (a : α) {m m'} : R m m' → Alike R E S (.done a m) (.done a m')
  | failed {e : ScriptError} {m m'} : E e.fault → R m m' → Alike R E S (.failed e m) (.failed e m')
  | skipped {e : ScriptError} {m out} : S e.fault → Alike R E S (.failed e m) out
  | exhausted : Alike R E S .exhausted .exhausted

theorem Outcome.alike_refl (out : Outcome α) :
    out.Alike (fun m m' => m' = m) (fun _ => True) S out := by
  cases out with
  | done a m => exact .done a rfl
  | failed e m => exact .failed trivial rfl
  | exhausted => exact .exhausted

theorem Outcome.Alike.bind {x y : Effect α} {f g : α → Effect β} {m m' : Machine}
    (h : (x m).Alike R E S (y m'))
    (hthen : ∀ a n n', x m = .done a n → R n n' → (f a n).Alike R E S (g a n')) :
    ((x >>= f) m).Alike R E S ((y >>= g) m') := by
  rw [bind_apply, bind_apply]
  generalize hx : x m = out at h ⊢
  generalize y m' = out' at h ⊢
  cases h with
  | done a hrel => exact hthen a _ _ hx hrel
  | failed hmeets hrel => exact .failed hmeets hrel
  | skipped hskip => exact .skipped hskip
  | exhausted => exact .exhausted

theorem Outcome.Alike.within {scope : Scope} {x y : Effect α} {m m' : Machine}
    (h : (x (m.enter scope)).Alike R' E S (y (m'.enter scope)))
    (hleave : ∀ {n n'}, R' n n' → R n.leave n'.leave) :
    (Effect.within scope x m).Alike R E S (Effect.within scope y m') := by
  unfold Effect.within
  rw [Machine.enter, Machine.enter] at h
  generalize x { m with scopes := scope :: m.scopes } = out at h ⊢
  generalize y { m' with scopes := scope :: m'.scopes } = out' at h ⊢
  cases h with
  | done a hrel => exact .done a (hleave hrel)
  | failed hmeets hrel => exact .failed hmeets (hleave hrel)
  | skipped hskip => exact .skipped hskip
  | exhausted => exact .exhausted

theorem Outcome.Alike.inCall {run : Nat} {scopes : List Scope} {x y : Effect α} {m m' : Machine}
    (h : (x (m.beginCall run scopes)).Alike R' E S (y (m'.beginCall run scopes)))
    (hend : ∀ {n n'}, R' n n' → R (n.endCall m) (n'.endCall m')) :
    (Effect.inCall run scopes x m).Alike R E S (Effect.inCall run scopes y m') := by
  unfold Effect.inCall
  rw [Machine.beginCall, Machine.beginCall] at h
  generalize x { m with scopes := scopes, depth := m.depth + 1, run := run } = out at h ⊢
  generalize y { m' with scopes := scopes, depth := m'.depth + 1, run := run } = out' at h ⊢
  cases h with
  | done a hrel => exact .done a (hend hrel)
  | failed hmeets hrel => exact .failed hmeets (hend hrel)
  | skipped hskip => exact .skipped hskip
  | exhausted => exact .exhausted

end

/-! ## Attempts to change the state -/

/-- Two attempts to change the state fail with the same fault, or give related states. -/
inductive Machine.Tied (R : Machine → Machine → Prop) :
    Except Fault Machine → Except Fault Machine → Prop where
  | ok {n n'} : R n n' → Tied R (.ok n) (.ok n')
  | error (fault : Fault) : Tied R (.error fault) (.error fault)

section

variable {R : Machine → Machine → Prop} {E S : Fault → Prop} {m m' : Machine} {s : Slot}
  {pos : Position}

/-- A slot is changed alike where its variable has the same value and can be set alike. -/
theorem Slot.modify_tied {α : Type} (hvalue : m'.changeable? s.root = m.changeable? s.root)
    (hset : ∀ v, R (m.setVariable s.root v) (m'.setVariable s.root v))
    (change : Value → Except Fault (Value × α)) :
    (s.modify change m').map Prod.snd = (s.modify change m).map Prod.snd ∧
      Machine.Tied R ((s.modify change m).map Prod.fst) ((s.modify change m').map Prod.fst) := by
  unfold modify
  rw [hvalue]
  split
  · exact ⟨rfl, .error _⟩
  · split
    · exact ⟨rfl, .error _⟩
    · exact ⟨rfl, .ok (hset _)⟩

/-- What is held in a slot hangs on the value of its variable. -/
theorem Slot.held_congr (hvalue : m'.changeable? s.root = m.changeable? s.root) :
    s.held m' = s.held m :=
  (Slot.modify_tied (R := fun _ _ => True) hvalue (fun _ => trivial) _).1

theorem Slot.write_tied {v : Value} (hvalue : m'.changeable? s.root = m.changeable? s.root)
    (hset : ∀ v, R (m.setVariable s.root v) (m'.setVariable s.root v))
    (hassign : Machine.Tied R (m.assign s.root v) (m'.assign s.root v)) :
    Machine.Tied R (s.write v m) (s.write v m') := by
  unfold write
  split
  · exact hassign
  · exact (Slot.modify_tied (s := ⟨s.root, s.path.dropLast⟩) hvalue hset _).2

variable (h : R m m') (hE : ∀ {fault : Fault}, fault.isOperational = true → E fault)

include h hE

theorem writeSlot_alike {v : Value} (htied : Machine.Tied R (s.write v m) (s.write v m')) :
    (writeSlot pos s v m).Alike R E S (writeSlot pos s v m') := by
  have hgives := m.holds_true.slot_write s (v := v) fun _ _ => trivial
  unfold writeSlot
  generalize s.write v m = r at htied hgives ⊢
  generalize s.write v m' = r' at htied ⊢
  cases htied with
  | ok hrel => exact .done () hrel
  | error fault => exact .failed (hE hgives) h

theorem declareName_alike {kind : DeclKind} {name : String} {v : Value}
    (htied : Machine.Tied R (m.declare kind name v) (m'.declare kind name v)) :
    (declareName pos kind name v m).Alike R E S (declareName pos kind name v m') := by
  have hgives := m.holds_true.declare kind name (v := v) fun _ _ => trivial
  unfold declareName
  generalize m.declare kind name v = r at htied hgives ⊢
  generalize m'.declare kind name v = r' at htied ⊢
  cases htied with
  | ok hrel => exact .done () hrel
  | error fault => exact .failed (hE hgives) h

theorem changeArray_alike (hvalue : m'.changeable? s.root = m.changeable? s.root)
    (hset : ∀ v, R (m.setVariable s.root v) (m'.setVariable s.root v)) (pop : Bool)
    (items args : List Value) :
    (changeArray pos s pop items args m).Alike R E S (changeArray pos s pop items args m') := by
  unfold changeArray
  dsimp only
  generalize (if pop then items.dropLast else items ++ args) = changed
  have htied := (Slot.modify_tied hvalue hset fun _ => .ok (.array changed, ())).2
  have hgives := m.holds_true.slot_replace s (v := .array changed) fun _ _ => trivial
  generalize s.modify (fun _ => .ok (.array changed, ())) m = r at htied hgives ⊢
  generalize s.modify (fun _ => .ok (.array changed, ())) m' = r' at htied ⊢
  cases r with
  | ok out =>
    cases r' with
    | ok out' =>
      cases htied with
      | ok hrel => exact .done _ hrel
    | error fault => cases htied
  | error fault =>
    cases r' with
    | ok out' => cases htied
    | error fault' =>
      cases htied
      exact .failed (hE hgives) h

end

/-! ## Lockstep -/

/-- A relation between states that all changes keep which code makes with `Allowed` uses of names,
    with up to `maxDepth` calls active in one state and up to `maxDepth'` in the other. -/
structure Lockstep (F : Function → Prop) (maxDepth maxDepth' : Nat) where
  Rel : Machine → Machine → Prop
  Allowed : NameUse × String → Prop
  /-- The faults that both runs may meet. -/
  Meets : Fault → Prop
  /-- The faults of the first run that the second one may be spared. -/
  Skips : Fault → Prop
  meets : ∀ {fault}, fault.isOperational = true → Meets fault
  allowed_call : ∀ {f}, F f → ∀ u, f.Uses u → Allowed u
  depth : ∀ {m m'}, Rel m m' → m'.depth = m.depth
  limit : maxDepth = maxDepth' ∧ Meets (.callDepthExceeded maxDepth) ∨
    maxDepth ≤ maxDepth' ∧ Skips (.callDepthExceeded maxDepth)
  lookup : ∀ {m m' name}, Rel m m' → Allowed (.read, name) → m'.lookup? name = m.lookup? name
  read : ∀ {m m'} {slot : Slot}, Rel m m' → Allowed (.change, slot.root) →
    slot.read m' = slot.read m
  held : ∀ {m m'} {slot : Slot}, Rel m m' → Allowed (.change, slot.root) →
    slot.held m' = slot.held m
  write : ∀ {m m' pos v} {slot : Slot}, Rel m m' → Allowed (.change, slot.root) →
    (writeSlot pos slot v m).Alike Rel Meets Skips (writeSlot pos slot v m')
  change : ∀ {m m' pos pop items args} {slot : Slot}, Rel m m' → Allowed (.change, slot.root) →
    (changeArray pos slot pop items args m).Alike Rel Meets Skips
      (changeArray pos slot pop items args m')
  append : ∀ {m m' pos args}, Rel m m' →
    (appendOutput pos args m).Alike Rel Meets Skips (appendOutput pos args m')
  declare : ∀ {m m' pos kind name v}, Rel m m' → Allowed (.declare kind, name) →
    (declareName pos kind name v m).Alike Rel Meets Skips (declareName pos kind name v m')
  block : ∀ {m m'} body, Rel m m' →
    Rel ((m.enter .block).hoist body) ((m'.enter .block).hoist body)
  leave : ∀ {m m'}, Rel m m' → Rel m.leave m'.leave
  call : ∀ {m m'} run f args, Rel m m' →
    Rel ((m.beginCall run (Scope.ofCall run f args)).hoist f.body)
      ((m'.beginCall run (Scope.ofCall run f args)).hoist f.body)
  endCall : ∀ {m m' n n'}, Rel m m' → Rel n n' → Rel (n.endCall m) (n'.endCall m')

namespace Lockstep

variable {P : Position → Prop} {F : Function → Prop} {maxDepth maxDepth' : Nat}
  {U : NameUse × String → Prop} {D : String → Prop} {α β : Type}

/-- The effects do the same in related states, where the first state holds functions with `F` only
    and names are used as in `U`. -/
def Ties (K : Lockstep F maxDepth maxDepth') (U : NameUse × String → Prop) (x y : Effect α) :
    Prop :=
  (∀ u, U u → K.Allowed u) → ∀ m m', m.Holds F → K.Rel m m' →
    (x m).Alike K.Rel K.Meets K.Skips (y m')

variable {K : Lockstep F maxDepth maxDepth'}

theorem ties_bind {x y : Effect α} {f g : α → Effect β} {Q : α → Prop}
    (hsound : Sound P F U D x Q) (hx : K.Ties U x y) (hf : ∀ a, Q a → K.Ties U (f a) (g a)) :
    K.Ties U (x >>= f) (y >>= g) := by
  intro hU m m' hm hrel
  refine (hx hU m m' hm hrel).bind fun a n n' hdone hrel' => ?_
  have := hsound m hm
  rw [hdone] at this
  exact hf a this.1 hU n n' this.2.1 hrel'

theorem ties_lift {pos : Position} {r : Except Fault α} {Q : α → Prop} (h : Gives r Q) :
    K.Ties U (lift pos r) (lift pos r) := by
  intro _ m m' _ hrel
  cases r with
  | ok a => exact .done a hrel
  | error fault => exact .failed (K.meets h) hrel

theorem ties_lookup {name : String} (huse : U (.read, name)) :
    K.Ties U (lookupName name) (lookupName name) := by
  intro hU m m' _ hrel
  rw [lookupName, get_bind, get_bind, K.lookup hrel (hU _ huse)]
  exact .done _ hrel

theorem ties_read {pos : Position} {slot : Slot} (hslot : U (.change, slot.root)) :
    K.Ties U (readSlot pos slot) (readSlot pos slot) := by
  intro hU m m' hm hrel
  rw [readSlot, get_bind, get_bind, K.read hrel (hU _ hslot)]
  exact ties_lift (hm.slot_read slot) hU m m' hm hrel

theorem ties_mutate {pos : Position} {slot : Slot} (hslot : U (.change, slot.root)) {pop : Bool}
    {args : List Value} {f g : Value → Effect Value} (hf : ∀ v, Holds F v → K.Ties U (f v) (g v)) :
    K.Ties U
      (get >>= fun m => lift pos (slot.held m) >>= fun v =>
        match v with
        | .array items => changeArray pos slot pop items args
        | v => f v)
      (get >>= fun m => lift pos (slot.held m) >>= fun v =>
        match v with
        | .array items => changeArray pos slot pop items args
        | v => g v) := by
  intro hU m m' hm hrel
  have hheld := hm.slot_held slot
  rw [get_bind, get_bind, K.held hrel (hU _ hslot), bind_apply, bind_apply]
  cases hv : slot.held m with
  | error fault =>
    rw [hv] at hheld
    exact .failed (K.meets hheld) hrel
  | ok v =>
    rw [hv] at hheld
    have hother := hf v hheld hU m m' hm hrel
    cases v with
    | array items => exact K.change hrel (hU _ hslot)
    | _ => exact hother

theorem ties_limit {pos : Position} {x y : Effect α} (hx : K.Ties U x y) :
    K.Ties U
      (get >>= fun m => if maxDepth ≤ m.depth then fail pos (.callDepthExceeded maxDepth) else x)
      (get >>= fun m =>
        if maxDepth' ≤ m.depth then fail pos (.callDepthExceeded maxDepth') else y) := by
  intro hU m m' hm hrel
  rw [get_bind, get_bind, K.depth hrel]
  by_cases hdepth : maxDepth ≤ m.depth
  · rw [if_pos hdepth]
    rcases K.limit with ⟨heq, hmeets⟩ | ⟨-, hskip⟩
    · subst heq
      rw [if_pos hdepth]
      exact .failed hmeets hrel
    · exact .skipped hskip
  · have hle : maxDepth ≤ maxDepth' := K.limit.elim (fun h => Nat.le_of_eq h.1) And.left
    rw [if_neg hdepth, if_neg fun h => hdepth (Nat.le_trans hle h)]
    exact hx hU m m' hm hrel

/-- **Runs in lockstep do the same**, and the first of them is sound. -/
def logic (K : Lockstep F maxDepth maxDepth') (P : Position → Prop) :
    Logic P F maxDepth maxDepth' where
  Says U D x y Q := Sound P F U D x Q ∧ K.Ties U x y
  of_pure h := ⟨sound_pure h, fun _ _ _ _ hrel => .done _ hrel⟩
  of_exhausted := ⟨fun _ _ => trivial, fun _ _ _ _ _ => .exhausted⟩
  of_bind hx hf := ⟨hx.1.bind fun a ha => (hf a ha).1, ties_bind hx.1 hx.2 fun a ha => (hf a ha).2⟩
  of_lift hpos h := ⟨sound_lift hpos h, ties_lift h⟩
  of_lookup huse := ⟨sound_lookup, ties_lookup huse⟩
  of_read hpos hs := ⟨sound_read hpos, ties_read hs⟩
  of_write hpos hs hv := ⟨sound_writeSlot hpos hs hv, fun hU _ _ _ hrel => K.write hrel (hU _ hs)⟩
  of_mutate hpos hs hargs hf := ⟨sound_mutate hpos hs hargs fun v hv => (hf v hv).1,
    ties_mutate hs fun v hv => (hf v hv).2⟩
  of_append hpos _ := ⟨sound_appendOutput hpos _, fun _ _ _ _ hrel => K.append hrel⟩
  of_declare hpos huse hbound hv := ⟨sound_declareName hpos huse hbound hv, fun hU _ _ _ hrel =>
    K.declare hrel (hU _ huse)⟩
  of_block hbody hx := ⟨sound_block hbody hx.1, fun hU _ _ hm hrel =>
    .within (hx.2 hU _ _ (hm.enter.hoist fun f hf => (hbody f hf).1) (K.block _ hrel)) K.leave⟩
  of_limit hpos hx := ⟨sound_limit hpos hx.1, ties_limit hx.2⟩
  of_call hf hbody hargs hx := ⟨sound_call hf hbody hargs hx.1, fun _ _ _ hm hrel =>
    .inCall (hx.2 (K.allowed_call hf) _ _
      ((hm.beginCall hf hargs).hoist fun g hg => (hbody g hg).1)
      (K.call _ _ _ hrel)) (K.endCall hrel)⟩

/-- Two runs of a script do the same if what they start from is related. -/
theorem execProgram_alike (K : Lockstep F maxDepth maxDepth') (hclosed : Closed P F) (steps : Nat)
    {body : List Stmt} (hbody : Stmt.OverList P F body)
    (huses : ∀ u ∈ Stmt.usesList body, K.Allowed u) {m m' : Machine} (hm : m.Holds F)
    (hrel : K.Rel (m.hoist body) (m'.hoist body)) :
    (execProgram maxDepth steps body m).Alike K.Rel K.Meets K.Skips
      (execProgram maxDepth' steps body m') := by
  have hrun := (((K.logic P).covers hclosed steps).execAll (U := (· ∈ Stmt.usesList body)) body
    ⟨hbody.positions, fun _ hu => hu⟩ hbody.functions).2
  have hhoist := hm.hoist fun f hf => hbody.functions f (mem_functionsList_of_declared hf)
  exact (hrun huses _ _ hhoist hrel).bind fun _ _ _ _ hrel' => .done () hrel'

end Lockstep

end Stencil.Script
