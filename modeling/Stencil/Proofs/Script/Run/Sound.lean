/-
  What a run can meet, and where it leads.

  Take the positions of a piece of code to be among `P`, and all functions that the state holds to
  have `F`, where the code of a function with `F` is of the same kind (`Closed`).  Then whatever
  is evaluated or executed raises faults of a run only, never of syntax, and at positions in `P`
  only; the state holds functions with `F` only afterwards, and it is made from the one before by
  changes that the code says (`Moves`).  This is a `Logic`, so it is enough to look at the effects
  that the evaluator is made of.
-/
import Stencil.Proofs.Script.Run.Moves
import Stencil.Script.Run

namespace Stencil.Script

open Effect
open Value (Holds holds_undefined holds_number holds_text holds_array)

variable {P : Position → Prop} {F : Function → Prop} {U : NameUse × String → Prop}
  {D : String → Prop} {α : Type}

/-- A fault of a run, at a position in `P`. -/
def RunFault (P : Position → Prop) (e : ScriptError) : Prop := e.isSyntax = false ∧ P e.pos

/-- The effect lets the state hold functions with `F` only, meets faults of a run only, at positions
    in `P`, and changes the state as code does that uses names as in `U`. -/
def Sound (P : Position → Prop) (F : Function → Prop) (U : NameUse × String → Prop)
    (D : String → Prop) (x : Effect α) (Q : α → Prop) : Prop :=
  Goes (Machine.Holds F) (RunFault P) (Moves F U D) x Q

theorem sound_pure {a : α} {Q : α → Prop} (h : Q a) : Sound P F U D (pure a) Q :=
  fun _ hm => ⟨h, hm, .stay⟩

theorem sound_fail {pos : Position} {fault : Fault} {Q : α → Prop} (hpos : P pos)
    (hfault : fault.isSyntax = false) : Sound P F U D (fail pos fault : Effect α) Q :=
  fun _ hm => ⟨⟨hfault, hpos⟩, hm, .stay⟩

theorem Sound.bind {β : Type} {x : Effect α} {f : α → Effect β} {S : α → Prop} {Q : β → Prop}
    (hx : Sound P F U D x S) (hf : ∀ a, S a → Sound P F U D (f a) Q) :
    Sound P F U D (x >>= f) Q :=
  Goes.bind .andThen hx hf

theorem sound_lift {pos : Position} {r : Except Fault α} {Q : α → Prop} (hpos : P pos)
    (h : Gives r Q) : Sound P F U D (lift pos r) Q := by
  cases r with
  | ok a => exact sound_pure h
  | error fault => exact sound_fail hpos (Fault.isSyntax_of_isOperational h)

theorem sound_lookup {name : String} :
    Sound P F U D (lookupName name) fun v? => ∀ v, v? = some v → Holds F v :=
  fun _ hm => ⟨fun _ hv => hm.lookup? hv, hm, .stay⟩

theorem sound_read {pos : Position} (hpos : P pos) {s : Slot} :
    Sound P F U D (readSlot pos s) (Holds F) :=
  fun m hm => sound_lift hpos (hm.slot_read s) m hm

theorem Machine.Holds.enter {m : Machine} (h : m.Holds F) : (m.enter .block).Holds F :=
  ⟨h.env, List.forall_mem_cons.mpr ⟨Scope.block_holds, h.scopes⟩⟩

theorem Machine.Holds.leave {m : Machine} (h : m.Holds F) : m.leave.Holds F :=
  ⟨h.env, fun s hs => h.scopes s (List.mem_of_mem_tail hs)⟩

theorem Machine.Holds.beginCall {m : Machine} (h : m.Holds F) {run : Nat} {f : Function}
    {args : List Value} (hf : F f) (hargs : ∀ v ∈ args, Value.Holds F v) :
    (m.beginCall run (Scope.ofCall run f args)).Holds F :=
  ⟨h.env, Scope.ofCall_holds hf hargs⟩

/-! ## Changes of the state -/

theorem sound_writeSlot {pos : Position} (hpos : P pos) {s : Slot} (hs : U (.change, s.root))
    {v : Value} (hv : Holds F v) : Sound P F U D (writeSlot pos s v) fun _ => True := by
  intro m hm
  have := hm.slot_write s hv
  unfold writeSlot
  cases h : s.write v m with
  | ok m' =>
    rw [h] at this
    exact ⟨trivial, this, .write hs h⟩
  | error fault =>
    rw [h] at this
    exact ⟨⟨Fault.isSyntax_of_isOperational this, hpos⟩, hm, .stay⟩

theorem sound_declareName {pos : Position} (hpos : P pos) {kind : DeclKind} {name : String}
    (huse : U (.declare kind, name)) (hbound : kind ≠ .varDecl → D name) {v : Value}
    (hv : Holds F v) : Sound P F U D (declareName pos kind name v) fun _ => True := by
  intro m hm
  have := hm.declare kind name hv
  unfold declareName
  cases h : m.declare kind name v with
  | ok m' =>
    rw [h] at this
    exact ⟨trivial, this, .declare huse hbound h⟩
  | error fault =>
    rw [h] at this
    exact ⟨⟨Fault.isSyntax_of_isOperational this, hpos⟩, hm, .stay⟩

/-- The array that is changed is the one that the slot holds. -/
theorem sound_changeArray {pos : Position} (hpos : P pos) {s : Slot} (hs : U (.change, s.root))
    {pop : Bool} {items args : List Value} (hargs : ∀ v ∈ args, Holds F v) {m : Machine}
    (hm : m.Holds F) (hheld : s.held m = .ok (.array items)) :
    (changeArray pos s pop items args m).Leads (Machine.Holds F) (RunFault P)
      (Moves F U D m) (Holds F) := by
  have hitems : ∀ v ∈ items, Holds F v := by
    have := hm.slot_held s
    rw [hheld] at this
    exact holds_array.mp this
  have hchanged : ∀ v ∈ if pop then items.dropLast else items ++ args, Holds F v := by
    split
    · exact fun v hv => hitems v (List.dropLast_subset items hv)
    · exact List.forall_mem_append.mpr ⟨hitems, hargs⟩
  have hhow : (if pop then items.dropLast else items ++ args) = items.dropLast ∨
      items <+: (if pop then items.dropLast else items ++ args) := by
    cases pop with
    | true => exact Or.inl rfl
    | false => exact Or.inr (List.prefix_append items args)
  unfold changeArray
  dsimp only
  generalize (if pop then items.dropLast else items ++ args) = changed at hchanged hhow ⊢
  have hmodify := hm.slot_replace s (holds_array.mpr hchanged)
  cases h : s.modify (fun _ => .ok (.array changed, ())) m with
  | error fault =>
    rw [h] at hmodify
    exact ⟨⟨Fault.isSyntax_of_isOperational hmodify, hpos⟩, hm, .stay⟩
  | ok out =>
    rw [h] at hmodify
    refine ⟨?_, hmodify, .mutate hs hheld hhow h⟩
    split
    · exact Value.holds_getLast?_getD hitems
    · exact holds_number _

theorem sound_mutate {pos : Position} (hpos : P pos) {s : Slot} (hs : U (.change, s.root))
    {pop : Bool} {args : List Value} (hargs : ∀ v ∈ args, Holds F v) {f : Value → Effect Value}
    (hf : ∀ v, Holds F v → Sound P F U D (f v) (Holds F)) :
    Sound P F U D (get >>= fun m => lift pos (s.held m) >>= fun v =>
      match v with
      | .array items => changeArray pos s pop items args
      | v => f v) (Holds F) := by
  intro m hm
  have hheld := hm.slot_held s
  rw [get_bind, bind_apply]
  cases hv : s.held m with
  | error fault =>
    rw [hv] at hheld
    exact ⟨⟨Fault.isSyntax_of_isOperational hheld, hpos⟩, hm, .stay⟩
  | ok v =>
    rw [hv] at hheld
    have hother := hf v hheld m hm
    cases v with
    | array items => exact sound_changeArray hpos hs hargs hm hv
    | _ => exact hother

theorem sound_appendOutput {pos : Position} (hpos : P pos) (args : List Value) :
    Sound P F U D (appendOutput pos args) (Holds F) := by
  intro m hm
  rw [appendOutput_apply]
  split
  · rename_i out hout
    refine ⟨holds_undefined, hm.setEnv _ (holds_text _), ?_⟩
    rw [foldl_display]
    exact .output _ hout
  · exact ⟨⟨rfl, hpos⟩, hm, .stay⟩

/-! ## Blocks and calls -/

theorem sound_block {α : Type} {body : List Stmt} {x : Effect α} {Q : α → Prop}
    (hbody : Hoistable F U body) (hx : Sound P F U (fun _ => True) x Q) :
    Sound P F U D (within .block do modify fun m => m.hoist body; x) Q :=
  Goes.within (hx.after fun _ hm => hm.hoist fun f hf => (hbody f hf).1)
    (fun _ hm => hm.enter) (fun _ hm => hm.leave) (.block hbody)

theorem sound_call {α : Type} {run : Nat} {f : Function} {args : List Value} {x : Effect α}
    {Q : α → Prop} (hf : F f) (hbody : Hoistable F f.Uses f.body)
    (hargs : ∀ v ∈ args, Holds F v) (hx : Sound P F f.Uses (fun _ => True) x Q) :
    Sound P F U D (inCall run (Scope.ofCall run f args) do modify fun m => m.hoist f.body; x) Q :=
  Goes.inCall (hx.after fun _ hm => hm.hoist fun g hg => (hbody g hg).1)
    (fun _ hm => hm.beginCall hf hargs) (fun _ _ hm hm' => ⟨hm'.env, hm.scopes⟩)
    (.call hf hbody)

theorem sound_limit {α : Type} {maxDepth : Nat} {pos : Position} (hpos : P pos) {x : Effect α}
    {Q : α → Prop} (hx : Sound P F U D x Q) :
    Sound P F U D (get >>= fun m =>
      if maxDepth ≤ m.depth then fail pos (.callDepthExceeded maxDepth) else x) Q := by
  intro m hm
  rw [get_bind]
  split
  · exact sound_fail hpos rfl m hm
  · exact hx m hm

/-! ## The evaluator -/

/-- What runs is sound, however many calls may be active. -/
def soundLogic (P : Position → Prop) (F : Function → Prop) (maxDepth : Nat) :
    Logic P F maxDepth maxDepth where
  Says U D x _ Q := Sound P F U D x Q
  of_pure := sound_pure
  of_exhausted := fun _ _ => trivial
  of_bind := Sound.bind
  of_lift := sound_lift
  of_lookup _ := sound_lookup
  of_read hpos _ := sound_read hpos
  of_write hpos hs hv := sound_writeSlot hpos hs hv
  of_mutate hpos hs hargs hf := sound_mutate hpos hs hargs hf
  of_append hpos _ := sound_appendOutput hpos _
  of_declare hpos huse hbound hv := sound_declareName hpos huse hbound hv
  of_block := sound_block
  of_limit hpos hx := sound_limit hpos hx
  of_call := sound_call

/-- A whole script: from an environment that holds functions with `F` only it leaves one, and it
    fails with a fault of a run at a position in `P`, if it does; all that it does to the state
    after declaring its functions are changes that its code says. -/
theorem execProgram_sound (hclosed : Closed P F) (maxDepth steps : Nat) {body : List Stmt}
    (hbody : Stmt.OverList P F body) :
    Goes (Machine.Holds F) (RunFault P)
      (fun m m' => Moves F (· ∈ Stmt.usesList body) (fun _ => True) (m.hoist body) m')
      (execProgram maxDepth steps body) fun _ => True := by
  have hrun : Sound P F (· ∈ Stmt.usesList body) (fun _ => True) (execAll maxDepth steps body)
      (Flow.Holds F) :=
    ((soundLogic P F maxDepth).covers hclosed steps).execAll body
      ⟨hbody.positions, fun _ hu => hu⟩ hbody.functions
  exact (hrun.bind fun _ _ => sound_pure trivial).after fun _ hm =>
    hm.hoist fun f hf => hbody.functions f (mem_functionsList_of_declared hf)

/-- What a run leaves behind however it ends: an environment with `I`, and faults with `E`. -/
def Ending.Keeps {α : Type} (I : Environment → Prop) (E : ScriptError → Prop) : Ending α → Prop
  | .done _ env => I env
  | .failed e env => E e ∧ I env
  | .unfinished => True

theorem Ending.Keeps.mono {α : Type} {I J : Environment → Prop} {E E' : ScriptError → Prop}
    (hI : ∀ env, I env → J env) (hE : ∀ e, E e → E' e) {ending : Ending α} (h : ending.Keeps I E) :
    ending.Keeps J E' := by
  cases ending with
  | done a env => exact hI env h
  | failed e env => exact ⟨hE e h.1, hI env h.2⟩
  | unfinished => trivial

/-- A run of statements over `P` and `F` in an environment that holds functions with `F` only. -/
theorem runProgram_moves (hclosed : Closed P F) (limits : Limits) {body : List Stmt}
    (hbody : Stmt.OverList P F body) {env : Environment} (henv : env.Holds F) :
    (runProgram limits body env).Keeps (fun env' => ∃ m, m.Holds F ∧ m.env = env' ∧
      Moves F (· ∈ Stmt.usesList body) (fun _ => True)
        ((Machine.start env.freshRun env).hoist body) m) (RunFault P) := by
  have hrun := execProgram_sound hclosed limits.maxDepth limits.steps hbody _
    (henv.start env.freshRun)
  unfold runProgram
  cases h : execProgram limits.maxDepth limits.steps body (.start env.freshRun env) with
  | done u m =>
    rw [h] at hrun
    exact ⟨m, hrun.2.1, rfl, hrun.2.2⟩
  | failed e m =>
    rw [h] at hrun
    exact ⟨hrun.1, m, hrun.2.1, rfl, hrun.2.2⟩
  | exhausted => trivial

theorem runProgram_keeps (hclosed : Closed P F) (limits : Limits) {body : List Stmt}
    (hbody : Stmt.OverList P F body) {env : Environment} (henv : env.Holds F) :
    (runProgram limits body env).Keeps (Environment.Holds F) (RunFault P) :=
  (runProgram_moves hclosed limits hbody henv).mono (fun _ ⟨_, hm, heq, _⟩ => heq ▸ hm.env)
    fun _ he => he

/-- The preparations for output put no functions of scripts into the environment. -/
theorem holds_prepare {F : Function → Prop} {env : Environment} (h : env.Holds F) :
    (prepare env).Holds F :=
  Environment.holds_iff.mpr (Dict.forall_insert (Dict.forall_insert (Environment.holds_iff.mp h) _
    (Value.holds_text _)) _ (Value.holds_native _))

end Stencil.Script
