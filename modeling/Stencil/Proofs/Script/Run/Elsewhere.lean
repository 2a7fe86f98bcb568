/-
  The same statements in another place.

  Statements that declare no functions, and nothing by `let` or `const` outside of blocks, cannot
  tell which run they are in: its number shows in functions that are declared, and the names bound
  earlier in the run show only if one is bound again or is constant.  Where the statements stand in
  the script shows in errors alone.  So what finishes in one place finishes in every other one, with
  the same results and the same variables (`Task.run_elsewhere`).  In the functions that are called,
  none of this is asked: they have scopes and a run of their own.
-/
import Stencil.Proofs.Script.Run.Scopes
import Stencil.Proofs.Script.Run.Steps
import Stencil.Proofs.Script.Tree.Positions
import Stencil.Proofs.Script.Tree.Uses

namespace Stencil.Script

open Effect

/-! ## States beside each other -/

/-- Where code runs. -/
inductive Layer where
  /-- Among the statements of the script. -/
  | script
  /-- In a block of the script. -/
  | block
  | call
  deriving DecidableEq

/-- Where the blocks in the code run. -/
def Layer.inner : Layer → Layer
  | script | block => block
  | call => call

theorem Layer.inner_eq_call {layer : Layer} (h : layer.inner = .call) : layer = .call := by
  cases layer <;> cases h
  rfl

theorem Layer.inner_ne_script (layer : Layer) : layer.inner ≠ .script := by
  cases layer <;> decide

/-- None of the names bound in the environment during a run is constant. -/
def Variable (lexical : Dict Bool) : Prop := ∀ name, Dict.get? lexical name ≠ some true

/-- The states have the same variables and the same scopes, of which `frames` says which are
    frames.  The names that the runs have bound in the environment may differ but are not constant,
    and so may the numbers of the runs, unless a call is active. -/
inductive Machine.Beside (layer : Layer) (frames : List Bool) : Machine → Machine → Prop where
  | mk {env lexical lexical' scopes depth run run'} : Variable lexical → Variable lexical' →
      scopes.map Scope.isFrame = frames → (layer = .call → run' = run) →
      Beside layer frames ⟨env, lexical, scopes, depth, run⟩ ⟨env, lexical', scopes, depth, run'⟩

namespace Machine.Beside

variable {layer : Layer} {frames : List Bool} {m m' n : Machine} {name : String}
  (h : m.Beside layer frames m')

include h

theorem lookup? (name : String) : m'.lookup? name = m.lookup? name := by
  cases h
  rfl

theorem changeable? (name : String) : m'.changeable? name = m.changeable? name := by
  cases h
  rfl

theorem setEnv (name : String) (v : Value) :
    (m.setEnv name v).Beside layer frames (m'.setEnv name v) := by
  cases h with
  | mk hvar hvar' hframes hrun => exact .mk hvar hvar' hframes hrun

theorem setVariable (name : String) (v : Value) :
    (m.setVariable name v).Beside layer frames (m'.setVariable name v) := by
  cases h with
  | mk hvar hvar' hframes hrun =>
    unfold Machine.setVariable
    dsimp only
    split
    · exact .mk hvar hvar' ((map_isFrame_setBinding _ name v).trans hframes) hrun
    · exact .mk hvar hvar' hframes hrun

theorem assign {v : Value} (hassign : m.assign name v = .ok n) :
    ∃ n', m'.assign name v = .ok n' ∧ n.Beside layer frames n' := by
  cases h with
  | mk hvar hvar' hframes hrun =>
    unfold Machine.assign at hassign ⊢
    dsimp only at hassign ⊢
    split at hassign
    · split at hassign <;> cases hassign
      rename_i hconst
      rw [if_neg hconst]
      exact ⟨_, rfl, .mk hvar hvar' ((map_isFrame_setBinding _ name v).trans hframes) hrun⟩
    · rw [if_neg (hvar name)] at hassign
      cases hassign
      rw [if_neg (hvar' name)]
      exact ⟨_, rfl, .mk hvar hvar' hframes hrun⟩

/-- Outside of blocks this is so for `var` only. -/
theorem declare {kind : DeclKind} {v : Value} (hkind : frames ≠ [] ∨ kind = .varDecl)
    (hdeclare : m.declare kind name v = .ok n) :
    ∃ n', m'.declare kind name v = .ok n' ∧ n.Beside layer frames n' := by
  cases h with
  | @mk _ _ _ scopes _ _ _ hvar hvar' hframes hrun =>
    cases kind with
    | varDecl =>
      simp only [Machine.declare] at hdeclare ⊢
      cases hbind : bindInFrame? scopes name ⟨v, false⟩ with
      | none =>
        rw [hbind] at hdeclare
        cases hdeclare
        exact ⟨_, rfl, .mk hvar hvar' hframes hrun⟩
      | some scopes' =>
        rw [hbind] at hdeclare
        cases hdeclare
        obtain ⟨i, s, -, -, rfl⟩ := bindInFrame?_eq_bindAt hbind
        exact ⟨_, rfl, .mk hvar hvar' ((map_isFrame_bindAt scopes i name _).trans hframes) hrun⟩
    | letDecl | constDecl =>
      cases scopes with
      | nil => exact absurd hkind (by simp [← hframes])
      | cons s outer =>
        simp only [Machine.declare] at hdeclare ⊢
        split at hdeclare <;> cases hdeclare
        rename_i hnew
        rw [if_neg hnew]
        exact ⟨_, rfl, .mk hvar hvar' hframes hrun⟩

theorem enter (scope : Scope) :
    (m.enter scope).Beside layer.inner (scope.isFrame :: frames) (m'.enter scope) := by
  cases h with
  | mk hvar hvar' hframes hrun =>
    exact .mk hvar hvar' (congrArg (scope.isFrame :: ·) hframes) fun hlayer =>
      hrun (Layer.inner_eq_call hlayer)

omit h in
theorem leave {flag : Bool} (h : m.Beside layer.inner (flag :: frames) m') :
    m.leave.Beside layer frames m'.leave := by
  cases h with
  | mk hvar hvar' hframes hrun =>
    refine .mk hvar hvar' ?_ fun hlayer => hrun (by rw [hlayer]; rfl)
    rw [List.map_tail, hframes, List.tail_cons]

theorem beginCall (run : Nat) (scopes : List Scope) : (m.beginCall run scopes).Beside .call
    (scopes.map Scope.isFrame) (m'.beginCall run scopes) := by
  cases h with
  | mk hvar hvar' _ _ => exact .mk hvar hvar' rfl fun _ => rfl

theorem endCall {frames' : List Bool} {n n' : Machine} (hn : n.Beside .call frames' n') :
    (n.endCall m).Beside layer frames (n'.endCall m') := by
  cases h with
  | mk _ _ hframes hrun =>
    cases hn with
    | mk hvar hvar' _ _ => exact .mk hvar hvar' hframes hrun

/-- In calls, functions get the same number. -/
theorem hoist (hlayer : layer = .call) (hframes : frames ≠ []) (body : List Stmt) :
    (m.hoist body).Beside layer frames (m'.hoist body) := by
  cases h with
  | @mk _ _ _ scopes _ _ _ hvar hvar' hscopes hrun =>
    cases scopes with
    | nil => exact absurd hscopes.symm hframes
    | cons s outer =>
      obtain rfl := hrun hlayer
      rw [Machine.hoist_of_cons body rfl, Machine.hoist_of_cons body rfl]
      refine .mk hvar hvar' ?_ fun _ => rfl
      rw [List.map_cons, Scope.isFrame_withFunctions]
      exact hscopes

end Machine.Beside

namespace Slot

variable {layer : Layer} {frames : List Bool} {m m' n : Machine} (s : Slot)
  (h : m.Beside layer frames m')

include h

theorem read_beside : s.read m' = s.read m := by
  rw [read, read, h.lookup?]

theorem modify_beside {α : Type} {change : Value → Except Fault (Value × α)} {r : α}
    (hmodify : s.modify change m = .ok (n, r)) :
    ∃ n', s.modify change m' = .ok (n', r) ∧ n.Beside layer frames n' := by
  obtain ⟨v, v', hv, hchange, rfl⟩ := modify_cases hmodify
  refine ⟨m'.setVariable s.root v', ?_, h.setVariable s.root v'⟩
  rw [modify, h.changeable?, hv]
  dsimp only
  rw [hchange]

theorem held_beside {v : Value} (hheld : s.held m = .ok v) : s.held m' = .ok v := by
  obtain ⟨⟨n, w⟩, hmodify, rfl⟩ := exists_of_map_ok hheld
  obtain ⟨n', hmodify', -⟩ := s.modify_beside h hmodify
  rw [held, hmodify']
  rfl

theorem write_beside {v : Value} (hwrite : s.write v m = .ok n) :
    ∃ n', s.write v m' = .ok n' ∧ n.Beside layer frames n' := by
  unfold write at hwrite ⊢
  split at hwrite
  · exact h.assign hwrite
  · obtain ⟨⟨n, u⟩, hmodify, rfl⟩ := exists_of_map_ok hwrite
    obtain ⟨n', hmodify', hrel⟩ := modify_beside _ h hmodify
    refine ⟨n', ?_, hrel⟩
    dsimp only
    rw [hmodify']
    rfl

end Slot

/-! ## Effects that carry over -/

/-- Where `x` finishes, `y` finishes with the same result in a state beside.  In blocks and calls
    there are scopes. -/
def Carried {α : Type} (layer : Layer) (x y : Effect α) : Prop :=
  ∀ ⦃frames m m' a n⦄, (layer ≠ .script → frames ≠ []) → m.Beside layer frames m' →
    x m = .done a n → ∃ n', y m' = .done a n' ∧ n.Beside layer frames n'

section

variable {layer : Layer} {α β : Type} {pos pos' : Position} {x y : Effect α}

theorem carried_pure (a : α) : Carried layer (pure a : Effect α) (pure a) := by
  intro frames m m' b n _ h hx
  cases hx
  exact ⟨m', rfl, h⟩

theorem carried_fail {fault : Fault} : Carried layer (fail pos fault) y := by
  intro frames m m' a n _ _ hx
  cases hx

theorem carried_lift (r : Except Fault α) : Carried layer (lift pos r) (lift pos' r) := by
  cases r with
  | ok a => exact carried_pure a
  | error fault => exact carried_fail

theorem Carried.bind {f g : α → Effect β} (hx : Carried layer x y)
    (hf : ∀ a, Carried layer (f a) (g a)) : Carried layer (x >>= f) (y >>= g) := by
  intro frames m m' b n hframes h hdone
  obtain ⟨a, k, hxk, hfk⟩ := bind_done_iff.mp hdone
  obtain ⟨k', hyk, hk⟩ := hx hframes h hxk
  obtain ⟨n', hgn, hn⟩ := hf a hframes hk hfk
  exact ⟨n', by rw [bind_of_done hyk, hgn], hn⟩

theorem Carried.within (scope : Scope) (hx : Carried layer.inner x y) :
    Carried layer (within scope x) (within scope y) := by
  intro frames m m' a n _ h hdone
  obtain ⟨k, hxk, rfl⟩ := within_done_iff.mp hdone
  obtain ⟨k', hyk, hk⟩ := hx (fun _ => List.cons_ne_nil _ _) (h.enter scope) hxk
  exact ⟨k'.leave, within_done_iff.mpr ⟨k', hyk, rfl⟩, hk.leave⟩

theorem Carried.inCall (run : Nat) {scopes : List Scope} (hscopes : scopes ≠ [])
    (hx : Carried .call x y) : Carried layer (inCall run scopes x) (inCall run scopes y) := by
  intro frames m m' a n _ h hdone
  obtain ⟨k, hxk, rfl⟩ := inCall_done_iff.mp hdone
  obtain ⟨k', hyk, hk⟩ := hx (fun _ => by simpa using hscopes) (h.beginCall run scopes) hxk
  exact ⟨k'.endCall m', inCall_done_iff.mpr ⟨k', hyk, rfl⟩, h.endCall hk⟩

theorem carried_lookupName (name : String) :
    Carried layer (lookupName name) (lookupName name) := by
  intro frames m m' a n _ h hx
  cases hx
  exact ⟨m', by rw [← h.lookup?]; rfl, h⟩

theorem carried_nameValue (name : String) :
    Carried layer (nameValue pos name) (nameValue pos' name) := by
  refine .bind (carried_lookupName name) fun v? => ?_
  cases v? with
  | some v => exact carried_pure v
  | none => exact carried_fail

theorem carried_readSlot (s : Slot) : Carried layer (readSlot pos s) (readSlot pos' s) := by
  intro frames m m' a n hframes h hx
  have hread : readSlot pos' s m' = lift pos' (s.read m) m' := by
    rw [readSlot, get_bind, s.read_beside h]
  rw [hread]
  exact carried_lift (s.read m) hframes h hx

theorem carried_heldSlot (s : Slot) : Carried layer (heldSlot pos s) (heldSlot pos' s) := by
  intro frames m m' a n _ h hx
  rw [heldSlot, get_bind] at hx ⊢
  cases hheld : s.held m with
  | ok v =>
    rw [hheld] at hx
    cases hx
    rw [s.held_beside h hheld]
    exact ⟨m', rfl, h⟩
  | error fault =>
    rw [hheld] at hx
    cases hx

theorem carried_writeSlot (s : Slot) (v : Value) :
    Carried layer (writeSlot pos s v) (writeSlot pos' s v) := by
  intro frames m m' a n _ h hx
  unfold writeSlot at hx ⊢
  split at hx <;> cases hx
  rename_i hwrite
  obtain ⟨n', hwrite', hn⟩ := s.write_beside h hwrite
  rw [hwrite']
  exact ⟨n', rfl, hn⟩

theorem carried_changeArray (s : Slot) (pop : Bool) (items args : List Value) :
    Carried layer (changeArray pos s pop items args) (changeArray pos' s pop items args) := by
  intro frames m m' a n _ h hx
  unfold changeArray at hx ⊢
  dsimp only at hx ⊢
  split at hx <;> cases hx
  rename_i hmodify
  obtain ⟨n', hmodify', hn⟩ := s.modify_beside h hmodify
  rw [hmodify']
  exact ⟨n', rfl, hn⟩

theorem carried_appendOutput (args : List Value) :
    Carried layer (appendOutput pos args) (appendOutput pos' args) := by
  intro frames m m' a n _ h hx
  have henv : m'.env = m.env := by
    cases h
    rfl
  rw [appendOutput_apply] at hx ⊢
  rw [henv]
  split at hx <;> cases hx
  exact ⟨_, rfl, h.setEnv _ _⟩

theorem carried_declareName {kind : DeclKind} (hkind : layer = .script → kind = .varDecl)
    (name : String) (v : Value) :
    Carried layer (declareName pos kind name v) (declareName pos' kind name v) := by
  intro frames m m' a n hframes h hx
  have hdirect : frames ≠ [] ∨ kind = .varDecl := by
    by_cases hlayer : layer = .script
    · exact Or.inr (hkind hlayer)
    · exact Or.inl (hframes hlayer)
  unfold declareName at hx ⊢
  split at hx <;> cases hx
  rename_i hdeclare
  obtain ⟨n', hdeclare', hn⟩ := h.declare hdirect hdeclare
  rw [hdeclare']
  exact ⟨n', rfl, hn⟩

theorem carried_checkDepth (maxDepth : Nat) :
    Carried layer (checkDepth maxDepth pos) (checkDepth maxDepth pos') := by
  intro frames m m' a n _ h hx
  have hdepth : m'.depth = m.depth := by
    cases h
    rfl
  rw [checkDepth_apply] at hx ⊢
  rw [hdepth]
  split at hx <;> cases hx
  exact ⟨m', if_neg ‹_›, h⟩

end

/-! ## Tasks in another place -/

namespace Task

variable {α : Type}

/-- The task for the same code with every position changed by `f`.  A function that is called is
    not changed: it comes from a value. -/
def mapPos (f : Position → Position) : Task α → Task α
  | .eval e => .eval (e.mapPos f)
  | .evalAll es => .evalAll (Expr.mapPosItems f es)
  | .evalMembers es members => .evalMembers (Expr.mapPosMembers f es) members
  | .resolve place => .resolve (place.mapPos f)
  | .callMethod pos callee receiver name args =>
    .callMethod (f pos) (callee.mapPos f) receiver name args
  | .callValue pos callee v args => .callValue (f pos) (callee.mapPos f) v args
  | .callFunction pos run g args => .callFunction (f pos) run g args
  | .exec s => .exec (s.mapPos f)
  | .execAll body => .execAll (Stmt.mapPosList f body)
  | .declareAll kind items => .declareAll kind (items.map (Declarator.mapPos f))
  | .execBlock body => .execBlock (Stmt.mapPosList f body)
  | .execScoped s => .execScoped (s.mapPos f)
  | .execWhile cond body => .execWhile (cond.mapPos f) (body.mapPos f)
  | .execDoWhile body cond => .execDoWhile (body.mapPos f) (cond.mapPos f)
  | .execFor cond update body =>
    .execFor (cond.map (Expr.mapPos f)) (update.map (Expr.mapPos f)) (body.mapPos f)
  | .execForOf pos kind name body items => .execForOf (f pos) kind name (body.mapPos f) items

/-- The functions declared in the statements of the task, however deep they lie. -/
def functions : Task α → List Function
  | .exec s | .execScoped s => s.functions
  | .execAll body | .execBlock body => Stmt.functionsList body
  | .execWhile _ body | .execDoWhile body _ | .execFor _ _ body | .execForOf _ _ _ body _ =>
    body.functions
  | _ => []

end Task

/-- How the task declares variables right where it runs, other than in blocks. -/
def Task.declKinds {α : Type} : Task α → List DeclKind
  | .exec s => s.declKind?.toList
  | .execAll body => body.filterMap Stmt.declKind?
  | .declareAll kind _ => [kind]
  | _ => []

/-- In the script and its blocks the task declares no functions, and in the script itself nothing
    but by `var`. -/
structure Task.StandsIn (layer : Layer) {α : Type} (t : Task α) : Prop where
  functions : layer ≠ .call → t.functions = []
  declKinds : layer = .script → ∀ kind ∈ t.declKinds, kind = .varDecl

/-- Plans of the same shape for code in two places: their effects carry over, and their tasks are
    for the same code.  In a call the code is that of a function, whose positions are its own. -/
inductive Plan.Like : Layer → (Position → Position) → {α : Type} → Plan α → Plan α → Prop where
  | effect {layer f} {α : Type} {x y : Effect α} : Carried layer x y →
      Like layer f (.effect x) (.effect y)
  | task {layer f} {α : Type} {t : Task α} : t.StandsIn layer →
      Like layer f (.task t) (.task (t.mapPos f))
  | bind {layer f} {α β : Type} {p q : Plan α} {g h : α → Plan β} : Like layer f p q →
      (∀ a, Like layer f (g a) (h a)) → Like layer f (.bind p g) (.bind q h)
  | within {layer f scope} {α : Type} {p q : Plan α} : Like layer.inner f p q →
      Like layer f (.within scope p) (.within scope q)
  | inCall {layer f run scopes} {α : Type} {p q : Plan α} : scopes ≠ [] → Like .call id p q →
      Like layer f (.inCall run scopes p) (.inCall run scopes q)

/-! ## What each task plans -/

theorem mutatedPlace?_mapPos (f : Position → Position) (object : Expr) (property : String) :
    mutatedPlace? (object.mapPos f) property
      = (mutatedPlace? object property).map (Place.mapPos f) := by
  unfold mutatedPlace?
  split
  · exact object.toPlace?_mapPos f
  · rfl

/-- Statements without functions declare none, wherever they stand. -/
theorem declaredFunctions_mapPosList (f : Position → Position) {body : List Stmt}
    (h : Stmt.functionsList body = []) : declaredFunctions (Stmt.mapPosList f body) = [] := by
  induction body with
  | nil => rfl
  | cons s rest ih =>
    obtain ⟨hs, hrest⟩ := List.append_eq_nil_iff.mp h
    rw [Stmt.mapPosList, declaredFunctions, List.filterMap_cons]
    cases s with
    | function pos name params body => cases hs
    | _ => exact ih hrest

theorem Machine.hoist_mapPosList (m : Machine) (f : Position → Position) {body : List Stmt}
    (h : Stmt.functionsList body = []) : m.hoist (Stmt.mapPosList f body) = m := by
  rw [hoist, declaredFunctions_mapPosList f h, List.foldl_nil]

theorem Machine.hoist_of_functionsList (m : Machine) {body : List Stmt}
    (h : Stmt.functionsList body = []) : m.hoist body = m := by
  have := m.hoist_mapPosList id h
  rwa [Stmt.mapPosList_id] at this

theorem carried_hoist {layer : Layer} {f : Position → Position} (hf : layer = .call → f = id)
    (body : List Stmt) (hbody : layer ≠ .call → Stmt.functionsList body = []) :
    Carried layer (modify fun m => m.hoist body)
      (modify fun m => m.hoist (Stmt.mapPosList f body)) := by
  intro frames m m' a n hframes h hx
  cases hx
  refine ⟨_, rfl, ?_⟩
  by_cases hlayer : layer = .call
  · rw [hf hlayer, Stmt.mapPosList_id]
    exact h.hoist hlayer (hframes (by rw [hlayer]; decide)) body
  · dsimp only
    rw [m.hoist_of_functionsList (hbody hlayer), m'.hoist_mapPosList f (hbody hlayer)]
    exact h

section

variable {layer : Layer} {f : Position → Position} {α β : Type}

theorem like_pure (a : α) : (pure a : Plan α).Like layer f (pure a) := .effect (carried_pure a)

/-- A task for statements that declare nothing where the task runs, but only in their blocks. -/
theorem like_blocks (t : Task α) (hfunctions : layer ≠ .call → t.functions = [])
    (hkinds : t.declKinds = []) : (liftM t : Plan α).Like layer f (liftM (t.mapPos f)) :=
  .task ⟨hfunctions, fun _ _ hkind => absurd (hkinds ▸ hkind) List.not_mem_nil⟩

/-- Tasks without statements can be done anywhere. -/
theorem like_task (t : Task α) (hfunctions : t.functions = []) (hkinds : t.declKinds = []) :
    (liftM t : Plan α).Like layer f (liftM (t.mapPos f)) :=
  like_blocks t (fun _ => hfunctions) hkinds

/-- A task for statements in a block. -/
theorem like_inner (t : Task α) (hfunctions : layer ≠ .call → t.functions = []) :
    (liftM t : Plan α).Like layer.inner f (liftM (t.mapPos f)) := by
  refine .task ⟨fun hlayer => hfunctions ?_, fun hlayer => ?_⟩
  · rintro rfl
    exact hlayer rfl
  · exact absurd hlayer layer.inner_ne_script

theorem like_ite {c : Prop} [Decidable c] {p p' q q' : Plan α} (hp : p.Like layer f p')
    (hq : q.Like layer f q') : (if c then p else q).Like layer f (if c then p' else q') := by
  split
  · exact hp
  · exact hq

theorem like_round (flow : Flow) {next next' : Plan Flow} (h : next.Like layer f next') :
    (planRound flow next).Like layer f (planRound flow next') := by
  cases flow with
  | next => exact h
  | continueLoop => exact h
  | breakLoop => exact like_pure _
  | ret v => exact like_pure _

theorem planCall_like (pos : Position) (callee : Expr) (args : List Expr) :
    (planCall pos callee args).Like layer f
      (planCall (f pos) (callee.mapPos f) (Expr.mapPosItems f args)) := by
  have hargs : (liftM (Task.evalAll args) : Plan _).Like layer f
      (liftM (Task.evalAll (Expr.mapPosItems f args))) := like_task (.evalAll args) rfl rfl
  cases callee with
  | member mpos object property =>
    have hmethod (v : Value) (vs : List Value) :
        (liftM (Task.callMethod pos (.member mpos object property) v property vs) : Plan _).Like
          layer f (liftM (Task.callMethod (f pos) ((Expr.member mpos object property).mapPos f) v
            property vs)) :=
      like_task (.callMethod pos (.member mpos object property) v property vs) rfl rfl
    rw [planCall, Expr.mapPos, planCall, mutatedPlace?_mapPos]
    cases mutatedPlace? object property with
    | some place =>
      refine .bind (like_task (.resolve place) rfl rfl) fun slot => .bind hargs fun vs =>
        .bind (.effect (carried_heldSlot slot)) fun v => ?_
      cases v with
      | array items => exact .effect (carried_changeArray slot _ items vs)
      | _ => exact hmethod _ vs
    | none =>
      exact .bind (like_task (.eval object) rfl rfl) fun v => .bind hargs fun vs => hmethod v vs
  | _ =>
    exact .bind (like_task (.eval _) rfl rfl) fun v => .bind hargs fun vs =>
      like_task (.callValue pos _ v vs) rfl rfl

theorem planEval_like (e : Expr) : (planEval e).Like layer f (planEval (e.mapPos f)) := by
  have htask (e : Expr) : (liftM (Task.eval e) : Plan _).Like layer f
      (liftM (Task.eval (e.mapPos f))) := like_task (.eval e) rfl rfl
  cases e with
  | number pos x => exact like_pure _
  | text pos s => exact like_pure _
  | bool pos b => exact like_pure _
  | null pos => exact like_pure _
  | undefined pos => exact like_pure _
  | name pos s => exact .effect (carried_nameValue s)
  | array pos items => exact .bind (like_task (.evalAll items) rfl rfl) fun _ => like_pure _
  | object pos members =>
    exact .bind (like_task (.evalMembers members []) rfl rfl) fun _ => like_pure _
  | unary pos op operand =>
    have hoperand : (do return op.apply (← Task.eval operand) : Plan Value).Like layer f
        (do return op.apply (← Task.eval (operand.mapPos f))) :=
      .bind (htask operand) fun _ => like_pure _
    cases op with
    | typeOf =>
      cases operand with
      | name pos s => exact .bind (.effect (carried_lookupName s)) fun _ => like_pure _
      | _ => exact hoperand
    | _ => exact hoperand
  | binary pos op lhs rhs =>
    exact .bind (htask lhs) fun _ => .bind (htask rhs) fun _ => like_pure _
  | logical pos op lhs rhs =>
    exact .bind (htask lhs) fun _ => like_ite (like_pure _) (htask rhs)
  | conditional pos cond whenTrue whenFalse =>
    exact .bind (htask cond) fun _ => like_ite (htask whenTrue) (htask whenFalse)
  | assign pos op target value =>
    have hslot : (liftM (Task.resolve target) : Plan _).Like layer f
        (liftM (Task.resolve (target.mapPos f))) := like_task (.resolve target) rfl rfl
    cases op with
    | none =>
      exact .bind hslot fun slot => .bind (htask value) fun v =>
        .bind (.effect (carried_writeSlot slot v)) fun _ => like_pure _
    | some op =>
      exact .bind hslot fun slot => .bind (.effect (carried_readSlot slot)) fun _ =>
        .bind (htask value) fun _ => .bind (.effect (carried_writeSlot slot _)) fun _ =>
          like_pure _
  | update pos op before target =>
    exact .bind (like_task (.resolve target) rfl rfl) fun slot =>
      .bind (.effect (carried_readSlot slot)) fun _ =>
        .bind (.effect (carried_writeSlot slot _)) fun _ => like_pure _
  | member pos object property =>
    exact .bind (htask object) fun v => .effect (carried_lift (v.readMember property))
  | index pos object key =>
    exact .bind (htask object) fun v => .bind (htask key) fun k =>
      .effect (carried_lift (v.readIndex k))
  | call pos callee args => exact planCall_like pos callee args

theorem planExec_like (s : Stmt) (hs : (Task.exec s).StandsIn layer) :
    (planExec s).Like layer f (planExec (s.mapPos f)) := by
  have htask (e : Expr) : (liftM (Task.eval e) : Plan _).Like layer f
      (liftM (Task.eval (e.mapPos f))) := like_task (.eval e) rfl rfl
  have hnone := hs.functions
  cases s with
  | declare kind items =>
    have hitems : (Task.declareAll kind items).StandsIn layer :=
      ⟨fun _ => rfl, hs.declKinds⟩
    exact .bind (.task hitems) fun _ => like_pure _
  | expr e => exact .bind (htask e) fun _ => like_pure _
  | branch cond whenTrue whenFalse =>
    refine .bind (htask cond) fun _ => like_ite ?_ ?_
    · exact like_blocks (.execScoped whenTrue)
        (fun hlayer => (List.append_eq_nil_iff.mp (hnone hlayer)).1) rfl
    · cases whenFalse with
      | none => exact like_pure _
      | some s =>
        exact like_blocks (.execScoped s)
          (fun hlayer => (List.append_eq_nil_iff.mp (hnone hlayer)).2) rfl
  | whileLoop cond body => exact like_blocks (.execWhile cond body) hnone rfl
  | doWhile body cond => exact like_blocks (.execDoWhile body cond) hnone rfl
  | forLoop start cond update body =>
    have hrounds := like_inner (f := f) (.execFor cond update body) hnone
    refine .within ?_
    rcases start with - | ⟨kind, items⟩ | e
    · exact hrounds
    · exact .bind (like_inner (.declareAll kind items) fun _ => rfl) fun _ => hrounds
    · exact .bind (like_inner (.eval e) fun _ => rfl) fun _ => hrounds
  | forOf kind name iterable body =>
    refine .bind (htask iterable) fun v => ?_
    cases iterated? v with
    | some items =>
      dsimp only
      rw [Expr.pos_mapPos]
      exact like_blocks (.execForOf iterable.pos kind name body items) hnone rfl
    | none => exact .effect carried_fail
  | block body => exact like_blocks (.execBlock body) hnone rfl
  | function pos name params body => exact like_pure _
  | ret value =>
    cases value with
    | none => exact like_pure _
    | some e => exact .bind (htask e) fun _ => like_pure _
  | breakLoop => exact like_pure _
  | continueLoop => exact like_pure _
  | empty => exact like_pure _

theorem planCallMethod_like (pos : Position) (callee : Expr) (receiver : Value) (name : String)
    (args : List Value) : (planCallMethod pos callee receiver name args).Like layer f
      (planCallMethod (f pos) (callee.mapPos f) receiver name args) := by
  unfold planCallMethod
  dsimp only
  split
  · rename_i v _
    exact like_task (.callValue pos callee v args) rfl rfl
  · exact .effect (carried_lift _)

theorem planCallValue_like (pos : Position) (callee : Expr) (v : Value) (args : List Value) :
    (planCallValue pos callee v args).Like layer f
      (planCallValue (f pos) (callee.mapPos f) v args) := by
  cases v with
  | function run g => exact like_task (.callFunction pos run g args) rfl rfl
  | native n =>
    cases n with
    | append => exact .effect (carried_appendOutput args)
    | _ => exact .effect (carried_lift _)
  | _ => exact .effect carried_fail

/-- A call does the same wherever it stands. -/
theorem planCallFunction_like (maxDepth : Nat) (pos : Position) (run : Nat) (g : Function)
    (args : List Value) : (planCallFunction maxDepth pos run g args).Like layer f
      (planCallFunction maxDepth (f pos) run g args) := by
  have hhoist : Carried .call (modify fun m => m.hoist g.body)
      (modify fun m => m.hoist (Stmt.mapPosList id g.body)) :=
    carried_hoist (fun _ => rfl) g.body fun h => absurd rfl h
  have hbody : (liftM (Task.execAll g.body) : Plan _).Like .call id
      (liftM (Task.execAll (Stmt.mapPosList id g.body))) :=
    .task ⟨fun h => absurd rfl h, fun h => by cases h⟩
  rw [Stmt.mapPosList_id] at hhoist hbody
  refine .bind (.effect (carried_checkDepth maxDepth)) fun _ =>
    .bind (.inCall (List.cons_ne_nil _ _) (.bind (.effect hhoist) fun _ => hbody)) fun flow => ?_
  cases flow <;> exact like_pure _

theorem Task.plan_like (maxDepth : Nat) (hf : layer = .call → f = id) (t : Task α)
    (ht : t.StandsIn layer) : (t.plan maxDepth).Like layer f ((t.mapPos f).plan maxDepth) := by
  have htask (e : Expr) : (liftM (Task.eval e) : Plan _).Like layer f
      (liftM (Task.eval (e.mapPos f))) := like_task (.eval e) rfl rfl
  have hnone := ht.functions
  have hkinds := ht.declKinds
  cases t with
  | eval e => exact planEval_like e
  | evalAll es =>
    cases es with
    | nil => exact like_pure _
    | cons e rest =>
      exact .bind (htask e) fun _ => .bind (like_task (.evalAll rest) rfl rfl) fun _ => like_pure _
  | evalMembers es members =>
    cases es with
    | nil => exact like_pure _
    | cons p rest => exact .bind (htask p.2) fun _ => like_task (.evalMembers rest _) rfl rfl
  | resolve place =>
    cases place with
    | name pos s => exact like_pure _
    | member pos base property =>
      exact .bind (like_task (.resolve base) rfl rfl) fun _ => like_pure _
    | index pos base key =>
      exact .bind (like_task (.resolve base) rfl rfl) fun _ => .bind (htask key) fun _ =>
        like_pure _
  | callMethod pos callee receiver name args =>
    exact planCallMethod_like pos callee receiver name args
  | callValue pos callee v args => exact planCallValue_like pos callee v args
  | callFunction pos run g args => exact planCallFunction_like maxDepth pos run g args
  | exec s => exact planExec_like s ht
  | execAll body =>
    cases body with
    | nil => exact like_pure _
    | cons s rest =>
      have hs : (Task.exec s).StandsIn layer := by
        refine ⟨fun hlayer => (List.append_eq_nil_iff.mp (hnone hlayer)).1,
          fun hlayer kind hkind => hkinds hlayer kind ?_⟩
        exact List.mem_filterMap.mpr ⟨s, List.mem_cons_self, Option.mem_toList.mp hkind⟩
      have hrest : (Task.execAll rest).StandsIn layer := by
        refine ⟨fun hlayer => (List.append_eq_nil_iff.mp (hnone hlayer)).2,
          fun hlayer kind hkind => hkinds hlayer kind ?_⟩
        obtain ⟨s', hs', heq⟩ := List.mem_filterMap.mp hkind
        exact List.mem_filterMap.mpr ⟨s', List.mem_cons_of_mem _ hs', heq⟩
      refine .bind (.task hs) fun flow => ?_
      cases flow with
      | next => exact .task hrest
      | ret v => exact like_pure _
      | breakLoop => exact like_pure _
      | continueLoop => exact like_pure _
  | declareAll kind items =>
    rcases items with - | ⟨⟨name, pos, init⟩, rest⟩
    · exact like_pure _
    · have hkind (hlayer : layer = .script) : kind = .varDecl :=
        hkinds hlayer kind (List.mem_singleton.mpr rfl)
      have hrest : (Task.declareAll kind rest).StandsIn layer := ⟨fun _ => rfl, hkinds⟩
      have hthen (v : Value) : (do
          declareName pos kind name v
          Task.declareAll kind rest : Plan Unit).Like layer f (do
          declareName (f pos) kind name v
          Task.declareAll kind (rest.map (Declarator.mapPos f)) : Plan Unit) :=
        .bind (.effect (carried_declareName hkind name v)) fun _ => .task hrest
      cases init with
      | none => exact .bind (like_pure _) hthen
      | some e => exact .bind (htask e) hthen
  | execBlock body =>
    have hhoist : Carried layer.inner (modify fun m => m.hoist body)
        (modify fun m => m.hoist (Stmt.mapPosList f body)) :=
      carried_hoist (fun hlayer => hf (Layer.inner_eq_call hlayer)) body
        (fun hlayer => hnone fun h => hlayer (by rw [h]; rfl))
    exact .within (.bind (.effect hhoist) fun _ => like_inner (.execAll body) hnone)
  | execScoped s =>
    cases s with
    | block body => exact like_blocks (.execBlock body) hnone rfl
    | _ => exact .within (like_inner (.exec _) hnone)
  | execWhile cond body =>
    refine .bind (htask cond) fun _ => like_ite ?_ (like_pure _)
    exact .bind (like_blocks (.execScoped body) hnone rfl) fun flow =>
      like_round flow (like_blocks (.execWhile cond body) hnone rfl)
  | execDoWhile body cond =>
    refine .bind (like_blocks (.execScoped body) hnone rfl) fun flow => like_round flow ?_
    exact .bind (htask cond) fun _ =>
      like_ite (like_blocks (.execDoWhile body cond) hnone rfl) (like_pure _)
  | execFor cond update body =>
    have hround {next next' : Plan Flow} (hnext : next.Like layer f next') (v : Value) : (do
        if v.truthy then planRound (← Task.execScoped body) next
        else return .next : Plan Flow).Like layer f (do
        if v.truthy then planRound (← Task.execScoped (body.mapPos f)) next'
        else return .next) :=
      like_ite (.bind (like_blocks (.execScoped body) hnone rfl) fun flow =>
        like_round flow hnext) (like_pure _)
    have hrest : (liftM (Task.execFor cond update body) : Plan _).Like layer f
        (liftM ((Task.execFor cond update body).mapPos f)) :=
      like_blocks (.execFor cond update body) hnone rfl
    cases cond with
    | none =>
      cases update with
      | none => exact .bind (like_pure _) (hround hrest)
      | some e => exact .bind (like_pure _) (hround (.bind (htask e) fun _ => hrest))
    | some e =>
      cases update with
      | none => exact .bind (htask e) (hround hrest)
      | some e' => exact .bind (htask e) (hround (.bind (htask e') fun _ => hrest))
  | execForOf pos kind name body items =>
    cases items with
    | nil => exact like_pure _
    | cons v rest =>
      have hkind : layer.inner = .script → kind = .varDecl := fun hlayer =>
        absurd hlayer layer.inner_ne_script
      have hround : (Plan.within .block (do declareName pos kind name v; Task.execScoped body)
          : Plan Flow).Like layer f
            (Plan.within .block (do
              declareName (f pos) kind name v
              Task.execScoped (body.mapPos f))) :=
        .within (.bind (.effect (carried_declareName hkind name v)) fun _ =>
          like_inner (.execScoped body) hnone)
      exact .bind hround fun flow =>
        like_round flow (like_blocks (.execForOf pos kind name body rest) hnone rfl)

end

/-! ## The evaluator -/

/-- A plan carries over to one like it if the tasks do. -/
theorem Plan.Like.follow {run : Runner}
    (hrun : ∀ {α : Type} {layer f} (t : Task α), (layer = .call → f = id) → t.StandsIn layer →
      Carried layer (run t) (run (t.mapPos f)))
    {layer : Layer} {f : Position → Position} {α : Type} {p q : Plan α} (h : p.Like layer f q)
    (hf : layer = .call → f = id) : Carried layer (p.follow run) (q.follow run) := by
  induction h with
  | effect hx => exact hx
  | task ht => exact hrun _ hf ht
  | bind _ _ ihp ihf => exact (ihp hf).bind fun a => ihf a hf
  | @within layer _ scope _ _ _ _ ih =>
    exact (ih fun hlayer => hf (Layer.inner_eq_call hlayer)).within scope
  | inCall hscopes _ ih => exact (ih fun _ => rfl).inCall _ hscopes

/-- **What finishes in one place finishes in another**, with the same result and the same
    variables. -/
theorem Task.run_elsewhere (maxDepth steps : Nat) {layer : Layer} {f : Position → Position}
    (hf : layer = .call → f = id) {α : Type} (t : Task α) (ht : t.StandsIn layer) :
    Carried layer (t.run maxDepth steps) ((t.mapPos f).run maxDepth steps) := by
  induction steps generalizing α layer f with
  | zero =>
    intro frames m m' a n _ _ hx
    rw [Task.run_zero] at hx
    cases hx
  | succ steps ih =>
    rw [Task.run_succ, Task.run_succ]
    exact (t.plan_like maxDepth hf ht).follow (fun t hf ht => ih hf t ht) hf

end Stencil.Script
