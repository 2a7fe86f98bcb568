/-
  Names that are not defined.

  A name is looked for in two ways: to read it, in the scopes, in the environment and among the
  names of the language; to change its value from inside, only in the scopes and in the
  environment.  A fault says that a name is not defined just where one of the two finds nothing
  (`Asks`).  So whenever a run fails with such a fault, no scope in force binds the name and the
  environment does not have it; but if the name was to be changed from inside, it may still be one
  of the names of the language, and reading it would have given its value.
-/
import Stencil.Proofs.Script.Grammar.Faults
import Stencil.Proofs.Script.Run.Elements
import Stencil.Proofs.Script.Run.Moments
import Stencil.Proofs.Script.Run.Moves

namespace Stencil.Script

open Effect

/-! ## Operations that look for names -/

variable {name : String} {m m' : Machine}

/-- No operation on values says that a name is not defined. -/
theorem Yields.ne_undefined {α : Type} {r : Except Fault α} {Q : α → Prop} (h : Yields r Q) :
    r ≠ .error (.undefinedVariable name) := by
  rintro rfl
  cases h

theorem Machine.lookup?_eq_none : m.lookup? name = none ↔
    m.changeable? name = none ∧ global? name = none := by
  rw [lookup?, changeable?]
  cases findBinding? m.scopes name with
  | some b => simp
  | none => cases Dict.get? m.env name <;> simp

theorem Machine.changeable?_eq_none : m.changeable? name = none ↔
    findBinding? m.scopes name = none ∧ Dict.get? m.env name = none := by
  rw [changeable?]
  cases findBinding? m.scopes name <;> simp

theorem Machine.assign_ne_undefined (other : String) (v : Value) :
    m.assign other v ≠ .error (.undefinedVariable name) := by
  unfold assign
  split <;> split <;> simp

theorem Machine.declare_ne_undefined (kind : DeclKind) (other : String) (v : Value) :
    m.declare kind other v ≠ .error (.undefinedVariable name) := by
  cases kind with
  | varDecl =>
    simp only [declare]
    split <;> simp
  | letDecl | constDecl =>
    simp only [declare]
    split <;> split <;> simp

namespace Slot

variable {s : Slot}

theorem read_undefined (h : s.read m = .error (.undefinedVariable name)) :
    m.lookup? name = none := by
  unfold read at h
  split at h
  · cases h
    assumption
  · exact absurd h (Value.readPath_yields (H := Value.Holds fun _ => True) _ fun _ _ => trivial).ne_undefined

theorem modify_undefined {α : Type} {change : Value → Except Fault (Value × α)}
    (hchange : ∀ v, Yields (change v) fun _ => True)
    (h : s.modify change m = .error (.undefinedVariable name)) :
    s.root = name ∧ m.changeable? name = none := by
  unfold modify at h
  split at h
  · cases h
    exact ⟨rfl, ‹_›⟩
  · rename_i v _
    have hmodify : Yields (v.modifyAt change s.path) fun out =>
        out.1.Holds (fun _ => True) ∧ True :=
      Value.modifyAt_yields (R := fun _ => True) (fun w _ => (hchange w).mono fun _ _ =>
        ⟨fun _ _ => trivial, trivial⟩) s.path fun _ _ => trivial
    split at h
    · rename_i heq
      cases h
      exact absurd heq hmodify.ne_undefined
    · cases h

end Slot

/-! ## Effects that look for names -/

/-- The effect looks for the variable in order to change it from inside: it gets at what a slot of
    it holds, it stores something behind a key, or it changes an array in place. -/
inductive ChangesInside (name : String) : {α : Type} → Effect α → Prop where
  | held (pos : Position) {s : Slot} (hroot : s.root = name) : ChangesInside name (heldSlot pos s)
  | written (pos : Position) {s : Slot} (v : Value) (hroot : s.root = name) (hpath : s.path ≠ []) :
      ChangesInside name (writeSlot pos s v)
  | array (pos : Position) {s : Slot} (pop : Bool) (items args : List Value)
      (hroot : s.root = name) : ChangesInside name (changeArray pos s pop items args)

/-- The effect says that a name is not defined only where it finds no variable of that name; and no
    name of the language either, unless it looked for a variable to change from inside. -/
def Asks {α : Type} (x : Effect α) : Prop :=
  ∀ m m' name pos, x m = .failed ⟨.undefinedVariable name, pos⟩ m' →
    m' = m ∧ m.changeable? name = none ∧ (global? name = none ∨ ChangesInside name x)

section

variable {α : Type} {pos : Position}

theorem asks_of_done {x : Effect α} (h : ∀ m, ∃ a m', x m = .done a m') : Asks x := by
  intro m m' name pos hx
  obtain ⟨a, n, hdone⟩ := h m
  cases hdone.symm.trans hx

theorem asks_lift {r : Except Fault α} (h : ∀ name, r ≠ .error (.undefinedVariable name)) :
    Asks (lift pos r) := by
  intro m m' name pos' hx
  cases r with
  | ok a => cases hx
  | error fault =>
    cases hx
    exact absurd rfl (h name)

theorem asks_nameValue (name : String) : Asks (nameValue pos name) := by
  intro m m' other pos' hx
  rw [nameValue_apply] at hx
  split at hx <;> cases hx
  obtain ⟨hchange, hglobal⟩ := Machine.lookup?_eq_none.mp ‹_›
  exact ⟨rfl, hchange, Or.inl hglobal⟩

theorem asks_readSlot (s : Slot) : Asks (readSlot pos s) := by
  intro m m' name pos' hx
  rw [readSlot, get_bind] at hx
  cases hread : s.read m with
  | ok v =>
    rw [hread] at hx
    cases hx
  | error fault =>
    rw [hread] at hx
    cases hx
    obtain ⟨hchange, hglobal⟩ := Machine.lookup?_eq_none.mp (Slot.read_undefined hread)
    exact ⟨rfl, hchange, Or.inl hglobal⟩

theorem asks_heldSlot (s : Slot) : Asks (heldSlot pos s) := by
  intro m m' name pos' hx
  rw [heldSlot, get_bind, Slot.held] at hx
  cases hmodify : s.modify (fun v => .ok (v, v)) m with
  | ok out =>
    rw [hmodify] at hx
    cases hx
  | error fault =>
    rw [hmodify] at hx
    cases hx
    obtain ⟨hroot, hchange⟩ :=
      Slot.modify_undefined (fun v => show Yields (.ok (v, v)) _ from trivial) hmodify
    exact ⟨rfl, hchange, Or.inr (.held pos hroot)⟩

theorem asks_writeSlot (s : Slot) (v : Value) : Asks (writeSlot pos s v) := by
  intro m m' name pos' hx
  unfold writeSlot at hx
  cases hwrite : s.write v m with
  | ok n =>
    rw [hwrite] at hx
    cases hx
  | error fault =>
    rw [hwrite] at hx
    cases hx
    unfold Slot.write at hwrite
    dsimp only at hwrite
    split at hwrite
    · exact absurd hwrite (Machine.assign_ne_undefined _ v)
    · rename_i key hkey
      have hpath : s.path ≠ [] := by
        intro hnil
        rw [hnil] at hkey
        cases hkey
      cases hmodify : Slot.modify ⟨s.root, s.path.dropLast⟩
          (fun w => (w.setIndex key v).map fun w' => (w', ())) m with
      | ok out =>
        rw [hmodify] at hwrite
        cases hwrite
      | error fault =>
        rw [hmodify] at hwrite
        cases hwrite
        obtain ⟨hroot, hchange⟩ := Slot.modify_undefined (fun w =>
          (Value.setIndex_yields (H := Value.Holds fun _ => True) (fun _ _ => trivial) key
            (fun _ _ => trivial)).map fun _ _ => trivial) hmodify
        exact ⟨rfl, hchange, Or.inr (.written pos v hroot hpath)⟩

theorem asks_changeArray (s : Slot) (pop : Bool) (items args : List Value) :
    Asks (changeArray pos s pop items args) := by
  intro m m' name pos' hx
  unfold changeArray at hx
  dsimp only at hx
  split at hx
  · cases hx
  · cases hx
    obtain ⟨hroot, hchange⟩ :=
      Slot.modify_undefined (fun _ => show Yields (.ok _) _ from trivial) ‹_›
    exact ⟨rfl, hchange, Or.inr (.array pos pop items args hroot)⟩

theorem asks_appendOutput (args : List Value) : Asks (appendOutput pos args) := by
  intro m m' name pos' hx
  rw [appendOutput_apply] at hx
  split at hx <;> cases hx

theorem asks_declareName (kind : DeclKind) (name : String) (v : Value) :
    Asks (declareName pos kind name v) := by
  intro m m' other pos' hx
  unfold declareName at hx
  split at hx
  · cases hx
  · cases hx
    exact absurd ‹_› (Machine.declare_ne_undefined kind name v)

theorem asks_checkDepth (maxDepth : Nat) : Asks (checkDepth maxDepth pos) := by
  intro m m' name pos' hx
  rw [checkDepth_apply] at hx
  split at hx <;> cases hx

theorem Elementary.asks {declares : Bool} {N : String → Prop} {x : Effect α}
    (h : Elementary declares N x) : Asks x := by
  cases h with
  | pure a => exact asks_of_done fun m => ⟨a, m, rfl⟩
  | fail pos hfault => exact asks_lift (r := .error _) fun _ heq => by cases heq; cases hfault
  | lift pos hyields => exact asks_lift fun _ => hyields.ne_undefined
  | lookupName name => exact asks_of_done fun m => ⟨m.lookup? name, m, rfl⟩
  | nameValue pos name => exact asks_nameValue name
  | readSlot pos s => exact asks_readSlot s
  | heldSlot pos s => exact asks_heldSlot s
  | writeSlot pos s v => exact asks_writeSlot s v
  | changeArray pos s pop items args => exact asks_changeArray s pop items args
  | appendOutput pos args => exact asks_appendOutput args
  | declareName pos kind name v _ _ => exact asks_declareName kind name v
  | hoist body _ _ => exact asks_of_done fun m => ⟨(), m.hoist body, rfl⟩

end

/-! ## Runs -/

section

variable {α β : Type} {maxDepth steps : Nat}

/-- **Everything that a run does** says that a name is not defined only where it finds nothing. -/
theorem Task.Does.asks {t : Task α} {x : Effect β} (h : t.Does maxDepth steps m x m') : Asks x :=
  h.of_all fun t => t.plan_all maxDepth Elementary.asks fun _ => asks_checkDepth maxDepth

/-- **A name is said not to be defined only where no variable has it.**  Take any script that fails
    so, in any environment.  At some moment of the run an effect fails with that fault.  At every
    such moment, no scope in force binds the name, nor does the environment have it, which is the
    one that the run leaves behind.  If the language has no such name, it cannot be read there
    either, with the same fault.  If the language has it, its value was to be changed from inside,
    and for that only variables are looked for; it could have been read. -/
theorem execute_undefinedVariable {limits : Limits} {script : String} {env env' : Environment}
    {pos : Position}
    (h : execute limits script env = .failed ⟨.undefinedVariable name, pos⟩ env') :
    ∃ body, parse script = .ok body ∧
      let start := (Machine.start env.freshRun env).hoist body
      (∃ (α : Type) (x : Effect α) (m : Machine),
        Task.Does limits.maxDepth limits.steps (.execAll body) start x m ∧
        x m = .failed ⟨.undefinedVariable name, pos⟩ m) ∧
      ∀ (α : Type) (x : Effect α) (m m' : Machine),
        Task.Does limits.maxDepth limits.steps (.execAll body) start x m →
        x m = .failed ⟨.undefinedVariable name, pos⟩ m' →
        m.env = env' ∧ findBinding? m.scopes name = none ∧ Dict.get? m.env name = none ∧
        ((global? name = none ∧ ∀ steps p, eval limits.maxDepth (steps + 1) (.name p name) m
            = .failed ⟨.undefinedVariable name, p⟩ m) ∨
          (ChangesInside name x ∧ ∃ v, global? name = some v ∧
            ∀ steps p, eval limits.maxDepth (steps + 1) (.name p name) m = .done v m)) := by
  unfold execute at h
  cases hparse : parse script with
  | error e =>
    rw [hparse] at h
    cases h
    have := (parse_fault hparse).1
    cases this
  | ok body =>
    rw [hparse] at h
    obtain ⟨k, hrun, rfl⟩ := runProgram_eq_failed.mp h
    refine ⟨body, rfl, ?_, fun α x m m' hdoes hx => ?_⟩
    · obtain ⟨α, x, m, m', hdoes, hx, -⟩ := Task.does_of_failed hrun
      obtain ⟨rfl, -⟩ := hdoes.asks m m' name pos hx
      exact ⟨α, x, m', hdoes, hx⟩
    · obtain ⟨rfl, hchange, hglobal⟩ := hdoes.asks m m' name pos hx
      obtain ⟨hscopes, henv⟩ := Machine.changeable?_eq_none.mp hchange
      obtain ⟨k', hrun', henv'⟩ := hdoes.failed hx
      cases hrun.symm.trans hrun'
      have hlookup : m'.lookup? name = global? name := by
        rw [Machine.lookup?, hscopes, henv]
      refine ⟨henv'.symm, hscopes, henv, ?_⟩
      cases hname : global? name with
      | none =>
        refine Or.inl ⟨rfl, fun steps p => ?_⟩
        rw [eval_name_eq, nameValue_apply, hlookup, hname]
      | some v =>
        refine Or.inr ⟨hglobal.resolve_left fun hnone => ?_, v, rfl, fun steps p => ?_⟩
        · rw [hname] at hnone
          cases hnone
        · rw [eval_name_eq, nameValue_apply, hlookup, hname]

/-- A name that nobody knows cannot be read. -/
theorem execute_undefinedVariable_read :
    let body : List Stmt := [.expr (.name ⟨0, 0⟩ "x")]
    execute ⟨64, 100⟩ "x;" [] = .failed ⟨.undefinedVariable "x", ⟨0, 0⟩⟩ [] ∧
    ∃ (α : Type) (x : Effect α) (m : Machine),
      Task.Does 64 100 (.execAll body) ((Machine.start 1 []).hoist body) x m ∧
      findBinding? m.scopes "x" = none ∧ Dict.get? m.env "x" = none ∧ global? "x" = none := by
  intro body
  have hlexemes : lexemes "x;" = .ok
      [⟨.name "x", ⟨0, 0⟩, false⟩, ⟨.symbol .semicolon, ⟨0, 1⟩, false⟩] := by decide +kernel
  have hparse : parse "x;" = .ok body := by
    rw [parse, hlexemes]
    rfl
  have hrun : execute ⟨64, 100⟩ "x;" [] = .failed ⟨.undefinedVariable "x", ⟨0, 0⟩⟩ [] := by
    rw [execute, hparse]
    rfl
  obtain ⟨body', hbody, ⟨α, x, m, hdoes, hx⟩, hall⟩ := execute_undefinedVariable hrun
  cases hparse.symm.trans hbody
  obtain ⟨-, hscopes, henv, -⟩ := hall α x m m hdoes hx
  exact ⟨hrun, α, x, m, hdoes, hscopes, henv, rfl⟩

/-- The names of the language are said not to be defined if something is to be changed in them. -/
theorem execute_undefinedVariable_global :
    let body : List Stmt := [.expr (.call ⟨0, 0⟩
      (.member ⟨0, 0⟩ (.name ⟨0, 0⟩ "Math") "push") [.text ⟨0, 10⟩ "a"])]
    parse "Math.push(\"a\");" = .ok body ∧
    execute ⟨64, 100⟩ "Math.push(\"a\");" [] = .failed ⟨.undefinedVariable "Math", ⟨0, 0⟩⟩ [] ∧
    ∃ (x : Effect Value) (m : Machine) (v : Value),
      Task.Does 64 100 (.execAll body) ((Machine.start 1 []).hoist body) x m ∧
      x m = .failed ⟨.undefinedVariable "Math", ⟨0, 0⟩⟩ m ∧ global? "Math" = some v ∧
      eval 64 1 (.name ⟨0, 0⟩ "Math") m = .done v m := by
  intro body
  have hlexemes : lexemes "Math.push(\"a\");" = .ok
      [⟨.name "Math", ⟨0, 0⟩, false⟩, ⟨.symbol .dot, ⟨0, 4⟩, false⟩,
       ⟨.name "push", ⟨0, 5⟩, false⟩, ⟨.symbol .leftParen, ⟨0, 9⟩, false⟩,
       ⟨.text "a", ⟨0, 10⟩, false⟩, ⟨.symbol .rightParen, ⟨0, 13⟩, false⟩,
       ⟨.symbol .semicolon, ⟨0, 14⟩, false⟩] := by decide +kernel
  have hparse : parse "Math.push(\"a\");" = .ok body := by
    rw [parse, hlexemes]
    rfl
  have hrun : execute ⟨64, 100⟩ "Math.push(\"a\");" []
      = .failed ⟨.undefinedVariable "Math", ⟨0, 0⟩⟩ [] := by
    rw [execute, hparse]
    rfl
  refine ⟨hparse, hrun, heldSlot ⟨0, 0⟩ ⟨"Math", []⟩, .start 1 [], _, ?_, rfl, rfl, rfl⟩
  -- the statement, its expression, and then the place and the arguments of the call
  exact .further (.first (.task _ _)) (.further (.first (.task _ _))
    (.here (.next rfl (.next rfl (.first (.effect _ _))))))

end

end Stencil.Script
