/-
  Constants.

  A name bound by `const` lives in a scope, or in the environment with a note that it is constant.
  Assignments, updates and declarations by `let` and `const` look at where it lives first, so they
  leave its value alone, and what is left are changes from inside (`Value.Inside`).  A declaration
  by `var` does not look: where `var` declares, it takes the place of a constant of that name.
-/
import Stencil.Proofs.Script.Run.Scopes
import Stencil.Script.Run

namespace Stencil.Script

open Effect

namespace Machine

/-! ## Where names are bound -/

/-- How a name is bound in the scope at a place, counted from the innermost one, or in the
    environment, for what `let` and `const` bound there. -/
def binding? (m : Machine) (place : Option Nat) (name : String) : Option Binding :=
  match place with
  | some i => m.scopes[i]?.bind fun s => s.get? name
  | none =>
    match Dict.get? m.lexical name, Dict.get? m.env name with
    | some constant, some v => some ⟨v, constant⟩
    | _, _ => none

/-- Where the name is looked up: in the innermost scope that binds it, or in the environment. -/
def place? (m : Machine) (name : String) : Option Nat :=
  m.scopes.findIdx? fun s => (s.get? name).isSome

/-- Where `let` and `const` bind a name. -/
def innermost (m : Machine) : Option Nat := if m.scopes.isEmpty then none else some 0

/-- `var` may declare in the scope or in the environment. -/
def TakesVars (m : Machine) : Option Nat → Prop
  | some i => m.FrameAt i
  | none => m.inFunction = false

variable {m m' : Machine} {name x : String} {place : Option Nat} {v w : Value}

theorem binding?_none {b : Binding} : m.binding? none x = some b ↔
    Dict.get? m.lexical x = some b.constant ∧ Dict.get? m.env x = some b.value := by
  rw [binding?]
  constructor
  · intro h
    split at h <;> cases h
    exact ⟨‹_›, ‹_›⟩
  · rintro ⟨hlexical, hvalue⟩
    rw [hlexical, hvalue]

theorem binding?_bindAt {i : Nat} {s : Scope} (hs : m.scopes[i]? = some s) (b : Binding) :
    binding? { m with scopes := bindAt m.scopes i name b } place x =
      if place = some i ∧ x = name then some b else m.binding? place x := by
  cases place with
  | none => rw [if_neg fun h => by cases h.1]; rfl
  | some j =>
    rw [binding?, binding?]
    dsimp only
    rw [getElem?_bindAt]
    by_cases hij : i = j
    · subst hij
      rw [if_pos rfl, hs, Option.map_some, Option.bind_some, Option.bind_some, Scope.get?_bind]
      simp
    · rw [if_neg hij, if_neg fun h => hij (Option.some.inj h.1).symm]

theorem binding?_setEnv (h : place = none → x ≠ name) :
    (m.setEnv name w).binding? place x = m.binding? place x := by
  cases place with
  | some i => rfl
  | none =>
    unfold binding? setEnv
    rw [Dict.get?_insert, if_neg (h rfl)]

/-! ## Constants are kept -/

/-- The name is bound as a constant there, to a value that came from `v` from inside. -/
def KeepsConstant (m : Machine) (place : Option Nat) (x : String) (v : Value) : Prop :=
  ∃ v', m.binding? place x = some ⟨v', true⟩ ∧ v.Inside v'

theorem assign_keepsConstant (hconst : m.binding? place x = some ⟨v, true⟩)
    (h : m.assign name w = .ok m') : m'.KeepsConstant place x v := by
  rcases assign_cases h with ⟨i, s, b, hs, hget, hvariable, rfl⟩ | ⟨hlexical, rfl⟩
  · refine ⟨v, ?_, .refl⟩
    rw [binding?_bindAt hs, if_neg, hconst]
    rintro ⟨rfl, rfl⟩
    rw [binding?, hs, Option.bind_some, hget] at hconst
    cases hconst
    cases hvariable
  · refine ⟨v, ?_, .refl⟩
    rw [binding?_setEnv, hconst]
    rintro rfl rfl
    exact hlexical (binding?_none.mp hconst).1

theorem setVariable_keepsConstant (hconst : m.binding? place x = some ⟨v, true⟩)
    (hold : m.changeable? name = some w) {w' : Value} (hinside : w.Inside w') :
    (m.setVariable name w').KeepsConstant place x v := by
  rcases setVariable_cases hold w' with ⟨i, s, b, hs, hget, rfl, heq⟩ | ⟨henv, heq⟩
  · rw [heq, KeepsConstant, binding?_bindAt hs]
    split
    · rename_i hsame
      obtain ⟨rfl, rfl⟩ := hsame
      rw [binding?, hs, Option.bind_some, hget] at hconst
      cases hconst
      exact ⟨w', rfl, hinside⟩
    · exact ⟨v, hconst, .refl⟩
  · rw [heq]
    by_cases hsame : place = none ∧ x = name
    · obtain ⟨rfl, rfl⟩ := hsame
      obtain ⟨hlexical, hvalue⟩ := binding?_none.mp hconst
      rw [henv] at hvalue
      cases hvalue
      refine ⟨w', binding?_none.mpr ⟨hlexical, ?_⟩, hinside⟩
      rw [setEnv, Dict.get?_insert, if_pos rfl]
    · refine ⟨v, ?_, .refl⟩
      rw [binding?_setEnv fun hplace hname => hsame ⟨hplace, hname⟩, hconst]

theorem declare_keepsConstant (hconst : m.binding? place x = some ⟨v, true⟩) {kind : DeclKind}
    (h : m.declare kind name w = .ok m')
    (hvar : kind = .varDecl → name = x → ¬ m.TakesVars place) : m'.KeepsConstant place x v := by
  refine ⟨v, ?_, .refl⟩
  rcases declare_cases h with ⟨hkind, ⟨i, s, hs, hframe, rfl⟩ | ⟨houtside, rfl⟩⟩ |
    ⟨-, ⟨s, hs, hnew, rfl⟩ | ⟨-, hnew, rfl⟩⟩
  · rw [binding?_bindAt hs, if_neg, hconst]
    rintro ⟨rfl, rfl⟩
    exact hvar hkind rfl ⟨s, hs, hframe⟩
  · rw [binding?_setEnv, hconst]
    rintro rfl rfl
    exact hvar hkind rfl houtside
  · rw [binding?_bindAt hs, if_neg, hconst]
    rintro ⟨rfl, rfl⟩
    rw [binding?, hs, Option.bind_some, hnew] at hconst
    cases hconst
  · cases place with
    | some i => exact hconst
    | none =>
      obtain ⟨hlexical, hvalue⟩ := binding?_none.mp hconst
      have hname : x ≠ name := by
        rintro rfl
        rw [Dict.contains, hlexical] at hnew
        cases hnew
      refine binding?_none.mpr ⟨?_, ?_⟩
      · rw [Dict.get?_insert, if_neg hname, hlexical]
      · rw [setEnv, Dict.get?_insert, if_neg hname, hvalue]

/-- Inside a block, all places lie one scope further out. -/
theorem binding?_enter (body : List Stmt) :
    ((m.enter .block).hoist body).binding? (place.map (· + 1)) x = m.binding? place x := by
  rw [hoist_of_cons (m := m.enter .block) body rfl]
  cases place <;> rfl

theorem binding?_leave : m.leave.binding? place x = m.binding? (place.map (· + 1)) x := by
  cases place with
  | none => rfl
  | some i =>
    rw [binding?, leave, List.getElem?_tail]
    rfl

theorem takesVars_enter (body : List Stmt) :
    ((m.enter .block).hoist body).TakesVars (place.map (· + 1)) ↔ m.TakesVars place := by
  rw [hoist_of_cons (m := m.enter .block) body rfl]
  cases place with
  | some i => exact Iff.rfl
  | none =>
    simp only [TakesVars, Option.map_none, inFunction, List.any_cons]
    rw [Scope.isFrame_withFunctions]
    rfl

theorem Grows.takesVars {D V : String → Prop} (h : m.Grows D V m') :
    m'.TakesVars place ↔ m.TakesVars place := by
  cases place with
  | some i => rw [TakesVars, TakesVars, frameAt_iff, frameAt_iff, h.frames]
  | none => rw [TakesVars, TakesVars, h.inFunction]

/-- **Constants are kept by all code** but `var` of that name where it declares, and the output
    function for a constant that is the output. -/
theorem keepsConstant_of_moves {F : Function → Prop} {U : NameUse × String → Prop}
    {D : String → Prop} (h : Moves F U D m m') (hconst : m.binding? place x = some ⟨v, true⟩)
    (hvar : U (.declare .varDecl, x) → ¬ m.TakesVars place)
    (houtput : place = none → x ≠ outputName) : m'.KeepsConstant place x v := by
  induction h generalizing place v with
  | stay => exact ⟨v, hconst, .refl⟩
  | andThen h _ ih ih' =>
    obtain ⟨v', hconst', hinside⟩ := ih hconst hvar houtput
    have hgrows := grows_of_moves h
    obtain ⟨v'', hconst'', hinside'⟩ :=
      ih' hconst' (fun huse hvars => hvar huse (hgrows.takesVars.mp hvars)) houtput
    exact ⟨v'', hconst'', hinside.trans hinside'⟩
  | write _ hwrite =>
    rcases Slot.write_cases hwrite with hassign | ⟨w, w', hold, hinside, rfl⟩
    · exact assign_keepsConstant hconst hassign
    · exact setVariable_keepsConstant hconst hold hinside
  | mutate _ hheld hitems hmodify =>
    obtain ⟨w, w', hold, hinside, rfl⟩ := Slot.mutate_cases hheld hitems hmodify
    exact setVariable_keepsConstant hconst hold hinside
  | output => exact ⟨v, by rw [binding?_setEnv houtput, hconst], .refl⟩
  | declare huse _ hdeclare =>
    exact declare_keepsConstant hconst hdeclare fun hkind hname => hvar (hkind ▸ hname ▸ huse)
  | @block _ _ _ _ body _ _ ih =>
    obtain ⟨v', hconst', hinside⟩ := ih ((binding?_enter body).trans hconst)
      (fun huse hvars => hvar huse ((takesVars_enter body).mp hvars))
      fun hplace => houtput (Option.map_eq_none_iff.mp hplace)
    exact ⟨v', by rw [binding?_leave, hconst'], hinside⟩
  | @call _ _ m _ run f args _ _ _ ih =>
    cases place with
    | some i => exact ⟨v, hconst, .refl⟩
    | none =>
      -- in the call there is a frame, so `var` does not reach the environment
      have hstart := hoist_of_cons (m := m.beginCall run (Scope.ofCall run f args)) f.body rfl
      have hcalled : ((m.beginCall run (Scope.ofCall run f args)).hoist f.body).binding? none x
          = some ⟨v, true⟩ := by
        rw [hstart]
        exact hconst
      refine ih hcalled (fun _ hvars => ?_) houtput
      rw [hstart, TakesVars, inFunction, List.any_cons, Scope.isFrame_withFunctions] at hvars
      cases hvars

/-! ## Attempts to replace a constant -/

theorem findBinding?_eq (scopes : List Scope) (x : String) :
    findBinding? scopes x = (scopes.findIdx? fun s => (s.get? x).isSome).bind fun i =>
      scopes[i]?.bind fun s => s.get? x := by
  unfold findBinding?
  induction scopes with
  | nil => rfl
  | cons s outer ih =>
    rw [List.findSome?_cons, List.findIdx?_cons]
    cases hs : s.get? x with
    | some b => exact hs.symm
    | none =>
      rw [Option.isSome_none, if_neg Bool.false_ne_true, Option.bind_map]
      exact ih

theorem findBinding?_of_constant (hconst : m.binding? (m.place? x) x = some ⟨v, true⟩) :
    (findBinding? m.scopes x = some ⟨v, true⟩) ∨
    (findBinding? m.scopes x = none ∧ Dict.get? m.lexical x = some true ∧
      Dict.get? m.env x = some v) := by
  rw [findBinding?_eq, ← place?]
  cases hplace : m.place? x with
  | some i =>
    rw [hplace] at hconst
    exact Or.inl hconst
  | none =>
    rw [hplace] at hconst
    exact Or.inr ⟨rfl, binding?_none.mp hconst⟩

/-- Where a constant is seen, it cannot be assigned. -/
theorem assign_constant (hconst : m.binding? (m.place? x) x = some ⟨v, true⟩) (w : Value) :
    m.assign x w = .error (.constantAssignment x) := by
  unfold assign
  rcases findBinding?_of_constant hconst with hfind | ⟨hfind, hlexical, -⟩
  · rw [hfind]
    rfl
  · rw [hfind, hlexical]
    rfl

theorem lookup?_constant (hconst : m.binding? (m.place? x) x = some ⟨v, true⟩) :
    m.lookup? x = some v := by
  unfold lookup?
  rcases findBinding?_of_constant hconst with hfind | ⟨hfind, -, hvalue⟩
  · rw [hfind]
  · rw [hfind, hvalue]

/-- Where a constant is bound, it cannot be declared once more. -/
theorem declare_constant (hconst : m.binding? m.innermost x = some ⟨v, true⟩) {kind : DeclKind}
    (hkind : kind ≠ .varDecl) (w : Value) : m.declare kind x w = .error (.redeclaration x) := by
  cases hscopes : m.scopes with
  | nil =>
    rw [innermost, hscopes] at hconst
    have hlexical := (binding?_none.mp hconst).1
    cases kind with
    | varDecl => exact absurd rfl hkind
    | letDecl | constDecl =>
      simp only [declare, hscopes, Dict.contains, hlexical]
      rfl
  | cons s outer =>
    rw [innermost, hscopes, List.isEmpty_cons, if_neg Bool.false_ne_true, binding?,
      hscopes] at hconst
    have hbound : s.get? x = some ⟨v, true⟩ := hconst
    cases kind with
    | varDecl => exact absurd rfl hkind
    | letDecl | constDecl =>
      simp only [declare, hscopes, hbound]
      rfl

/-- What `const` declares is a constant, where declarations bind. -/
theorem declare_const (h : m.declare .constDecl x v = .ok m') :
    m'.binding? m.innermost x = some ⟨v, true⟩ := by
  rcases declare_cases h with ⟨hkind, -⟩ | ⟨-, ⟨s, hs, -, rfl⟩ | ⟨hscopes, -, rfl⟩⟩
  · cases hkind
  · have hinnermost : m.innermost = some 0 := by
      rw [innermost, if_neg]
      intro hempty
      rw [List.isEmpty_iff.mp hempty] at hs
      cases hs
    rw [binding?_bindAt hs, if_pos ⟨hinnermost, rfl⟩]
    rfl
  · rw [innermost, hscopes]
    refine binding?_none.mpr ⟨?_, ?_⟩
    · rw [Dict.get?_insert, if_pos rfl]
      rfl
    · rw [setEnv, Dict.get?_insert, if_pos rfl]

/-- Where names are looked up stays the same as long as none are declared. -/
theorem Grows.place? (h : m.Grows (fun _ => False) (fun _ => False) m') (x : String) :
    m'.place? x = m.place? x := by
  have hbinds : ∀ i, m'.Binds i x ↔ m.Binds i x := fun i =>
    ⟨fun hb => (h.gained i x hb).elim id fun hnew => (hnew.elim And.right And.right).elim,
      h.kept i x⟩
  have hsame : (m'.scopes.map fun s => (s.get? x).isSome)
      = m.scopes.map fun s => (s.get? x).isSome := by
    refine List.ext_getElem (by rw [List.length_map, List.length_map, h.length]) fun i hi hi' => ?_
    have := hbinds i
    rw [List.length_map] at hi hi'
    rw [Binds, Binds, List.getElem?_eq_getElem hi, List.getElem?_eq_getElem hi'] at this
    rw [List.getElem_map, List.getElem_map, Bool.eq_iff_iff]
    simpa using this
  have hplace : ∀ m : Machine, m.place? x
      = (m.scopes.map fun s => (s.get? x).isSome).findIdx? id := fun m => by
    rw [List.findIdx?_map]
    rfl
  rw [hplace, hplace, hsame]

/-! ## In the evaluator -/

variable {maxDepth steps : Nat} {pos : Position}

theorem eval_keepsConstant (hconst : m.binding? place x = some ⟨v, true⟩)
    (houtput : place = none → x ≠ outputName) {e : Expr}
    (h : (eval maxDepth steps e m).state? = some m') : m'.KeepsConstant place x v :=
  keepsConstant_of_moves (moves_of_eval h) hconst (fun huse => absurd huse e.not_mem_uses) houtput

/-- A constant that is seen before an expression is evaluated is seen afterwards. -/
theorem eval_seesConstant (hconst : m.binding? (m.place? x) x = some ⟨v, true⟩)
    (houtput : m.place? x = none → x ≠ outputName) {e : Expr}
    (h : (eval maxDepth steps e m).state? = some m') :
    ∃ v', m'.binding? (m'.place? x) x = some ⟨v', true⟩ := by
  obtain ⟨v', hconst', -⟩ := eval_keepsConstant hconst houtput h
  have hgrows : m.Grows (fun _ => False) (fun _ => False) m' :=
    (grows_of_moves (moves_of_eval h)).mono (fun _ => id) fun _ huse => e.not_mem_uses huse
  exact ⟨v', by rw [hgrows.place?, hconst']⟩

theorem writeSlot_constant (hconst : m.binding? (m.place? x) x = some ⟨v, true⟩) (w : Value) :
    writeSlot pos ⟨x, []⟩ w m = .failed ⟨.constantAssignment x, pos⟩ m := by
  have hwrite : Slot.write ⟨x, []⟩ w m = .error (.constantAssignment x) := assign_constant hconst w
  rw [writeSlot, hwrite]

theorem readSlot_constant (hconst : m.binding? (m.place? x) x = some ⟨v, true⟩) :
    readSlot pos ⟨x, []⟩ m = .done v m := by
  have hread : Slot.read ⟨x, []⟩ m = .ok v := by
    rw [Slot.read, lookup?_constant hconst]
    rfl
  rw [readSlot, get_bind, hread]
  rfl

theorem eval_assign_constant (hconst : m.binding? (m.place? x) x = some ⟨v, true⟩)
    (houtput : m.place? x = none → x ≠ outputName) {op : Option BinaryOp} {p : Position} {e : Expr}
    (he : eval maxDepth steps e m = .done w m') :
    eval maxDepth (steps + 1) (.assign pos op (.name p x) e) m
      = .failed ⟨.constantAssignment x, pos⟩ m' := by
  obtain ⟨v', hconst'⟩ := eval_seesConstant hconst houtput (by rw [he]; rfl)
  cases steps with
  | zero => cases he
  | succ steps =>
    have hresolve : resolve maxDepth (steps + 1) (.name p x) m = .done ⟨x, []⟩ m := rfl
    cases op with
    | none =>
      rw [eval, bind_of_done hresolve, bind_of_done he,
        bind_of_failed (writeSlot_constant hconst' w)]
    | some op =>
      rw [eval_assignWith_succ, bind_of_done hresolve, bind_of_done (readSlot_constant hconst),
        bind_of_done he, bind_of_failed (writeSlot_constant hconst' _)]

theorem eval_update_constant (hconst : m.binding? (m.place? x) x = some ⟨v, true⟩) {op : UpdateOp}
    {before : Bool} {p : Position} :
    eval maxDepth (steps + 2) (.update pos op before (.name p x)) m
      = .failed ⟨.constantAssignment x, pos⟩ m := by
  have hresolve : resolve maxDepth (steps + 1) (.name p x) m = .done ⟨x, []⟩ m := rfl
  rw [eval_update_succ, bind_of_done hresolve, bind_of_done (readSlot_constant hconst),
    bind_of_failed (writeSlot_constant hconst _)]

theorem declareName_constant (hconst : m.binding? m.innermost x = some ⟨v, true⟩) {kind : DeclKind}
    (hkind : kind ≠ .varDecl) (w : Value) :
    declareName pos kind x w m = .failed ⟨.redeclaration x, pos⟩ m := by
  rw [declareName, declare_constant hconst hkind]

/-- **Constants keep their values**, but for declarations by `var`.  Take any state in which a name
    is bound as a constant somewhere, as `const` binds it (`declare_const`).  Whatever statements or
    expressions run from there, calls included, and however they end, the name is bound there as a
    constant afterwards, and its value has been changed from inside at most; that is, unless the
    statements themselves declare the name by `var` and the constant lies where `var` declares, or
    the constant is the variable that is output to.  To assign or update the constant where it is
    seen is an error, and so is to declare it once more by `let` or `const` where it is bound. -/
theorem constant_kept (hconst : m.binding? place x = some ⟨v, true⟩)
    (houtput : place = none → x ≠ outputName) :
    (∀ maxDepth steps s m', (x ∈ s.vars → ¬ m.TakesVars place) →
      (exec maxDepth steps s m).state? = some m' →
      ∃ v', m'.binding? place x = some ⟨v', true⟩ ∧ v.Inside v') ∧
    (∀ maxDepth steps body m', ((∃ s ∈ body, x ∈ s.vars) → ¬ m.TakesVars place) →
      (execAll maxDepth steps body m).state? = some m' →
      ∃ v', m'.binding? place x = some ⟨v', true⟩ ∧ v.Inside v') ∧
    (∀ maxDepth steps e m', (eval maxDepth steps e m).state? = some m' →
      ∃ v', m'.binding? place x = some ⟨v', true⟩ ∧ v.Inside v') ∧
    (place = m.place? x → ∀ maxDepth steps pos p,
      (∀ op e w m', eval maxDepth steps e m = .done w m' →
        eval maxDepth (steps + 1) (.assign pos op (.name p x) e) m
          = .failed ⟨.constantAssignment x, pos⟩ m') ∧
      ∀ op before, eval maxDepth (steps + 2) (.update pos op before (.name p x)) m
        = .failed ⟨.constantAssignment x, pos⟩ m) ∧
    (place = m.innermost → ∀ pos kind w, kind ≠ .varDecl →
      declareName pos kind x w m = .failed ⟨.redeclaration x, pos⟩ m) := by
  refine ⟨fun maxDepth steps s m' hvar hexec => ?_, fun maxDepth steps body m' hvar hexec => ?_,
    fun maxDepth steps e m' heval => ?_, ?_, ?_⟩
  · exact keepsConstant_of_moves (moves_of_exec hexec) hconst
      (fun huse => hvar (Stmt.mem_vars.mpr huse)) houtput
  · exact keepsConstant_of_moves (moves_of_execAll hexec) hconst
      (fun huse => hvar (Stmt.mem_varsList.mpr huse)) houtput
  · exact eval_keepsConstant hconst houtput heval
  · rintro rfl maxDepth steps pos p
    exact ⟨fun op e w m' he => eval_assign_constant hconst houtput he, fun op before =>
      eval_update_constant hconst⟩
  · rintro rfl pos kind w hkind
    exact declareName_constant hconst hkind w

/-- In a function, a constant of the environment is out of reach of `var`. -/
theorem constant_kept_call :
    let declared : Machine := ⟨[("x", .text "a")], [("x", true)], [], 0, 1⟩
    let f : Function := ⟨⟨0, 0⟩, "f", [], []⟩
    let m := (declared.beginCall 1 (Scope.ofCall 1 f [])).hoist []
    let s : Stmt := .declare .varDecl [⟨"x", ⟨1, 4⟩, some (.text ⟨1, 8⟩ "b")⟩]
    (Machine.start 1 []).declare .constDecl "x" (.text "a") = .ok declared ∧
    m.binding? none "x" = some ⟨.text "a", true⟩ ∧ "x" ∈ s.vars ∧ ¬ m.TakesVars none ∧
    (∃ m', (exec 64 5 s m).state? = some m' ∧
      ∃ v, m'.binding? none "x" = some ⟨v, true⟩ ∧ (Value.text "a").Inside v) ∧
    eval 64 5 (.assign ⟨1, 0⟩ none (.name ⟨1, 0⟩ "x") (.text ⟨1, 4⟩ "b")) declared
      = .failed ⟨.constantAssignment "x", ⟨1, 0⟩⟩ declared := by
  intro declared f m s
  have hdeclare : (Machine.start 1 []).declare .constDecl "x" (.text "a") = .ok declared := rfl
  have hconst : m.binding? none "x" = some ⟨.text "a", true⟩ := declare_const hdeclare
  have htakes : ¬ m.TakesVars none := Bool.false_ne_true.symm
  refine ⟨hdeclare, hconst, by decide, htakes, ⟨_, rfl, ?_⟩, ?_⟩
  · exact (constant_kept hconst fun _ => by decide).1 64 5 s _ (fun _ => htakes) rfl
  · have hattempts := (constant_kept (declare_const hdeclare) fun _ => by decide).2.2.2.1 rfl
    exact (hattempts 64 4 _ _).1 none _ _ _ rfl

/-- Where `var` declares, it takes the place of a constant, without any error. -/
theorem constant_replaced_by_var :
    let script := "const x = \"a\"; var x = \"b\";"
    let first : Stmt := .declare .constDecl [⟨"x", ⟨0, 6⟩, some (.text ⟨0, 10⟩ "a")⟩]
    let second : Stmt := .declare .varDecl [⟨"x", ⟨0, 19⟩, some (.text ⟨0, 23⟩ "b")⟩]
    parse script = .ok [first, second] ∧
    ∃ m m', exec 64 98 first (.start 1 []) = .done .next m ∧
      m.binding? none "x" = some ⟨.text "a", true⟩ ∧ exec 64 97 second m = .done .next m' ∧
      m'.binding? none "x" = some ⟨.text "b", true⟩ ∧ ¬ (Value.text "a").Inside (.text "b") ∧
      execute ⟨64, 100⟩ script [] = .done () [("x", .text "b")] := by
  intro script first second
  have hlexemes : lexemes script = .ok
      [⟨.keyword .kwConst, ⟨0, 0⟩, false⟩, ⟨.name "x", ⟨0, 6⟩, false⟩,
       ⟨.symbol .assign, ⟨0, 8⟩, false⟩, ⟨.text "a", ⟨0, 10⟩, false⟩,
       ⟨.symbol .semicolon, ⟨0, 13⟩, false⟩, ⟨.keyword .kwVar, ⟨0, 15⟩, false⟩,
       ⟨.name "x", ⟨0, 19⟩, false⟩, ⟨.symbol .assign, ⟨0, 21⟩, false⟩,
       ⟨.text "b", ⟨0, 23⟩, false⟩, ⟨.symbol .semicolon, ⟨0, 26⟩, false⟩] := by decide +kernel
  have hparse : parse script = .ok [first, second] := by
    rw [parse, hlexemes]
    rfl
  have hinside : ¬ (Value.text "a").Inside (.text "b") := fun h =>
    absurd (Value.text.inj (h.of_text rfl)) (by decide)
  refine ⟨hparse, _, _, rfl, rfl, rfl, rfl, hinside, ?_⟩
  rw [execute, hparse]
  rfl

end Machine

end Stencil.Script
