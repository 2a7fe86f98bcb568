/-
  The scopes in force.

  Blocks, loops and calls bring scopes of their own and take them away again, however they end.  So
  the scopes after a piece of code are those before it; a statement adds names to the innermost one
  only, and to the frame of the call that it runs in, where `var` declares (`Machine.Grows`).  The
  frame lies right inside the scope with the name of the function (`Machine.Framed`), in every
  state that a run comes through (`Machine.Reached`).
-/
import Stencil.Proofs.Script.Run.Changes
import Stencil.Proofs.Script.Run.Sound

namespace Stencil.Script

/-! ## States of a run -/

/-- The state that is left behind, however it ended. -/
def Outcome.state? {α : Type} : Outcome α → Option Machine
  | .done _ m => some m
  | .failed _ m => some m
  | .exhausted => none

/-- The states that a run can come through: its start, what expressions, statements and
    declarations leave behind, and the start of each block and each call.  Nothing is asked of the
    code that leads there, so these are the states of all runs. -/
inductive Machine.Reached (maxDepth : Nat) : Machine → Prop where
  | start run env body : Reached maxDepth ((Machine.start run env).hoist body)
  | evaluated {m m'} steps e : Reached maxDepth m →
      (eval maxDepth steps e m).state? = some m' → Reached maxDepth m'
  | executed {m m'} steps s : Reached maxDepth m →
      (exec maxDepth steps s m).state? = some m' → Reached maxDepth m'
  | declared {m m'} kind name v : Reached maxDepth m → m.declare kind name v = .ok m' →
      Reached maxDepth m'
  | inBlock {m} body : Reached maxDepth m → Reached maxDepth ((m.enter .block).hoist body)
  | inCall {m} run f args : Reached maxDepth m → m.depth < maxDepth →
      Reached maxDepth ((m.beginCall run (Scope.ofCall run f args)).hoist f.body)

namespace Machine

/-- The scope at `i`, counted from the innermost one, binds the name. -/
def Binds (m : Machine) (i : Nat) (name : String) : Prop :=
  ∃ s, m.scopes[i]? = some s ∧ (s.get? name).isSome

/-- The scope at `i` is the frame of a call. -/
def FrameAt (m : Machine) (i : Nat) : Prop := ∃ s, m.scopes[i]? = some s ∧ s.isFrame = true

variable {m m' m'' : Machine} {D V : String → Prop}

/-! ## Scopes grow -/

/-- The scopes are the same up to the names bound in them: all names stay bound, and the new ones
    are in `D` and bound in the innermost scope, or in `V` and bound in a frame. -/
structure Grows (D V : String → Prop) (m m' : Machine) : Prop where
  depth : m'.depth = m.depth
  frames : m'.scopes.map Scope.isFrame = m.scopes.map Scope.isFrame
  kept : ∀ i name, m.Binds i name → m'.Binds i name
  gained : ∀ i name, m'.Binds i name →
    m.Binds i name ∨ (i = 0 ∧ D name) ∨ (m.FrameAt i ∧ V name)

theorem frameAt_iff {i : Nat} : m.FrameAt i ↔ (m.scopes.map Scope.isFrame)[i]? = some true := by
  rw [List.getElem?_map, Option.map_eq_some_iff]
  rfl

theorem grows_of_scopes (hscopes : m'.scopes = m.scopes) (hdepth : m'.depth = m.depth) :
    m.Grows D V m' := by
  refine ⟨hdepth, by rw [hscopes], fun i name h => ?_, fun i name h => Or.inl ?_⟩
  · rw [Binds, hscopes]
    exact h
  · rw [Binds, hscopes] at h
    exact h

theorem Grows.trans (h : m.Grows D V m') (h' : m'.Grows D V m'') : m.Grows D V m'' where
  depth := h'.depth.trans h.depth
  frames := h'.frames.trans h.frames
  kept i name hbinds := h'.kept i name (h.kept i name hbinds)
  gained i name hbinds := by
    rcases h'.gained i name hbinds with hbinds | hdirect | ⟨hframe, hvar⟩
    · exact h.gained i name hbinds
    · exact Or.inr (Or.inl hdirect)
    · rw [frameAt_iff, h.frames, ← frameAt_iff] at hframe
      exact Or.inr (Or.inr ⟨hframe, hvar⟩)

theorem Grows.mono {D' V' : String → Prop} (h : m.Grows D V m') (hD : ∀ name, D name → D' name)
    (hV : ∀ name, V name → V' name) : m.Grows D' V' m' :=
  ⟨h.depth, h.frames, h.kept, fun i name hbinds => (h.gained i name hbinds).imp_right
    (Or.imp (And.imp_right (hD name)) (And.imp_right (hV name)))⟩

/-- A name is bound anew where it is bound, or where it may be. -/
theorem grows_bindAt {i : Nat} {name : String} {b : Binding}
    (h : m.Binds i name ∨ (i = 0 ∧ D name) ∨ (m.FrameAt i ∧ V name)) :
    m.Grows D V { m with scopes := bindAt m.scopes i name b } where
  depth := rfl
  frames := map_isFrame_bindAt m.scopes i name b
  kept j other := by
    rintro ⟨s, hs, hsome⟩
    rw [Binds, getElem?_bindAt]
    by_cases hij : i = j
    · refine ⟨s.bind name b, by rw [if_pos hij, hs]; rfl, ?_⟩
      rw [Scope.get?_bind]
      split
      · rfl
      · exact hsome
    · exact ⟨s, by rw [if_neg hij, hs], hsome⟩
  gained j other := by
    rintro ⟨s, hs, hsome⟩
    rw [getElem?_bindAt] at hs
    split at hs
    · rename_i hij
      subst hij
      obtain ⟨t, ht, rfl⟩ := Option.map_eq_some_iff.mp hs
      rw [Scope.get?_bind] at hsome
      split at hsome
      · rename_i hname
        exact hname ▸ h
      · exact Or.inl ⟨t, ht, hsome⟩
    · exact Or.inl ⟨s, hs, hsome⟩

theorem grows_setVariable {name : String} {v v' : Value} (h : m.changeable? name = some v) :
    m.Grows D V (m.setVariable name v') := by
  rcases setVariable_cases h v' with ⟨i, s, b, hs, hget, -, heq⟩ | ⟨-, heq⟩
  · rw [heq]
    exact grows_bindAt (Or.inl ⟨s, hs, by rw [hget]; rfl⟩)
  · rw [heq]
    exact grows_of_scopes rfl rfl

theorem grows_assign {name : String} {v : Value} (h : m.assign name v = .ok m') :
    m.Grows D V m' := by
  rcases assign_cases h with ⟨i, s, b, hs, hget, -, rfl⟩ | ⟨-, rfl⟩
  · exact grows_bindAt (Or.inl ⟨s, hs, by rw [hget]; rfl⟩)
  · exact grows_of_scopes rfl rfl

theorem grows_declare {kind : DeclKind} {name : String} {v : Value}
    (h : m.declare kind name v = .ok m') (hbound : kind ≠ .varDecl → D name)
    (hvar : kind = .varDecl → V name) : m.Grows D V m' := by
  rcases declare_cases h with ⟨hkind, ⟨i, s, hs, hframe, rfl⟩ | ⟨-, rfl⟩⟩ |
    ⟨hkind, ⟨s, hs, -, rfl⟩ | ⟨-, -, rfl⟩⟩
  · exact grows_bindAt (Or.inr (Or.inr ⟨⟨s, hs, hframe⟩, hvar hkind⟩))
  · exact grows_of_scopes rfl rfl
  · exact grows_bindAt (Or.inr (Or.inl ⟨rfl, hbound hkind⟩))
  · exact grows_of_scopes rfl rfl

/-- What a block binds in its own scope is gone with it. -/
theorem Grows.leave {body : List Stmt}
    (h : ((m.enter .block).hoist body).Grows (fun _ => True) V m') : m.Grows D V m'.leave := by
  rw [hoist_of_cons (m := m.enter .block) body rfl] at h
  have hbinds : ∀ i name, m'.leave.Binds i name ↔ m'.Binds (i + 1) name := fun i name => by
    rw [Binds, Binds, Machine.leave, List.getElem?_tail]
  refine ⟨h.depth, ?_, fun i name hb => ?_, fun i name hb => ?_⟩
  · rw [Machine.leave, List.map_tail, h.frames]
    rfl
  · exact (hbinds i name).mpr (h.kept (i + 1) name hb)
  · rcases h.gained (i + 1) name ((hbinds i name).mp hb) with hb | ⟨hzero, -⟩ | hframe
    · exact Or.inl hb
    · exact absurd hzero (Nat.succ_ne_zero i)
    · exact Or.inr (Or.inr hframe)

/-- **Code keeps the scopes**, up to the names that it declares. -/
theorem grows_of_moves {F : Function → Prop} {U : NameUse × String → Prop}
    (h : Moves F U D m m') : m.Grows D (fun name => U (.declare .varDecl, name)) m' := by
  induction h with
  | stay => exact grows_of_scopes rfl rfl
  | andThen _ _ ih ih' => exact ih.trans ih'
  | write _ hwrite =>
    rcases Slot.write_cases hwrite with hassign | ⟨v, v', hv, -, rfl⟩
    · exact grows_assign hassign
    · exact grows_setVariable hv
  | mutate _ hheld hitems hmodify =>
    obtain ⟨v, v', hv, -, rfl⟩ := Slot.mutate_cases hheld hitems hmodify
    exact grows_setVariable hv
  | output => exact grows_of_scopes rfl rfl
  | declare huse hbound hdeclare =>
    exact grows_declare hdeclare hbound fun hkind => hkind ▸ huse
  | block _ _ ih => exact ih.leave
  | call => exact grows_of_scopes rfl rfl

/-! ## The frame of a call -/

/-- In a call there are at least two scopes, and the last but one is the only frame; outside of
    calls there is none. -/
structure Framed (m : Machine) : Prop where
  enough : 0 < m.depth → 2 ≤ m.scopes.length
  frame : ∀ i s, m.scopes[i]? = some s →
    (s.isFrame = true ↔ 0 < m.depth ∧ i + 2 = m.scopes.length)

theorem Grows.length (h : m.Grows D V m') : m'.scopes.length = m.scopes.length := by
  rw [← List.length_map (f := Scope.isFrame), h.frames, List.length_map]

theorem Grows.inFunction (h : m.Grows D V m') : m'.inFunction = m.inFunction := by
  have hany : ∀ m : Machine, m.inFunction = (m.scopes.map Scope.isFrame).any id := fun m => by
    rw [List.any_map]
    rfl
  rw [hany, hany, h.frames]

theorem Framed.grows (hm : m.Framed) (h : m.Grows D V m') : m'.Framed := by
  refine ⟨fun hdepth => ?_, fun i s hs => ?_⟩
  · rw [h.length]
    exact hm.enough (h.depth ▸ hdepth)
  · have hflag : (m.scopes.map Scope.isFrame)[i]? = some s.isFrame := by
      rw [← h.frames, List.getElem?_map, hs]
      rfl
    obtain ⟨t, ht, heq⟩ := Option.map_eq_some_iff.mp (List.getElem?_map.symm.trans hflag)
    rw [← heq, h.depth, h.length]
    exact hm.frame i t ht

theorem Framed.enter (hm : m.Framed) : (m.enter .block).Framed := by
  refine ⟨fun hdepth => ?_, fun i s hs => ?_⟩
  · exact Nat.le_succ_of_le (hm.enough hdepth)
  · have hlength : (m.enter .block).scopes.length = m.scopes.length + 1 := rfl
    cases i with
    | zero =>
      cases hs
      refine ⟨fun hframe => absurd hframe Bool.false_ne_true, fun ⟨hdepth, hzero⟩ => ?_⟩
      have := hm.enough hdepth
      omega
    | succ i =>
      rw [hm.frame i s hs, hlength]
      exact and_congr_right fun _ => by omega

/-- The scopes of a call: its frame, and around it the name of the function. -/
theorem framed_beginCall (m : Machine) (run : Nat) (f : Function) (args : List Value) :
    (m.beginCall run (Scope.ofCall run f args)).Framed := by
  refine ⟨fun _ => Nat.le_refl 2, fun i s hs => ?_⟩
  have hdepth : 0 < (m.beginCall run (Scope.ofCall run f args)).depth := Nat.succ_pos _
  match i, hs with
  | 0, hs =>
    cases hs
    exact iff_of_true rfl ⟨hdepth, rfl⟩
  | 1, hs =>
    cases hs
    exact iff_of_false Bool.false_ne_true fun hframe => absurd hframe.2 (Nat.succ_ne_self 2)

theorem Framed.hoist (hm : m.Framed) (body : List Stmt) : (m.hoist body).Framed := by
  cases hscopes : m.scopes with
  | nil =>
    rw [hoist_of_nil body hscopes]
    exact ⟨hm.enough, hm.frame⟩
  | cons s outer =>
    rw [hoist_of_cons body hscopes]
    refine ⟨fun hdepth => ?_, fun i t ht => ?_⟩
    · have := hm.enough hdepth
      rwa [hscopes] at this
    · cases i with
      | zero =>
        cases ht
        have := hm.frame 0 s (by rw [hscopes]; rfl)
        rwa [← Scope.isFrame_withFunctions, hscopes] at this
      | succ i =>
        have := hm.frame (i + 1) t (by rw [hscopes]; exact ht)
        rwa [hscopes] at this

theorem Framed.inFunction_iff (hm : m.Framed) : m.inFunction = true ↔ 0 < m.depth := by
  rw [inFunction, List.any_eq_true]
  constructor
  · rintro ⟨s, hs, hframe⟩
    obtain ⟨i, hi⟩ := List.mem_iff_getElem?.mp hs
    exact ((hm.frame i s hi).mp hframe).1
  · intro hdepth
    have := hm.enough hdepth
    have hlast : m.scopes.length - 2 < m.scopes.length := by omega
    exact ⟨m.scopes[m.scopes.length - 2], List.getElem_mem hlast,
      (hm.frame _ _ (List.getElem?_eq_getElem hlast)).mpr ⟨hdepth, by omega⟩⟩

/-- In a call, `var` declares in the last scope but one. -/
theorem Framed.bindInFrame? (hm : m.Framed) (h : m.inFunction = true) (name : String)
    (b : Binding) :
    bindInFrame? m.scopes name b = some (bindAt m.scopes (m.scopes.length - 2) name b) := by
  cases hbind : Script.bindInFrame? m.scopes name b with
  | none =>
    rw [inFunction, bindInFrame?_eq_none.mp hbind] at h
    cases h
  | some scopes =>
    obtain ⟨i, s, hs, hframe, rfl⟩ := bindInFrame?_eq_bindAt hbind
    have := ((hm.frame i s hs).mp hframe).2
    rw [show m.scopes.length - 2 = i by omega]

/-! ## Everywhere in a run -/

/-- Every code moves the state by the names that it uses. -/
theorem moves_of_effect {α : Type} {maxDepth : Nat} {U : NameUse × String → Prop} {x : Effect α}
    {Q : α → Prop}
    (h : (soundLogic (fun _ => True) (fun _ => True) maxDepth).Says U D x x Q)
    (hx : (x m).state? = some m') : Moves (fun _ => True) U D m m' := by
  have hrun := h m m.holds_true
  cases hout : x m with
  | done a m'' =>
    rw [hout] at hrun hx
    cases hx
    exact hrun.2.2
  | failed e m'' =>
    rw [hout] at hrun hx
    cases hx
    exact hrun.2.2
  | exhausted =>
    rw [hout] at hx
    cases hx

theorem closed_true : Closed (fun _ => True) fun _ => True :=
  fun _ _ => ⟨fun _ _ => trivial, fun _ _ => trivial⟩

theorem moves_of_eval {maxDepth steps : Nat} {e : Expr}
    (h : (eval maxDepth steps e m).state? = some m') :
    Moves (fun _ => True) (· ∈ e.uses) (fun _ => False) m m' :=
  moves_of_effect (((soundLogic _ _ maxDepth).covers closed_true steps).eval (U := (· ∈ e.uses)) e
    ⟨fun _ _ => trivial, fun _ hu => hu⟩) h

theorem moves_of_exec {maxDepth steps : Nat} {s : Stmt}
    (h : (exec maxDepth steps s m).state? = some m') :
    Moves (fun _ => True) (· ∈ s.uses) (· ∈ s.bound) m m' :=
  moves_of_effect (((soundLogic _ _ maxDepth).covers closed_true steps).exec (U := (· ∈ s.uses))
    (D := (· ∈ s.bound)) s ⟨fun _ _ => trivial, fun _ hu => hu⟩ (fun _ _ => trivial)
    fun _ hname => hname) h

theorem moves_of_execAll {maxDepth steps : Nat} {body : List Stmt}
    (h : (execAll maxDepth steps body m).state? = some m') :
    Moves (fun _ => True) (· ∈ Stmt.usesList body) (fun _ => True) m m' :=
  moves_of_effect (((soundLogic _ _ maxDepth).covers closed_true steps).execAll
    (U := (· ∈ Stmt.usesList body)) body ⟨fun _ _ => trivial, fun _ hu => hu⟩
    fun _ _ => trivial) h

theorem Reached.framed {maxDepth : Nat} (h : m.Reached maxDepth) : m.Framed := by
  induction h with
  | start run env body =>
    have hstart : (Machine.start run env).Framed :=
      ⟨fun hdepth => absurd hdepth (Nat.lt_irrefl 0), fun _ _ hs => by cases hs⟩
    exact hstart.hoist body
  | evaluated steps e _ heval ih => exact ih.grows (grows_of_moves (moves_of_eval heval))
  | executed steps s _ hexec ih => exact ih.grows (grows_of_moves (moves_of_exec hexec))
  | declared kind name v _ hdeclare ih =>
    exact ih.grows (grows_declare (D := fun _ => True) (V := fun _ => True) hdeclare
      (fun _ => trivial) fun _ => trivial)
  | inBlock body _ ih => exact ih.enter.hoist body
  | inCall run f args _ _ _ => exact (framed_beginCall _ run f args).hoist f.body

/-- **Statements keep the scopes.**  In any state of a run, code is in a function just when a call
    is active; then there are at least two scopes, and the last but one is where `var` declares.
    However a statement executed in such a state ends, there are as many scopes afterwards as
    before, as many calls are active, and all names are bound where they were; the names bound
    besides are those that the statement declares by `let` or `const` itself, in the innermost
    scope, and in a call those that it declares by `var`, in the last scope but one. -/
theorem Reached.exec_scopes {maxDepth : Nat} (h : m.Reached maxDepth) :
    (m.inFunction = true ↔ 0 < m.depth) ∧
    (m.inFunction = true → 2 ≤ m.scopes.length ∧ ∀ name b,
      Script.bindInFrame? m.scopes name b = some (bindAt m.scopes (m.scopes.length - 2) name b)) ∧
    ∀ steps s m', (exec maxDepth steps s m).state? = some m' →
      m'.scopes.length = m.scopes.length ∧ m'.inFunction = m.inFunction ∧ m'.depth = m.depth ∧
      ∀ i name, (m.Binds i name → m'.Binds i name) ∧
        (m'.Binds i name → m.Binds i name ∨ (i = 0 ∧ name ∈ s.bound) ∨
          (m.inFunction = true ∧ i + 2 = m.scopes.length ∧ name ∈ s.vars)) := by
  have hframed := h.framed
  refine ⟨hframed.inFunction_iff, fun hin =>
    ⟨hframed.enough (hframed.inFunction_iff.mp hin), hframed.bindInFrame? hin⟩,
    fun steps s m' hexec => ?_⟩
  have hgrows := grows_of_moves (moves_of_exec hexec)
  refine ⟨hgrows.length, hgrows.inFunction, hgrows.depth, fun i name => ⟨hgrows.kept i name,
    fun hbinds => (hgrows.gained i name hbinds).imp_right (Or.imp_right fun hvar => ?_)⟩⟩
  obtain ⟨⟨t, ht, hframe⟩, huse⟩ := hvar
  obtain ⟨hdepth, hlast⟩ := (hframed.frame i t ht).mp hframe
  exact ⟨hframed.inFunction_iff.mpr hdepth, hlast, Stmt.mem_vars.mpr huse⟩

/-- In a block of a call, `var` reaches the frame around the block. -/
theorem Reached.exec_scopes_var :
    let f : Function := ⟨⟨0, 0⟩, "f", ["p"], []⟩
    let called := ((Machine.start 1 []).beginCall 1 (Scope.ofCall 1 f [])).hoist []
    let m := (called.enter .block).hoist []
    let s : Stmt := .declare .varDecl [⟨"x", ⟨1, 4⟩, none⟩]
    m.Reached 64 ∧ m.inFunction = true ∧ 2 ≤ m.scopes.length ∧
    ∃ m', (exec 64 5 s m).state? = some m' ∧ m'.scopes.length = m.scopes.length ∧
      m'.Binds 1 "x" ∧ ¬ m.Binds 1 "x" := by
  intro f called m s
  have hreached : m.Reached 64 :=
    .inBlock [] (.inCall 1 f [] (.start 1 [] []) (by decide))
  obtain ⟨-, hframe, hexec⟩ := hreached.exec_scopes
  refine ⟨hreached, rfl, (hframe rfl).1, _, rfl, (hexec 5 s _ rfl).1,
    ⟨_, rfl, by decide⟩, ?_⟩
  rintro ⟨t, ht, hsome⟩
  cases ht
  cases hsome

end Machine

end Stencil.Script
