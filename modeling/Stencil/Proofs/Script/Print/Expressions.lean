/-
  Expressions are read back from the words that they are written as.

  One lemma for each form of expression says that it is read back when its parts are
  (`Expr.Reads`); each of them compares the ranks that the form asks for with the powers by which
  it is read.  The lemmas are put together by recursion on derivations, not on trees: only what was
  read once has an operator for each of its assignments and words that can be written.
-/
import Stencil.Proofs.Script.Print.Reads

namespace Stencil.Script

open Grammar

/-! ## What begins an expression -/

/-- The words that begin an expression. -/
def beginsOperand : Word → Bool
  | .symbol s => s = .leftParen || s = .leftBracket || s = .leftBrace || s = .bang || s = .plus
      || s = .minus || s = .plusPlus || s = .minusMinus
  | .keyword k => k = .kwTrue || k = .kwFalse || k = .kwNull || k = .kwUndefined || k = .kwTypeof
  | _ => true

namespace Grammar

variable {n least : Nat} {row rest : List Lexeme} {e : Expr}

theorem DerivesPrimary.begins (h : DerivesPrimary n row e rest) :
    ∃ w, next? row = some w ∧ beginsOperand w = true := by
  cases h with
  | atom h =>
    refine ⟨_, rfl, ?_⟩
    unfold Word.atom? at h
    split at h
    all_goals first | (rename_i hw; rw [hw]; rfl) | cases h
  | group hopen _ _ => exact ⟨_, rfl, by rw [hopen]; rfl⟩
  | array hopen _ => exact ⟨_, rfl, by rw [hopen]; rfl⟩
  | object hopen _ => exact ⟨_, rfl, by rw [hopen]; rfl⟩

theorem DerivesOperand.begins (h : DerivesOperand n row e rest) :
    ∃ w, next? row = some w ∧ beginsOperand w = true := by
  cases h with
  | update hop _ _ =>
    refine ⟨_, rfl, ?_⟩
    unfold Word.update? at hop
    split at hop
    all_goals first | (rename_i hw; rw [hw]; rfl) | cases hop
  | unary hop _ =>
    refine ⟨_, rfl, ?_⟩
    unfold Word.unary? at hop
    split at hop
    all_goals first | (rename_i hw; rw [hw]; rfl) | cases hop
  | primary he _ => exact he.begins

theorem DerivesExpr.begins (h : DerivesExpr n least row e rest) :
    ∃ w, next? row = some w ∧ beginsOperand w = true := by
  cases h with
  | mk hlhs _ => exact hlhs.begins

/-- An expression does not begin with a symbol that closes something. -/
theorem DerivesExpr.next?_ne {s : Symbol} (hs : closes s = true)
    (h : DerivesExpr n least row e rest) : next? row ≠ some (.symbol s) := by
  obtain ⟨w, hw, hbegins⟩ := h.begins
  rintro hrow
  obtain rfl := Option.some.inj (hw.symm.trans hrow)
  cases s <;> first | exact absurd hbegins (by decide) | cases hs

end Grammar

/-- Words that are read as an expression begin like one. -/
theorem ReadsAt.begins {k : Rank} {ws : List Word} {e : Expr} (h : ReadsAt k ws e)
    (hne : ws ≠ []) : ∃ w, ws.head? = some w ∧ beginsOperand w = true := by
  -- the words on a line by themselves, in front of something that closes
  have hrow : Line ws (ws.map fun w => ⟨w, .start, false⟩) := by
    rw [Line, List.map_map]
    rfl
  obtain ⟨e', -, hread⟩ := h.between hrow
  have hclosed := hread (r := ⟨.symbol .comma, .start, false⟩) [] (Nat.le_refl _) rfl rfl
  obtain ⟨n, hn⟩ := hclosed.some_level
  obtain ⟨w, hw, hbegins⟩ := hn.begins
  rw [(hrow.next?_append hne _).1] at hw
  exact ⟨w, hw, hbegins⟩

/-! ## Writing with parentheses -/

/-- The expression can be written, and what it is written as is read as the expression, up to
    positions. -/
structure Expr.Reads (e : Expr) : Prop where
  writable : ∀ w ∈ e.words, Writable w
  stands : ReadsAt e.rank e.words e
  operand : e.rank = .operand → ReadsOperand e.words e

theorem writable_enclosed {ws : List Word} (h : ∀ w ∈ ws, Writable w) :
    ∀ w ∈ enclosed ws, Writable w := by
  simp only [enclosed, List.forall_mem_cons, List.forall_mem_append]
  exact ⟨.symbol _, h, .symbol _, by simp⟩

theorem writable_commas : ∀ {items : List (List Word)},
    (∀ item ∈ items, ∀ w ∈ item, Writable w) → ∀ w ∈ commas items, Writable w
  | [], _ => by simp [commas]
  | [item], h => h item List.mem_cons_self
  | item :: other :: items, h => by
    rw [List.forall_mem_cons] at h
    have hrest := writable_commas h.2
    simp only [commas, List.forall_mem_cons, List.forall_mem_append]
    exact ⟨h.1, .symbol _, hrest⟩

namespace Expr.Reads

variable {e lhs rhs : Expr}

theorem of_operand (hwritable : ∀ w ∈ e.words, Writable w)
    (h : ReadsOperand e.words e) : e.Reads := ⟨hwritable, h.readsAt _, fun _ => h⟩

theorem writable_fitted (h : e.Reads) (k : Rank) :
    ∀ w ∈ fitted k e.rank e.words, Writable w := by
  unfold Script.fitted
  split
  · exact writable_enclosed h.writable
  · exact h.writable

/-- An expression is read at any place, in parentheses where it is not tight enough. -/
theorem fitted (h : e.Reads) (k : Rank) : ReadsAt k (fitted k e.rank e.words) e := by
  unfold Script.fitted
  split
  · exact h.stands.enclosed.readsAt k
  · rename_i hk
    exact h.stands.mono (Nat.not_lt.mp hk)

theorem fitted_operand (h : e.Reads) :
    ReadsOperand (Script.fitted .operand e.rank e.words) e := by
  unfold Script.fitted
  split
  · exact h.stands.enclosed
  · rename_i hk
    refine h.operand ?_
    revert hk
    cases e.rank <;> decide

end Expr.Reads

/-! ## Operators -/

/-- A place is written as the expression was that names it. -/
theorem Expr.words_of_toPlace? {e : Expr} {p : Place} (h : e.toPlace? = some p) :
    e.words = p.words ∧ e.rank = .operand := by
  rw [Place.toPlace?_eq_some_iff.mp h]
  exact ⟨p.words_toExpr, p.rank_toExpr⟩

namespace Expr.Reads

variable {e lhs rhs : Expr}

theorem unary (h : e.Reads) (pos : Position) (op : UnaryOp) : (Expr.unary pos op e).Reads := by
  refine ⟨?_, ?_, fun hrank => by cases hrank⟩
  · rw [words, List.forall_mem_cons]
    refine ⟨?_, h.writable_fitted _⟩
    cases op <;> first | exact .symbol _ | exact .keyword _
  · intro row hrow
    obtain ⟨l, row, rfl, hl, -, hrow⟩ := hrow.cons
    have hop : l.word.unary? = some op := by rw [hl]; cases op <;> rfl
    obtain ⟨e', he', hread⟩ := (h.fitted .before).whole hrow
    refine ⟨.unary l.pos op e', congrArg (Expr.unary .start op) he', ?_⟩
    intro least rest final e'' _ hstops hops
    exact (hread (Nat.le_refl _) (Nat.le_refl _) hstops).level₂ hops
      fun n hread hops => .mk (.unary hop hread) hops

theorem updateBefore {target : Place} (h : e.Reads) (htarget : e.toPlace? = some target)
    (pos : Position) (op : UpdateOp) : (Expr.update pos op true target).Reads := by
  obtain ⟨hwords, hrank⟩ := words_of_toPlace? htarget
  refine ⟨?_, ?_, fun hrank => by cases hrank⟩
  · rw [words, if_pos rfl, ← hwords, List.forall_mem_cons]
    refine ⟨?_, h.writable⟩
    cases op <;> exact .symbol _
  · intro row hrow
    rw [words, if_pos rfl, ← hwords] at hrow
    obtain ⟨l, row, rfl, hl, -, hrow⟩ := hrow.cons
    have hop : l.word.update? = some op := by rw [hl]; cases op <;> rfl
    obtain ⟨e', he', hread⟩ := ((h.operand hrank).readsAt .before).whole hrow
    obtain ⟨target', htarget', ht⟩ := toPlace?_of_erase_eq he' htarget
    refine ⟨.update l.pos op true target', congrArg (Expr.update .start op true) ht,
      fun _ hstops hops => ?_⟩
    exact (hread (Nat.le_refl _) (Nat.le_refl _) hstops).level₂ hops
      fun n hread hops => .mk (.update hop hread htarget') hops

theorem updateBehind {target : Place} (h : e.Reads) (htarget : e.toPlace? = some target)
    (pos : Position) (op : UpdateOp) : (Expr.update pos op false target).Reads := by
  obtain ⟨hwords, hrank⟩ := words_of_toPlace? htarget
  refine ⟨?_, ?_, fun hrank => by cases hrank⟩
  · rw [words, if_neg Bool.false_ne_true, ← hwords, List.forall_mem_append]
    refine ⟨h.writable, List.forall_mem_singleton.mpr ?_⟩
    cases op <;> exact .symbol _
  · intro row hrow
    rw [words, if_neg Bool.false_ne_true, ← hwords] at hrow
    obtain ⟨front, l, rfl, hfront, hl, hline⟩ := hrow.concat
    have hop : l.word.update? = some op := by rw [hl]; cases op <;> rfl
    obtain ⟨e', he', hread⟩ := h.operand hrank front hfront
    obtain ⟨target', htarget', ht⟩ := toPlace?_of_erase_eq he' htarget
    refine ⟨.update e'.pos op false target', congrArg (Expr.update .start op false) ht,
      fun {least rest final e''} _ _ hops => ?_⟩
    have hlhs : Enough (DerivesOperand · (front ++ l :: rest) (.update e'.pos op false target')
        rest) := hread (.always fun n => .update hop hline htarget')
    rw [List.append_assoc]
    exact hlhs.level₂ hops fun n hlhs hops => .mk hlhs hops

theorem binary (hlhs : lhs.Reads) (hrhs : rhs.Reads) (pos : Position) (op : BinaryOp) :
    (Expr.binary pos op lhs rhs).Reads := by
  refine ⟨?_, ?_, fun hrank => by cases op <;> cases hrank⟩
  · rw [words, List.forall_mem_append, List.forall_mem_cons]
    exact ⟨hlhs.writable_fitted _, .symbol _, hrhs.writable_fitted _⟩
  · refine (hlhs.fitted op.leftRank).joined op.connective?_symbol op.left_le op.left_lt ?_
    intro lhs' row hlhs' hrow
    obtain ⟨rhs', hrhs', hread⟩ := (hrhs.fitted op.rightRank).whole hrow
    refine ⟨.binary lhs'.pos op lhs' rhs', ?_, ?_⟩
    · show Expr.binary .start op lhs'.erase rhs'.erase = _
      rw [hlhs', hrhs']
      rfl
    · intro rest hstops
      exact (hread op.right_le.1 op.right_le.2 hstops).map fun n hread => .binary hread

theorem logical (hlhs : lhs.Reads) (hrhs : rhs.Reads) (pos : Position) (op : LogicalOp) :
    (Expr.logical pos op lhs rhs).Reads := by
  refine ⟨?_, ?_, fun hrank => by cases op <;> cases hrank⟩
  · rw [words, List.forall_mem_append, List.forall_mem_cons]
    exact ⟨hlhs.writable_fitted _, .symbol _, hrhs.writable_fitted _⟩
  · refine (hlhs.fitted op.rank).joined op.connective?_symbol (Nat.le_refl _) op.left_lt ?_
    intro lhs' row hlhs' hrow
    obtain ⟨rhs', hrhs', hread⟩ := (hrhs.fitted op.rank.next).whole hrow
    refine ⟨.logical lhs'.pos op lhs' rhs', ?_, ?_⟩
    · show Expr.logical .start op lhs'.erase rhs'.erase = _
      rw [hlhs', hrhs']
      rfl
    · intro rest hstops
      exact (hread op.right_le.1 op.right_le.2 hstops).map fun n hread => .logical hread

/-- The operators of assignments have symbols of their own. -/
theorem connective?_assignSymbol {w : Word} {least : Nat} {power : Power} {op : Option BinaryOp}
    (h : w.connective? least = some (power, .assign op)) :
    (assignSymbol op).connective? = some (.assignment, .assign op) := by
  cases w with
  | symbol s =>
    have hs := (Option.filter_eq_some_iff.mp h).1
    cases s <;> cases hs <;> rfl
  | _ => cases h

theorem assign {target : Place} {op : Option BinaryOp} (hlhs : lhs.Reads) (hrhs : rhs.Reads)
    (htarget : lhs.toPlace? = some target) (pos : Position)
    (hop : (assignSymbol op).connective? = some (.assignment, .assign op)) :
    (Expr.assign pos op target rhs).Reads := by
  obtain ⟨hwords, hrank⟩ := words_of_toPlace? htarget
  refine ⟨?_, ?_, fun hrank => by cases hrank⟩
  · rw [words, ← hwords, List.forall_mem_append, List.forall_mem_cons]
    exact ⟨hlhs.writable, .symbol _, hrhs.writable_fitted _⟩
  · rw [words, ← hwords]
    refine ((hlhs.operand hrank).readsAt .operand).joined (k := .assignment) hop (by decide)
      (by decide) ?_
    intro lhs' row hlhs' hrow
    obtain ⟨rhs', hrhs', hread⟩ := (hrhs.fitted .assignment).whole hrow
    obtain ⟨target', htarget', ht⟩ := toPlace?_of_erase_eq hlhs' htarget
    refine ⟨.assign lhs'.pos op target' rhs', ?_, ?_⟩
    · show Expr.assign .start op target'.erase rhs'.erase = _
      rw [ht, hrhs']
      rfl
    · intro rest hstops
      exact (hread (by decide) (Nat.le_refl _) hstops).map fun n hread => .assign htarget' hread

theorem conditional {cond whenTrue whenFalse : Expr} (hcond : cond.Reads) (htrue : whenTrue.Reads)
    (hfalse : whenFalse.Reads) (pos : Position) :
    (Expr.conditional pos cond whenTrue whenFalse).Reads := by
  refine ⟨?_, ?_, fun hrank => by cases hrank⟩
  · simp only [words, List.forall_mem_append, List.forall_mem_cons]
    exact ⟨hcond.writable_fitted _, .symbol _, htrue.writable, .symbol _,
      hfalse.writable_fitted _⟩
  · refine (hcond.fitted _).joined (k := .conditional) (s := .question) rfl (by decide)
      (by decide) ?_
    intro cond' row hcond' hrow
    obtain ⟨mid, back, rfl, hmid, hback⟩ := hrow.append
    obtain ⟨l, back, rfl, hl, -, hback⟩ := hback.cons
    -- the middle operand stands between two symbols and needs no parentheses
    obtain ⟨true', htrue', hreadTrue⟩ := htrue.stands.between hmid
    obtain ⟨false', hfalse', hreadFalse⟩ := (hfalse.fitted .conditional).whole hback
    refine ⟨.conditional cond'.pos cond' true' false', ?_, ?_⟩
    · show Expr.conditional .start cond'.erase true'.erase false'.erase = _
      rw [hcond', htrue', hfalse']
      rfl
    · intro rest hstops
      have h1 := hreadTrue (back ++ rest) (Nat.le_refl _) rfl hl
      have h2 := hreadFalse (by decide) (Nat.le_refl _) hstops
      rw [List.append_assoc]
      exact h1.map₂ h2 fun n h1 h2 => .conditional h1 hl h2

end Expr.Reads

/-! ## Items and members -/

/-- Items between brackets can be written and are read back. -/
structure ItemsRead (xs : List Expr) : Prop where
  writable : ∀ w ∈ commas (Expr.wordsItems xs), Writable w
  reads : ∀ {row : List Lexeme}, Line (commas (Expr.wordsItems xs)) row →
    ∃ xs', Expr.mapPosItems (fun _ => .start) xs' = Expr.mapPosItems (fun _ => .start) xs ∧
      ∀ {close : Symbol} {r : Lexeme} (rest : List Lexeme), closes close = true → close ≠ .comma →
        r.word = .symbol close → Enough (DerivesItems · close (row ++ r :: rest) xs' rest)

namespace ItemsRead

theorem nil : ItemsRead [] := by
  refine ⟨by simp [Expr.wordsItems, commas], ?_⟩
  intro row hrow
  obtain rfl := Line.eq_nil hrow
  exact ⟨[], rfl, fun _ _ _ hr => .always fun n => .nil hr⟩

theorem cons {x : Expr} {xs : List Expr} (hx : x.Reads) (hxs : ItemsRead xs) :
    ItemsRead (x :: xs) := by
  cases xs with
  | nil =>
    refine ⟨hx.writable, ?_⟩
    intro row hrow
    obtain ⟨x', hx', hread⟩ := hx.stands.between hrow
    refine ⟨[x'], ?_, ?_⟩
    · show [x'.erase] = [x.erase]
      rw [hx']
    · intro close r rest hclose hcomma hr
      refine (hread rest (Nat.le_refl _) hclose hr).map fun n hread => ?_
      exact .last (hread.next?_ne hclose) hread (by rw [hr]; simpa using hcomma) hr
  | cons y ys =>
    constructor
    · simp only [Expr.wordsItems, commas, List.forall_mem_append, List.forall_mem_cons]
      exact ⟨hx.writable, .symbol _, hxs.writable⟩
    · intro row hrow
      obtain ⟨front, back, rfl, hfront, hback⟩ := hrow.append
      obtain ⟨c, back, rfl, hc, -, hback⟩ := hback.cons
      obtain ⟨x', hx', hread⟩ := hx.stands.between hfront
      obtain ⟨xs', hxs', hreads⟩ := hxs.reads hback
      refine ⟨x' :: xs', ?_, ?_⟩
      · show x'.erase :: Expr.mapPosItems _ xs' = x.erase :: Expr.mapPosItems _ (y :: ys)
        rw [hx', hxs']
      · intro close r rest hclose hcomma hr
        have hfirst := hread (back ++ r :: rest) (Nat.le_refl _) rfl hc
        rw [List.append_assoc, List.cons_append]
        exact hfirst.map₂ (hreads rest hclose hcomma hr) fun n hfirst hothers =>
          .cons (hfirst.next?_ne hclose) hfirst hc hothers

end ItemsRead

/-- Members between braces can be written and are read back. -/
structure MembersRead (xs : List (String × Expr)) : Prop where
  writable : ∀ w ∈ commas (Expr.wordsMembers xs), Writable w
  reads : ∀ {row : List Lexeme}, Line (commas (Expr.wordsMembers xs)) row →
    ∃ xs', Expr.mapPosMembers (fun _ => .start) xs' = Expr.mapPosMembers (fun _ => .start) xs ∧
      ∀ {r : Lexeme} (rest : List Lexeme), r.word = .symbol .rightBrace →
        Enough (DerivesMembers · (row ++ r :: rest) xs' rest)

namespace MembersRead

theorem nil : MembersRead [] := by
  refine ⟨by simp [Expr.wordsMembers, commas], ?_⟩
  intro row hrow
  obtain rfl := Line.eq_nil hrow
  exact ⟨[], rfl, fun _ hr => .always fun n => .nil hr⟩

/-- A key, a colon and a value. -/
theorem member {x : Expr} (hx : x.Reads) {s : String} {row : List Lexeme}
    (hrow : Line (.text s :: .symbol .colon :: x.words) row) :
    ∃ x', x'.erase = x.erase ∧ ∀ {close : Symbol} {r : Lexeme} (rest : List Lexeme),
      closes close = true → r.word = .symbol close →
      Enough (DerivesMember · (row ++ r :: rest) (s, x') (r :: rest)) := by
  obtain ⟨l, row, rfl, hl, -, hrow⟩ := hrow.cons
  obtain ⟨c, row, rfl, hc, -, hrow⟩ := hrow.cons
  obtain ⟨x', hx', hread⟩ := hx.stands.between hrow
  refine ⟨x', hx', ?_⟩
  intro close r rest hclose hr
  have hkey : l.word.key? = some s := by rw [hl]; rfl
  exact (hread rest (Nat.le_refl _) hclose hr).map fun n hread => .keyed hkey hc hread

theorem cons {s : String} {x : Expr} {xs : List (String × Expr)} (hx : x.Reads)
    (hxs : MembersRead xs) : MembersRead ((s, x) :: xs) := by
  have hmember : ∀ w ∈ Word.text s :: .symbol .colon :: x.words, Writable w := by
    simp only [List.forall_mem_cons]
    exact ⟨.text s, .symbol _, hx.writable⟩
  cases xs with
  | nil =>
    refine ⟨hmember, ?_⟩
    intro row hrow
    obtain ⟨x', hx', hread⟩ := member hx hrow
    refine ⟨[(s, x')], ?_, ?_⟩
    · show [(s, x'.erase)] = [(s, x.erase)]
      rw [hx']
    · intro r rest hr
      exact (hread rest rfl hr).map fun n hread => .last hread hr
  | cons y ys =>
    constructor
    · have hrest := hxs.writable
      simp only [Expr.wordsMembers, commas] at hrest ⊢
      exact List.forall_mem_append.mpr ⟨hmember, List.forall_mem_cons.mpr ⟨.symbol _, hrest⟩⟩
    · intro row hrow
      obtain ⟨front, back, rfl, hfront, hback⟩ := Line.append hrow
      obtain ⟨c, back, rfl, hc, -, hback⟩ := hback.cons
      obtain ⟨x', hx', hread⟩ := member hx hfront
      obtain ⟨xs', hxs', hreads⟩ := hxs.reads hback
      refine ⟨(s, x') :: xs', ?_, ?_⟩
      · show (s, x'.erase) :: Expr.mapPosMembers _ xs'
          = (s, x.erase) :: Expr.mapPosMembers _ (y :: ys)
        rw [hx', hxs']
      · intro r rest hr
        have hfirst := hread (back ++ r :: rest) rfl hc
        rw [List.append_assoc, List.cons_append]
        exact hfirst.map₂ (hreads rest hr) fun n hfirst hothers => .cons hfirst hc hothers

end MembersRead

/-! ## Operands -/

/-- A property is read behind a point as it is written there. -/
theorem property?_ofName (s : String) : (Word.ofName s).property? = some s := by
  unfold Word.ofName
  split
  · rename_i k hk
    have hs := List.find?_some hk
    rw [Word.property?, eq_of_beq hs]
  · rfl

/-- What is read as a property can be written as one. -/
theorem writable_property {w : Word} {s : String} (hw : Writable w) (h : w.property? = some s) :
    Writable (.ofName s) := by
  cases w with
  | name t =>
    cases h
    rwa [hw.ofName_eq]
  | keyword k =>
    cases h
    rwa [Word.ofName_spelling]
  | _ => cases h

namespace Expr.Reads

variable {e : Expr}

/-- A literal or a name is a single word. -/
theorem atom {w : Word} {pos : Position} (hw : Writable w) (h : w.atom? pos = some e) :
    e.Reads := by
  have hatom : e.words = [w] ∧ e.rank = .operand ∧
      ∀ pos', ∃ e', w.atom? pos' = some e' ∧ e'.erase = e.erase := by
    unfold Word.atom? at h
    split at h <;> cases h
    all_goals exact ⟨rfl, rfl, fun pos' => ⟨_, rfl, rfl⟩⟩
  obtain ⟨hwords, hrank, hpos⟩ := hatom
  refine .of_operand (by rw [hwords]; exact List.forall_mem_singleton.mpr hw) fun row hrow => ?_
  rw [hwords] at hrow
  obtain ⟨l, row, rfl, hl, -, hnil⟩ := hrow.cons
  obtain rfl := hnil.eq_nil
  obtain ⟨e', hatom, he'⟩ := hpos l.pos
  rw [← hl] at hatom
  refine ⟨e', he', fun hsuffixes => ?_⟩
  exact hsuffixes.map fun n hsuffixes => .primary (.atom hatom) hsuffixes

theorem member {s : String} (h : e.Reads) (hs : Writable (.ofName s)) (pos : Position) :
    (Expr.member pos e s).Reads := by
  refine .of_operand ?_ fun row hrow => ?_
  · simp only [words, List.forall_mem_append, List.forall_mem_cons]
    exact ⟨h.writable_fitted _, .symbol _, hs, by simp⟩
  · obtain ⟨front, back, rfl, hfront, hback⟩ := hrow.append
    obtain ⟨d, back, rfl, hd, -, hback⟩ := hback.cons
    obtain ⟨l, back, rfl, hl, -, hnil⟩ := hback.cons
    obtain rfl := hnil.eq_nil
    obtain ⟨e', he', hread⟩ := h.fitted_operand front hfront
    have hsuffix : Word.suffix? d.word = some .member := by rw [hd]; rfl
    have hproperty : l.word.property? = some s := by rw [hl]; exact property?_ofName s
    refine ⟨.member e'.pos e' s, congrArg (Expr.member .start · s) he', ?_⟩
    intro rest final e'' hsuffixes
    rw [List.append_assoc]
    exact hread (hsuffixes.level fun n hmore => .more hsuffix (.member hproperty) hmore)

theorem index {key : Expr} (h : e.Reads) (hkey : key.Reads) (pos : Position) :
    (Expr.index pos e key).Reads := by
  refine .of_operand ?_ fun row hrow => ?_
  · simp only [words, List.forall_mem_append, List.forall_mem_cons]
    exact ⟨h.writable_fitted _, .symbol _, hkey.writable, .symbol _, by simp⟩
  · obtain ⟨front, back, rfl, hfront, hback⟩ := hrow.append
    obtain ⟨l, back, rfl, hl, -, hback⟩ := hback.cons
    obtain ⟨mid, r, rfl, hmid, hr, -⟩ := hback.concat
    obtain ⟨e', he', hread⟩ := h.fitted_operand front hfront
    obtain ⟨key', hkey', hreadKey⟩ := hkey.stands.between hmid
    have hsuffix : Word.suffix? l.word = some .index := by rw [hl]; rfl
    refine ⟨.index e'.pos e' key', ?_, ?_⟩
    · show Expr.index .start e'.erase key'.erase = _
      rw [he', hkey']
      rfl
    · intro rest final e'' hsuffixes
      have hkey := hreadKey (p := Power.any) rest (Nat.zero_le _) rfl hr
      have hmore : Enough (DerivesSuffixes · e' (l :: (mid ++ r :: rest)) e'' final) :=
        hkey.level₂ hsuffixes fun n hkey hmore => .more hsuffix (.index hkey hr) hmore
      simpa using hread hmore

theorem call {args : List Expr} (h : e.Reads) (hargs : ItemsRead args) (pos : Position) :
    (Expr.call pos e args).Reads := by
  refine .of_operand ?_ fun row hrow => ?_
  · simp only [words, List.forall_mem_append, List.forall_mem_cons]
    exact ⟨h.writable_fitted _, .symbol _, hargs.writable, .symbol _, by simp⟩
  · obtain ⟨front, back, rfl, hfront, hback⟩ := hrow.append
    obtain ⟨l, back, rfl, hl, -, hback⟩ := hback.cons
    obtain ⟨mid, r, rfl, hmid, hr, -⟩ := hback.concat
    obtain ⟨e', he', hread⟩ := h.fitted_operand front hfront
    obtain ⟨args', hargs', hreadArgs⟩ := hargs.reads hmid
    have hsuffix : Word.suffix? l.word = some .call := by rw [hl]; rfl
    refine ⟨.call e'.pos e' args', ?_, ?_⟩
    · show Expr.call .start e'.erase (Expr.mapPosItems _ args') = _
      rw [he', hargs']
      rfl
    · intro rest final e'' hsuffixes
      have hargs := hreadArgs rest rfl (by decide) hr
      have hmore : Enough (DerivesSuffixes · e' (l :: (mid ++ r :: rest)) e'' final) :=
        hargs.level₂ hsuffixes fun n hargs hmore => .more hsuffix (.call hargs) hmore
      simpa using hread hmore

theorem array {items : List Expr} (hitems : ItemsRead items) (pos : Position) :
    (Expr.array pos items).Reads := by
  refine .of_operand ?_ fun row hrow => ?_
  · simp only [words, List.forall_mem_append, List.forall_mem_cons]
    exact ⟨.symbol _, hitems.writable, .symbol _, by simp⟩
  · obtain ⟨l, back, rfl, hl, -, hback⟩ := hrow.cons
    obtain ⟨mid, r, rfl, hmid, hr, -⟩ := hback.concat
    obtain ⟨items', hitems', hread⟩ := hitems.reads hmid
    refine ⟨.array l.pos items', congrArg (Expr.array .start) hitems',
      fun {rest final e''} hsuffixes => ?_⟩
    have hitems := hread rest rfl (by decide) hr
    rw [List.cons_append, List.append_assoc]
    exact hitems.map₂ hsuffixes fun n hitems hsuffixes =>
      .primary (.array hl hitems) hsuffixes

theorem object {members : List (String × Expr)} (hmembers : MembersRead members)
    (pos : Position) : (Expr.object pos members).Reads := by
  refine .of_operand ?_ fun row hrow => ?_
  · simp only [words, List.forall_mem_append, List.forall_mem_cons]
    exact ⟨.symbol _, hmembers.writable, .symbol _, by simp⟩
  · obtain ⟨l, back, rfl, hl, -, hback⟩ := hrow.cons
    obtain ⟨mid, r, rfl, hmid, hr, -⟩ := hback.concat
    obtain ⟨members', hmembers', hread⟩ := hmembers.reads hmid
    refine ⟨.object l.pos members', congrArg (Expr.object .start) hmembers',
      fun {rest final e''} hsuffixes => ?_⟩
    have hmembers := hread rest hr
    rw [List.cons_append, List.append_assoc]
    exact hmembers.map₂ hsuffixes fun n hmembers hsuffixes =>
      .primary (.object hl hmembers) hsuffixes

end Expr.Reads

/-! ## Everything that is read -/

/-- Every word of the row can be written. -/
def WritableRow (row : List Lexeme) : Prop := ∀ l ∈ row, Writable l.word

namespace WritableRow

theorem head {l : Lexeme} {row : List Lexeme} (h : WritableRow (l :: row)) : Writable l.word :=
  h l List.mem_cons_self

theorem tail {l : Lexeme} {row : List Lexeme} (h : WritableRow (l :: row)) : WritableRow row :=
  fun x hx => h x (List.mem_cons_of_mem l hx)

end WritableRow

namespace Grammar

mutual

/-- What is derived from words that can be written is read back from what it is written as. -/
theorem DerivesExpr.reads {n least : Nat} {row rest : List Lexeme} {e : Expr} :
    DerivesExpr n least row e rest → WritableRow row → WritableRow rest ∧ e.Reads
  | .mk hlhs hops, h => by
    obtain ⟨hmid, hlhs⟩ := hlhs.reads h
    exact hops.reads hmid hlhs

theorem DerivesOperand.reads {n : Nat} {row rest : List Lexeme} {e : Expr} :
    DerivesOperand n row e rest → WritableRow row → WritableRow rest ∧ e.Reads
  | .update _ he htarget, h => by
    obtain ⟨hrest, he⟩ := he.reads h.tail
    exact ⟨hrest, he.updateBefore htarget _ _⟩
  | .unary _ he, h => by
    obtain ⟨hrest, he⟩ := he.reads h.tail
    exact ⟨hrest, he.unary _ _⟩
  | .primary he hsuffixes, h => by
    obtain ⟨hmid, he⟩ := he.reads h
    exact hsuffixes.reads hmid he

theorem DerivesPrimary.reads {n : Nat} {row rest : List Lexeme} {e : Expr} :
    DerivesPrimary n row e rest → WritableRow row → WritableRow rest ∧ e.Reads
  | .atom hatom, h => ⟨h.tail, .atom h.head hatom⟩
  | .group _ he _, h => by
    obtain ⟨hrest, he⟩ := he.reads h.tail
    exact ⟨hrest.tail, he⟩
  | .array _ hitems, h => by
    obtain ⟨hrest, hitems⟩ := hitems.reads h.tail
    exact ⟨hrest, .array hitems _⟩
  | .object _ hmembers, h => by
    obtain ⟨hrest, hmembers⟩ := hmembers.reads h.tail
    exact ⟨hrest, .object hmembers _⟩

theorem DerivesSuffixes.reads {n : Nat} {row rest : List Lexeme} {e e' : Expr} :
    DerivesSuffixes n e row e' rest → WritableRow row → e.Reads → WritableRow rest ∧ e'.Reads
  | .done _ _, h, he => ⟨h, he⟩
  | .update _ _ htarget, h, he => ⟨h.tail, he.updateBehind htarget _ _⟩
  | .more _ hone hmore, h, he => by
    obtain ⟨hmid, he⟩ := hone.reads h.tail he
    exact hmore.reads hmid he

theorem DerivesSuffixed.reads {n : Nat} {row rest : List Lexeme} {e e' : Expr} {s : Suffix} :
    DerivesSuffixed n e s row e' rest → WritableRow row → e.Reads → WritableRow rest ∧ e'.Reads
  | .member hproperty, h, he => ⟨h.tail, he.member (writable_property h.head hproperty) _⟩
  | .index hkey _, h, he => by
    obtain ⟨hrest, hkey⟩ := hkey.reads h
    exact ⟨hrest.tail, he.index hkey _⟩
  | .call hargs, h, he => by
    obtain ⟨hrest, hargs⟩ := hargs.reads h
    exact ⟨hrest, he.call hargs _⟩

theorem DerivesOperators.reads {n least : Nat} {row rest : List Lexeme} {lhs e : Expr} :
    DerivesOperators n least lhs row e rest → WritableRow row → lhs.Reads →
      WritableRow rest ∧ e.Reads
  | .done _, h, hlhs => ⟨h, hlhs⟩
  | .more hc hone hmore, h, hlhs => by
    obtain ⟨hmid, he⟩ := hone.reads hc h.tail hlhs
    exact hmore.reads hmid he

theorem DerivesJoined.reads {n : Nat} {row rest : List Lexeme} {lhs e : Expr} {power : Power}
    {c : Connective} {w : Word} {least : Nat} : DerivesJoined n lhs power c row e rest →
      w.connective? least = some (power, c) → WritableRow row → lhs.Reads →
      WritableRow rest ∧ e.Reads
  | .binary hrhs, _, h, hlhs => by
    obtain ⟨hrest, hrhs⟩ := hrhs.reads h
    exact ⟨hrest, hlhs.binary hrhs _ _⟩
  | .logical hrhs, _, h, hlhs => by
    obtain ⟨hrest, hrhs⟩ := hrhs.reads h
    exact ⟨hrest, hlhs.logical hrhs _ _⟩
  | .assign htarget hrhs, hc, h, hlhs => by
    obtain ⟨hrest, hrhs⟩ := hrhs.reads h
    exact ⟨hrest, hlhs.assign hrhs htarget _ (Expr.Reads.connective?_assignSymbol hc)⟩
  | .conditional htrue _ hfalse, _, h, hlhs => by
    obtain ⟨hmid, htrue⟩ := htrue.reads h
    obtain ⟨hrest, hfalse⟩ := hfalse.reads hmid.tail
    exact ⟨hrest, hlhs.conditional htrue hfalse _⟩

theorem DerivesItems.reads {n : Nat} {close : Symbol} {row rest : List Lexeme} {xs : List Expr} :
    DerivesItems n close row xs rest → WritableRow row → WritableRow rest ∧ ItemsRead xs
  | .nil _, h => ⟨h.tail, .nil⟩
  | .last _ hx _ _, h => by
    obtain ⟨hrest, hx⟩ := hx.reads h
    exact ⟨hrest.tail, .cons hx .nil⟩
  | .cons _ hx _ hothers, h => by
    obtain ⟨hmid, hx⟩ := hx.reads h
    obtain ⟨hrest, hothers⟩ := hothers.reads hmid.tail
    exact ⟨hrest, .cons hx hothers⟩

theorem DerivesMembers.reads {n : Nat} {row rest : List Lexeme} {xs : List (String × Expr)} :
    DerivesMembers n row xs rest → WritableRow row → WritableRow rest ∧ MembersRead xs
  | .nil _, h => ⟨h.tail, .nil⟩
  | .last hx _, h => by
    obtain ⟨hrest, hx⟩ := hx.reads h
    exact ⟨hrest.tail, .cons hx .nil⟩
  | .cons hx _ hothers, h => by
    obtain ⟨hmid, hx⟩ := hx.reads h
    obtain ⟨hrest, hothers⟩ := hothers.reads hmid.tail
    exact ⟨hrest, .cons hx hothers⟩

theorem DerivesMember.reads {n : Nat} {row rest : List Lexeme} {x : String × Expr} :
    DerivesMember n row x rest → WritableRow row → WritableRow rest ∧ x.2.Reads
  | .short (l := l) (s := s) hname _, h => by
    have hatom : l.word.atom? l.pos = some (.name l.pos s) := by rw [hname]; rfl
    exact ⟨h.tail, .atom h.head hatom⟩
  | .keyed _ _ he, h => he.reads h.tail.tail

end

end Grammar

end Stencil.Script
