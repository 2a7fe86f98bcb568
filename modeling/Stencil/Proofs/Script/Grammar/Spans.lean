/-
  The lexemes that a part of a script is read from.

  What is derived as an expression takes a segment off the row, and the segment alone gives the
  same expression: of what follows it only the next lexeme is looked at, to see that the expression
  ends there, and where nothing follows it ends too (`Cuts`).  So every expression in a tree has a
  segment of its own.  An operand that goes on with a suffix or an operator has one as well, the
  part of the chain in front of what follows (`Begun`), read with the same levels.

  The position of an expression is that of the first lexeme of its segment, opening parentheses
  aside, because a suffix and an operator take over the position of what stands on their left.
-/
import Stencil.Proofs.Script.Grammar.Complete
import Stencil.Proofs.Script.Tree.Nodes

namespace Stencil.Script

namespace Grammar

/-! ## First lexemes -/

/-- The position of the first lexeme other than an opening parenthesis. -/
def firstPos? (row : List Lexeme) : Option Position :=
  (row.find? fun l => l.word ≠ .symbol .leftParen).map Lexeme.pos

theorem firstPos?_cons_of_ne {l : Lexeme} {row : List Lexeme} (h : l.word ≠ .symbol .leftParen) :
    firstPos? (l :: row) = some l.pos := by
  rw [firstPos?, List.find?_cons_of_pos (by simpa using h)]
  rfl

theorem firstPos?_cons_of_eq {l : Lexeme} {row : List Lexeme} (h : l.word = .symbol .leftParen) :
    firstPos? (l :: row) = firstPos? row := by
  rw [firstPos?, List.find?_cons_of_neg (by simpa using h)]
  rfl

theorem atom?_spec {w : Word} {pos : Position} {e : Expr} (h : w.atom? pos = some e) :
    w ≠ .symbol .leftParen ∧ e.pos = pos ∧ e.nodes = [e] := by
  unfold Word.atom? at h
  split at h <;> cases h <;> exact ⟨by simp, rfl, rfl⟩

/-- A suffix puts what stands on its left at the same position. -/
theorem DerivesSuffixed.pos_eq {n : Nat} {row rest : List Lexeme} {e e' : Expr} {s : Suffix}
    (h : DerivesSuffixed n e s row e' rest) : e'.pos = e.pos := by
  cases h <;> rfl

theorem DerivesJoined.pos_eq {n : Nat} {row rest : List Lexeme} {lhs e : Expr} {power : Power}
    {c : Connective} (h : DerivesJoined n lhs power c row e rest) : e.pos = lhs.pos := by
  cases h <;> rfl

mutual

theorem DerivesSuffixes.pos_eq {n : Nat} {row rest : List Lexeme} {e e' : Expr} :
    DerivesSuffixes n e row e' rest → e'.pos = e.pos
  | .done _ _ => rfl
  | .update _ _ _ => rfl
  | .more _ hone hmore => hmore.pos_eq.trans hone.pos_eq

theorem DerivesOperators.pos_eq {n least : Nat} {row rest : List Lexeme} {lhs e : Expr} :
    DerivesOperators n least lhs row e rest → e.pos = lhs.pos
  | .done _ => rfl
  | .more _ hone hmore => hmore.pos_eq.trans hone.pos_eq

/-- **An expression stands where its first lexeme other than an opening parenthesis does.** -/
theorem DerivesExpr.firstPos? {n least : Nat} {row rest : List Lexeme} {e : Expr} :
    DerivesExpr n least row e rest → firstPos? row = some e.pos
  | .mk hlhs hops => by rw [hops.pos_eq, hlhs.firstPos?]

theorem DerivesOperand.firstPos? {n : Nat} {row rest : List Lexeme} {e : Expr} :
    DerivesOperand n row e rest → firstPos? row = some e.pos
  | .update hop _ _ => firstPos?_cons_of_ne fun h => by rw [h] at hop; cases hop
  | .unary hop _ => firstPos?_cons_of_ne fun h => by rw [h] at hop; cases hop
  | .primary he hsuffixes => by rw [hsuffixes.pos_eq, he.firstPos?]

theorem DerivesPrimary.firstPos? {n : Nat} {row rest : List Lexeme} {e : Expr} :
    DerivesPrimary n row e rest → firstPos? row = some e.pos
  | .atom h => by rw [(atom?_spec h).2.1, firstPos?_cons_of_ne (atom?_spec h).1]
  | .group hopen he _ => by rw [firstPos?_cons_of_eq hopen, he.firstPos?]
  | .array hopen _ => firstPos?_cons_of_ne (by rw [hopen]; decide)
  | .object hopen _ => firstPos?_cons_of_ne (by rw [hopen]; decide)

end

/-! ## Segments -/

/-- The row `rest'` stops an expression where `rest` does: it is empty or begins with the same
    lexeme. -/
def Stops (rest rest' : List Lexeme) : Prop := rest' = [] ∨ rest'.head? = rest.head?

namespace Stops

variable {rest rest' : List Lexeme}

theorem nil : Stops rest [] := Or.inl rfl

theorem cons {l : Lexeme} : Stops (l :: rest) (l :: rest') := Or.inr rfl

theorem append {seg : List Lexeme} (h : Stops rest rest') : Stops (seg ++ rest) (seg ++ rest') := by
  cases seg with
  | nil => exact h
  | cons l seg => exact cons

theorem next?_ne {w : Word} (h : Stops rest rest') (hw : next? rest ≠ some w) :
    next? rest' ≠ some w := by
  rcases h with rfl | h
  · simp
  · rwa [next?, h]

theorem bind_eq_none {α : Type} {f : Word → Option α} (h : Stops rest rest')
    (hf : (next? rest).bind f = none) : (next? rest').bind f = none := by
  rcases h with rfl | h
  · rfl
  · rwa [next?, h]

theorem update? (h : Stops rest rest')
    (hrest : (next? rest).bind Word.update? = none ∨ breaks rest = true) :
    (next? rest').bind Word.update? = none ∨ breaks rest' = true := by
  rcases h with rfl | h
  · exact Or.inl rfl
  · rwa [next?, breaks, h]

end Stops

/-- What `D` says of `row` and the rest behind it holds of a segment of the row in front of
    anything that stops it as the rest does. -/
def Cuts (D : List Lexeme → List Lexeme → Prop) (row rest : List Lexeme) : Prop :=
  ∃ seg, row = seg ++ rest ∧ ∀ rest', Stops rest rest' → D (seg ++ rest') rest'

namespace Cuts

variable {D D' D'' : List Lexeme → List Lexeme → Prop} {l r : Lexeme} {row mid rest : List Lexeme}

theorem suffix (h : Cuts D row rest) : rest <:+ row := by
  obtain ⟨seg, rfl, -⟩ := h
  exact List.suffix_append _ _

/-- Nothing is taken. -/
theorem here (h : ∀ {row'}, Stops row row' → D row' row') : Cuts D row row :=
  ⟨[], rfl, fun _ hstop => h hstop⟩

theorem imp (h : Cuts D row rest) (himp : ∀ {a b}, D a b → D' a b) : Cuts D' row rest := by
  obtain ⟨seg, hrow, hcut⟩ := h
  exact ⟨seg, hrow, fun rest' hstop => himp (hcut rest' hstop)⟩

/-- One lexeme more in front. -/
theorem cons (h : Cuts D row rest) (himp : ∀ {a b}, D a b → D' (l :: a) b) :
    Cuts D' (l :: row) rest := by
  obtain ⟨seg, rfl, hcut⟩ := h
  exact ⟨l :: seg, rfl, fun rest' hstop => himp (hcut rest' hstop)⟩

/-- One lexeme alone. -/
theorem single (h : ∀ {row'}, Stops row row' → D (l :: row') row') : Cuts D (l :: row) row :=
  ⟨[l], rfl, fun _ hstop => h hstop⟩

/-- The lexeme behind is taken too; a row that is cut before it begins as it did. -/
theorem close (h : Cuts D row (r :: rest))
    (himp : ∀ {a b}, next? a = next? row → D a (r :: b) → D' a b) : Cuts D' row rest := by
  obtain ⟨seg, rfl, hcut⟩ := h
  refine ⟨seg ++ [r], by simp, fun rest' _ => ?_⟩
  rw [List.append_assoc]
  refine himp ?_ (hcut _ .cons)
  cases seg <;> rfl

/-- One part behind the other. -/
theorem trans (h : Cuts D row mid) (hmid : Cuts D' mid rest)
    (himp : ∀ {a b c}, D a b → D' b c → D'' a c) : Cuts D'' row rest := by
  obtain ⟨seg, rfl, hcut⟩ := h
  obtain ⟨seg', rfl, hcut'⟩ := hmid
  refine ⟨seg ++ seg', by simp, fun rest' hstop => ?_⟩
  rw [List.append_assoc]
  exact himp (hcut _ hstop.append) (hcut' rest' hstop)

end Cuts

mutual

/-- An expression has a segment of its own. -/
theorem DerivesExpr.cuts {n least : Nat} {row rest : List Lexeme} {e : Expr} :
    DerivesExpr n least row e rest → Cuts (DerivesExpr n least · e ·) row rest
  | .mk hlhs hops => hlhs.cuts.trans hops.cuts .mk

theorem DerivesOperand.cuts {n : Nat} {row rest : List Lexeme} {e : Expr} :
    DerivesOperand n row e rest → Cuts (DerivesOperand n · e ·) row rest
  | .update hop he htarget => he.cuts.cons (.update hop · htarget)
  | .unary hop he => he.cuts.cons (.unary hop)
  | .primary he hsuffixes => he.cuts.trans hsuffixes.cuts .primary

theorem DerivesPrimary.cuts {n : Nat} {row rest : List Lexeme} {e : Expr} :
    DerivesPrimary n row e rest → Cuts (DerivesPrimary n · e ·) row rest
  | .atom h => .single fun _ => .atom h
  | .group hopen he hclose =>
    (he.cuts.close fun _ h => h).cons (D := fun a b => DerivesExpr _ _ a _ (_ :: b))
      fun h => .group hopen h hclose
  | .array hopen hitems => hitems.cuts.cons (.array hopen)
  | .object hopen hmembers => hmembers.cuts.cons (.object hopen)

theorem DerivesSuffixes.cuts {n : Nat} {row rest : List Lexeme} {e e' : Expr} :
    DerivesSuffixes n e row e' rest → Cuts (DerivesSuffixes n e · e' ·) row rest
  | .done hsuffix hupdate =>
    .here fun hstop => .done (hstop.bind_eq_none hsuffix) (hstop.update? hupdate)
  | .update hop hline htarget => .single fun _ => .update hop hline htarget
  | .more hs hone hmore =>
    (hone.cuts.trans hmore.cuts fun h h' => ⟨_, h, h'⟩).cons
      (D := fun a b => ∃ mid, DerivesSuffixed _ _ _ a _ mid ∧ DerivesSuffixes _ _ mid _ b)
      fun ⟨_, h, h'⟩ => .more hs h h'

theorem DerivesSuffixed.cuts {n : Nat} {row rest : List Lexeme} {e e' : Expr} {s : Suffix} :
    DerivesSuffixed n e s row e' rest → Cuts (DerivesSuffixed n e s · e' ·) row rest
  | .member h => .single fun _ => .member h
  | .index hkey hclose => hkey.cuts.close fun _ h => .index h hclose
  | .call hargs => hargs.cuts.imp .call

theorem DerivesOperators.cuts {n least : Nat} {row rest : List Lexeme} {lhs e : Expr} :
    DerivesOperators n least lhs row e rest → Cuts (DerivesOperators n least lhs · e ·) row rest
  | .done h => .here fun hstop => .done (hstop.bind_eq_none h)
  | .more hc hone hmore =>
    (hone.cuts.trans hmore.cuts fun h h' => ⟨_, h, h'⟩).cons
      (D := fun a b => ∃ mid, DerivesJoined _ _ _ _ a _ mid ∧ DerivesOperators _ _ _ mid _ b)
      fun ⟨_, h, h'⟩ => .more hc h h'

theorem DerivesJoined.cuts {n : Nat} {row rest : List Lexeme} {lhs e : Expr} {power : Power}
    {c : Connective} :
    DerivesJoined n lhs power c row e rest → Cuts (DerivesJoined n lhs power c · e ·) row rest
  | .binary hrhs => hrhs.cuts.imp .binary
  | .logical hrhs => hrhs.cuts.imp .logical
  | .assign htarget hrhs => hrhs.cuts.imp (.assign htarget)
  | .conditional htrue hcolon hfalse =>
    (htrue.cuts.close fun _ h => h).trans (D := fun a b => DerivesExpr _ _ a _ (_ :: b)) hfalse.cuts
      fun h h' => .conditional h hcolon h'

theorem DerivesItems.cuts {n : Nat} {close : Symbol} {row rest : List Lexeme} {xs : List Expr} :
    DerivesItems n close row xs rest → Cuts (DerivesItems n close · xs ·) row rest
  | .nil hclose => .single fun _ => .nil hclose
  | .last hopen hx hcomma hclose =>
    hx.cuts.close fun hnext h => .last (hnext ▸ hopen) h hcomma hclose
  | .cons hopen hx hcomma hothers =>
    (hx.cuts.close fun hnext h => ⟨hnext, h⟩).trans
      (D := fun a b => next? a = next? _ ∧ DerivesExpr _ _ a _ (_ :: b)) hothers.cuts
      fun h h' => .cons (h.1 ▸ hopen) h.2 hcomma h'

theorem DerivesMembers.cuts {n : Nat} {row rest : List Lexeme} {xs : List (String × Expr)} :
    DerivesMembers n row xs rest → Cuts (DerivesMembers n · xs ·) row rest
  | .nil hclose => .single fun _ => .nil hclose
  | .last hx hclose => hx.cuts.close fun _ h => .last h hclose
  | .cons hx hcomma hothers =>
    (hx.cuts.close fun _ h => h).trans (D := fun a b => DerivesMember _ a _ (_ :: b)) hothers.cuts
      fun h h' => .cons h hcomma h'

theorem DerivesMember.cuts {n : Nat} {row rest : List Lexeme} {x : String × Expr} :
    DerivesMember n row x rest → Cuts (DerivesMember n · x ·) row rest
  | .short hname hcolon => .single fun hstop => .short hname (hstop.next?_ne hcolon)
  | .keyed hkey hcolon he =>
    (he.cuts.cons (l := _) fun h => ⟨_, rfl, h⟩).cons
      (D := fun a b => ∃ a', a = _ :: a' ∧ DerivesExpr _ _ a' _ b)
      fun ⟨_, ha, h⟩ => ha ▸ .keyed hkey hcolon h

end

/-! ## Every expression has its segment -/

/-- Read alone, with the levels that a script has at most, the lexemes are the expression. -/
def SpelledBy (seg : List Lexeme) (e : Expr) : Prop :=
  ∃ n ≤ maxNesting, DerivesExpr n Power.any seg e []

/-- Some lexemes that stand together in the row are the expression. -/
def Spelled (whole : List Lexeme) (e : Expr) : Prop := ∃ seg, seg <:+: whole ∧ SpelledBy seg e

theorem connective?_any {w : Word} {least : Nat} {c : Power × Connective}
    (h : w.connective? least = some c) : w.connective? Power.any = some c := by
  cases w with
  | symbol s =>
    rw [Word.connective?, Option.filter_eq_some_iff] at h ⊢
    exact ⟨h.1, by simp [Power.any]⟩
  | _ => cases h

/-- Where an expression ends with its row, its operators may be weaker than what was asked for. -/
theorem DerivesOperators.toAny {n least : Nat} {row rest : List Lexeme} {lhs e : Expr} :
    DerivesOperators n least lhs row e rest → rest = [] →
      DerivesOperators n Power.any lhs row e rest
  | .done _, hrest => .done (by rw [hrest]; rfl)
  | .more hc hone hmore, hrest => .more (connective?_any hc) hone (hmore.toAny hrest)

theorem DerivesOperand.spelledBy {n : Nat} {row : List Lexeme} {e : Expr} (hn : n < maxNesting)
    (h : DerivesOperand n row e []) : SpelledBy row e :=
  ⟨n + 1, hn, .mk h (.done rfl)⟩

theorem Cuts.spelled {D : List Lexeme → List Lexeme → Prop} {whole row rest : List Lexeme}
    {e : Expr} (h : Cuts D row rest) (hrow : row <:+ whole)
    (hspelled : ∀ {seg}, D seg [] → SpelledBy seg e) : Spelled whole e := by
  obtain ⟨seg, rfl, hcut⟩ := h
  have hseg := hcut [] .nil
  rw [List.append_nil] at hseg
  exact ⟨seg, (List.prefix_append seg rest).isInfix.trans hrow.isInfix, hspelled hseg⟩

theorem DerivesOperand.spelled_self {n : Nat} {whole row rest : List Lexeme} {e : Expr}
    (hn : n < maxNesting) (hrow : row <:+ whole) (h : DerivesOperand n row e rest) :
    Spelled whole e :=
  h.cuts.spelled hrow fun hseg => hseg.spelledBy hn

theorem DerivesPrimary.spelled_self {n : Nat} {whole row rest : List Lexeme} {e : Expr}
    (hn : n < maxNesting) (hrow : row <:+ whole) (h : DerivesPrimary n row e rest) :
    Spelled whole e :=
  h.cuts.spelled hrow fun hseg =>
    (DerivesOperand.primary hseg (.done rfl (Or.inl rfl))).spelledBy hn

/-- The expression `e` stands in front of `row`, and may go on there in the way of `D`.  All that
    is in it so far is spelled, and so is any expression that it goes on as, where this ends with
    the row. -/
structure Begun (whole : List Lexeme) (D : Expr → List Lexeme → Expr → List Lexeme → Prop)
    (e : Expr) (row : List Lexeme) : Prop where
  nodes : ∀ x ∈ e.nodes, Spelled whole x
  goesOn : ∃ seg, seg ++ row <:+ whole ∧
    ∀ row' e', Stops row row' → D e row' e' [] → SpelledBy (seg ++ row') e'

namespace Begun

variable {whole row mid : List Lexeme} {D D' : Expr → List Lexeme → Expr → List Lexeme → Prop}
  {e e' : Expr} {l : Lexeme}

theorem suffix (h : Begun whole D e row) : row <:+ whole := by
  obtain ⟨seg, hseg, -⟩ := h.goesOn
  exact (List.suffix_append seg row).trans hseg

/-- The expression that goes on with no more than one lexeme. -/
theorem spelled_single (h : Begun whole D e (l :: row)) (hone : D e [l] e' []) :
    Spelled whole e' := by
  obtain ⟨seg, hseg, hgo⟩ := h.goesOn
  refine ⟨seg ++ [l], ?_, hgo _ _ .cons hone⟩
  rw [← List.singleton_append, ← List.append_assoc] at hseg
  exact (List.prefix_append _ _).isInfix.trans hseg.isInfix

/-- One suffix or operator further, the expression `e'` stands in front of what is left. -/
theorem step {D₁ : List Lexeme → List Lexeme → Prop} (h : Begun whole D e (l :: row))
    (hone : Cuts D₁ row mid)
    (hmore : ∀ {a b e''}, D₁ a b → D' e' b e'' [] → D e (l :: a) e'' [])
    (hdone : D' e' [] e' [])
    (hnodes : ∀ x ∈ e'.nodes, x = e' ∨ x ∈ e.nodes ∨ Spelled whole x) :
    Begun whole D' e' mid := by
  obtain ⟨seg, hseg, hgo⟩ := h.goesOn
  obtain ⟨seg', rfl, hcut⟩ := hone
  have hgo' : ∀ row' e'', Stops mid row' → D' e' row' e'' [] →
      SpelledBy (seg ++ l :: seg' ++ row') e'' := by
    intro row' e'' hstop h'
    rw [List.append_assoc]
    exact hgo _ _ .cons (hmore (hcut row' hstop) h')
  have hseg' : seg ++ l :: seg' ++ mid <:+ whole := by rwa [List.append_assoc]
  refine ⟨fun x hx => ?_, seg ++ l :: seg', hseg', hgo'⟩
  rcases hnodes x hx with rfl | hx | hx
  · refine ⟨seg ++ l :: seg', (List.prefix_append _ _).isInfix.trans hseg'.isInfix, ?_⟩
    have := hgo' [] _ .nil hdone
    rwa [List.append_nil] at this
  · exact h.nodes x hx
  · exact hx

end Begun

/-- An operand goes on with operators. -/
theorem DerivesOperand.begun {n least : Nat} {whole row mid : List Lexeme} {lhs : Expr}
    (hn : n < maxNesting) (hrow : row <:+ whole) (hnodes : ∀ x ∈ lhs.nodes, Spelled whole x)
    (h : DerivesOperand n row lhs mid) : Begun whole (DerivesOperators n least) lhs mid := by
  obtain ⟨seg, rfl, hcut⟩ := h.cuts
  exact ⟨hnodes, seg, hrow, fun row' e' hstop h => ⟨n + 1, hn, .mk (hcut row' hstop) (h.toAny rfl)⟩⟩

/-- What is no operator before an operand goes on with suffixes. -/
theorem DerivesPrimary.begun {n : Nat} {whole row mid : List Lexeme} {e : Expr}
    (hn : n < maxNesting) (hrow : row <:+ whole) (hnodes : ∀ x ∈ e.nodes, Spelled whole x)
    (h : DerivesPrimary n row e mid) : Begun whole (DerivesSuffixes n) e mid := by
  obtain ⟨seg, rfl, hcut⟩ := h.cuts
  exact ⟨hnodes, seg, hrow,
    fun row' e' hstop h => (DerivesOperand.primary (hcut row' hstop) h).spelledBy hn⟩

theorem forall_mem_cons_append {α : Type} {P : α → Prop} {x : α} {xs ys : List α} (hx : P x)
    (hxs : ∀ y ∈ xs, P y) (hys : ∀ y ∈ ys, P y) : ∀ y ∈ x :: (xs ++ ys), P y := by
  rw [List.forall_mem_cons, List.forall_mem_append]
  exact ⟨hx, hxs, hys⟩

section

variable {whole : List Lexeme}

mutual

/-- **Every expression in an expression is spelled by lexemes of its own.** -/
theorem DerivesExpr.spelled {n least : Nat} {row rest : List Lexeme} {e : Expr}
    (hn : n ≤ maxNesting) (hrow : row <:+ whole) :
    DerivesExpr n least row e rest → ∀ x ∈ e.nodes, Spelled whole x
  | .mk hlhs hops =>
    hops.spelled (Nat.le_of_succ_le hn) (hlhs.begun hn hrow (hlhs.spelled hn hrow))

theorem DerivesOperand.spelled {n : Nat} {row rest : List Lexeme} {e : Expr}
    (hn : n < maxNesting) (hrow : row <:+ whole) :
    DerivesOperand n row e rest → ∀ x ∈ e.nodes, Spelled whole x
  | .update hop he htarget => by
    rw [Expr.nodes, Expr.nodes_of_toPlace? htarget, List.forall_mem_cons]
    exact ⟨DerivesOperand.spelled_self hn hrow (.update hop he htarget),
      he.spelled (Nat.le_of_lt hn) ((List.suffix_cons _ _).trans hrow)⟩
  | .unary hop he => by
    rw [Expr.nodes, List.forall_mem_cons]
    exact ⟨DerivesOperand.spelled_self hn hrow (.unary hop he),
      he.spelled (Nat.le_of_lt hn) ((List.suffix_cons _ _).trans hrow)⟩
  | .primary he hsuffixes =>
    hsuffixes.spelled (Nat.le_of_lt hn) (he.begun hn hrow (he.spelled hn hrow))

theorem DerivesPrimary.spelled {n : Nat} {row rest : List Lexeme} {e : Expr}
    (hn : n < maxNesting) (hrow : row <:+ whole) :
    DerivesPrimary n row e rest → ∀ x ∈ e.nodes, Spelled whole x
  | .atom h => by
    rw [(atom?_spec h).2.2, List.forall_mem_singleton]
    exact (DerivesPrimary.atom h).spelled_self hn hrow
  | .group _ he _ => he.spelled (Nat.le_of_lt hn) ((List.suffix_cons _ _).trans hrow)
  | .array hopen hitems => by
    rw [Expr.nodes, List.forall_mem_cons]
    exact ⟨(DerivesPrimary.array hopen hitems).spelled_self hn hrow,
      hitems.spelled (Nat.le_of_lt hn) ((List.suffix_cons _ _).trans hrow)⟩
  | .object hopen hmembers => by
    rw [Expr.nodes, List.forall_mem_cons]
    exact ⟨(DerivesPrimary.object hopen hmembers).spelled_self hn hrow,
      hmembers.spelled (Nat.le_of_lt hn) ((List.suffix_cons _ _).trans hrow)⟩

theorem DerivesSuffixes.spelled {n : Nat} {row rest : List Lexeme} {e e' : Expr}
    (hn : n ≤ maxNesting) (hbegun : Begun whole (DerivesSuffixes n) e row) :
    DerivesSuffixes n e row e' rest → ∀ x ∈ e'.nodes, Spelled whole x
  | .done _ _ => hbegun.nodes
  | .update hop hline htarget => by
    rw [Expr.nodes, Expr.nodes_of_toPlace? htarget, List.forall_mem_cons]
    exact ⟨hbegun.spelled_single (.update hop hline htarget), hbegun.nodes⟩
  | .more hs hone hmore =>
    hmore.spelled (Nat.le_of_succ_le hn) (hbegun.step hone.cuts (.more hs) (.done rfl (Or.inl rfl))
      (hone.spelled (Nat.le_of_succ_le hn) ((List.suffix_cons _ _).trans hbegun.suffix)))

theorem DerivesSuffixed.spelled {n : Nat} {row rest : List Lexeme} {e e' : Expr} {s : Suffix}
    (hn : n ≤ maxNesting) (hrow : row <:+ whole) : DerivesSuffixed n e s row e' rest →
      ∀ x ∈ e'.nodes, x = e' ∨ x ∈ e.nodes ∨ Spelled whole x
  | .member _ => by
    rw [Expr.nodes, List.forall_mem_cons]
    exact ⟨Or.inl rfl, fun x hx => Or.inr (Or.inl hx)⟩
  | .index hkey _ => by
    rw [Expr.nodes]
    exact forall_mem_cons_append (Or.inl rfl) (fun x hx => Or.inr (Or.inl hx))
      fun x hx => Or.inr (Or.inr (hkey.spelled hn hrow x hx))
  | .call hargs => by
    rw [Expr.nodes]
    exact forall_mem_cons_append (Or.inl rfl) (fun x hx => Or.inr (Or.inl hx))
      fun x hx => Or.inr (Or.inr (hargs.spelled hn hrow x hx))

theorem DerivesOperators.spelled {n least : Nat} {row rest : List Lexeme} {lhs e : Expr}
    (hn : n ≤ maxNesting) (hbegun : Begun whole (DerivesOperators n least) lhs row) :
    DerivesOperators n least lhs row e rest → ∀ x ∈ e.nodes, Spelled whole x
  | .done _ => hbegun.nodes
  | .more hc hone hmore =>
    hmore.spelled (Nat.le_of_succ_le hn) (hbegun.step hone.cuts (.more hc) (.done rfl)
      (hone.spelled (Nat.le_of_succ_le hn) ((List.suffix_cons _ _).trans hbegun.suffix)))

theorem DerivesJoined.spelled {n : Nat} {row rest : List Lexeme} {lhs e : Expr} {power : Power}
    {c : Connective} (hn : n ≤ maxNesting) (hrow : row <:+ whole) :
    DerivesJoined n lhs power c row e rest →
      ∀ x ∈ e.nodes, x = e ∨ x ∈ lhs.nodes ∨ Spelled whole x
  | .binary hrhs => by
    rw [Expr.nodes]
    exact forall_mem_cons_append (Or.inl rfl) (fun x hx => Or.inr (Or.inl hx))
      fun x hx => Or.inr (Or.inr (hrhs.spelled hn hrow x hx))
  | .logical hrhs => by
    rw [Expr.nodes]
    exact forall_mem_cons_append (Or.inl rfl) (fun x hx => Or.inr (Or.inl hx))
      fun x hx => Or.inr (Or.inr (hrhs.spelled hn hrow x hx))
  | .assign htarget hrhs => by
    rw [Expr.nodes, Expr.nodes_of_toPlace? htarget]
    exact forall_mem_cons_append (Or.inl rfl) (fun x hx => Or.inr (Or.inl hx))
      fun x hx => Or.inr (Or.inr (hrhs.spelled hn hrow x hx))
  | .conditional htrue _ hfalse => by
    have hmid := (List.suffix_cons _ _).trans (htrue.cuts.suffix.trans hrow)
    rw [Expr.nodes]
    refine forall_mem_cons_append (Or.inl rfl) (fun x hx => Or.inr (Or.inl hx)) ?_
    rw [List.forall_mem_append]
    exact ⟨fun x hx => Or.inr (Or.inr (htrue.spelled hn hrow x hx)),
      fun x hx => Or.inr (Or.inr (hfalse.spelled hn hmid x hx))⟩

theorem DerivesItems.spelled {n : Nat} {close : Symbol} {row rest : List Lexeme} {xs : List Expr}
    (hn : n ≤ maxNesting) (hrow : row <:+ whole) :
    DerivesItems n close row xs rest → ∀ x ∈ Expr.nodesItems xs, Spelled whole x
  | .nil _ => by simp [Expr.nodesItems]
  | .last _ hx _ _ => by
    rw [Expr.nodesItems, Expr.nodesItems, List.append_nil]
    exact hx.spelled hn hrow
  | .cons _ hx _ hothers => by
    rw [Expr.nodesItems, List.forall_mem_append]
    exact ⟨hx.spelled hn hrow,
      hothers.spelled hn ((List.suffix_cons _ _).trans (hx.cuts.suffix.trans hrow))⟩

theorem DerivesMembers.spelled {n : Nat} {row rest : List Lexeme} {xs : List (String × Expr)}
    (hn : n ≤ maxNesting) (hrow : row <:+ whole) :
    DerivesMembers n row xs rest → ∀ x ∈ Expr.nodesMembers xs, Spelled whole x
  | .nil _ => by simp [Expr.nodesMembers]
  | .last hx _ => by
    rw [Expr.nodesMembers, Expr.nodesMembers, List.append_nil]
    exact hx.spelled hn hrow
  | .cons hx _ hothers => by
    rw [Expr.nodesMembers, List.forall_mem_append]
    exact ⟨hx.spelled hn hrow,
      hothers.spelled hn ((List.suffix_cons _ _).trans (hx.cuts.suffix.trans hrow))⟩

theorem DerivesMember.spelled {n : Nat} {row rest : List Lexeme} {x : String × Expr}
    (hn : n ≤ maxNesting) (hrow : row <:+ whole) :
    DerivesMember n row x rest → ∀ y ∈ x.2.nodes, Spelled whole y
  | .short hname _ => by
    rw [Expr.nodes, List.forall_mem_singleton]
    refine DerivesPrimary.spelled_self (n := 0) (by decide) hrow (.atom ?_)
    rw [hname, Word.atom?]
  | .keyed _ _ he =>
    he.spelled hn (((List.suffix_cons _ _).trans (List.suffix_cons _ _)).trans hrow)

end

end


end Grammar

/-! ## Every part of a script has its lexeme -/

open Grammar in
/-- Where a part of a script stands in the row that the script is read from.  An expression is read
    from a segment of the row, which alone gives the whole expression, and stands at its first
    lexeme other than an opening parenthesis; what declares a name stands at the name, and a
    function at its first word. -/
def Node.StandsIn (row : List Lexeme) : Node → Prop
  | .expr e => ∃ seg, seg <:+: row ∧ firstPos? seg = some e.pos ∧
      ∀ last, expression last maxNesting Power.any seg = .ok (e, [])
  | .declarator x => ∃ l after, l :: after <:+ row ∧ l.word = .name x.name ∧ l.pos = x.pos ∧
      ∃ kind rest, ∀ last,
        Grammar.declarator last kind (expression last maxNesting Power.item) (l :: after) =
          .ok (x, rest)
  | .function f => ∃ l after, l :: after <:+ row ∧ l.word = .keyword .kwFunction ∧ l.pos = f.pos ∧
      ∃ (s : Surroundings) (rest : List Lexeme), ∀ last,
        statement maxNesting { s with last := last } (l :: after) =
          .ok (.function f.pos f.name f.params f.body, rest)

namespace Grammar

theorem Spelled.standsIn {whole : List Lexeme} {e : Expr} (h : Spelled whole e) :
    (Node.expr e).StandsIn whole := by
  obtain ⟨seg, hseg, n, hn, he⟩ := h
  exact ⟨seg, hseg, he.firstPos?, fun last =>
    (he.yields last maxNesting).eq_ok (Nat.not_lt.mpr hn)⟩

/-- What is left of the row is its end, and every one of the parts stands in the row. -/
structure Stand (whole rest : List Lexeme) (parts : List Node) : Prop where
  suffix : rest <:+ whole
  parts : ∀ x ∈ parts, x.StandsIn whole

namespace Stand

variable {whole mid rest : List Lexeme} {l : Lexeme} {xs ys : List Node}

theorem here (h : rest <:+ whole) : Stand whole rest [] := ⟨h, by simp⟩

/-- One lexeme further. -/
theorem tail (h : Stand whole (l :: rest) xs) : Stand whole rest xs :=
  ⟨(List.suffix_cons l rest).trans h.suffix, h.parts⟩

theorem append (h : Stand whole mid xs) (h' : Stand whole rest ys) : Stand whole rest (xs ++ ys) :=
  ⟨h'.suffix, by rw [List.forall_mem_append]; exact ⟨h.parts, h'.parts⟩⟩

theorem cons {x : Node} (hx : x.StandsIn whole) (h : Stand whole rest xs) :
    Stand whole rest (x :: xs) :=
  ⟨h.suffix, by rw [List.forall_mem_cons]; exact ⟨hx, h.parts⟩⟩

end Stand

section

variable {whole : List Lexeme}

theorem DerivesExpr.stands {n least : Nat} {row rest : List Lexeme} {e : Expr}
    (hn : n ≤ maxNesting) (hrow : row <:+ whole) (h : DerivesExpr n least row e rest) :
    Stand whole rest (e.nodes.map .expr) := by
  refine ⟨h.cuts.suffix.trans hrow, ?_⟩
  rw [List.forall_mem_map]
  exact fun x hx => (h.spelled hn hrow x hx).standsIn

theorem EndsStmt.suffix {row rest : List Lexeme} : EndsStmt row rest → rest <:+ row
  | .semicolon _ => List.suffix_cons _ _
  | .missing _ _ => List.suffix_refl _

section

variable {n : Nat} {row rest : List Lexeme}

theorem DerivesDeclarator.stands {kind : DeclKind} {x : Declarator} (hn : n ≤ maxNesting)
    (hrow : row <:+ whole) (h : DerivesDeclarator n kind row x rest) :
    Stand whole rest (.declarator x :: Expr.nodesOption x.init) := by
  have hread last := (h.yields last maxNesting).eq_ok (Nat.not_lt.mpr hn)
  cases h with
  | @valued l a row _ name e hname hassign he =>
    have he := he.stands hn (((List.suffix_cons a row).trans (List.suffix_cons l _)).trans hrow)
    exact .cons ⟨l, a :: row, hrow, hname, rfl, kind, rest, hread⟩ he
  | @bare l _ name hname _ _ =>
    exact .cons ⟨l, rest, hrow, hname, rfl, kind, rest, hread⟩
      (.here ((List.suffix_cons l rest).trans hrow))

theorem DerivesDeclarators.stands {kind : DeclKind} {xs : List Declarator} (hn : n ≤ maxNesting)
    (hrow : row <:+ whole) (h : DerivesDeclarators n kind row xs rest) :
    Stand whole rest (Declarator.nodesList xs) := by
  induction h with
  | last hx _ => exact (hx.stands hn hrow).append (.here (hx.stands hn hrow).suffix)
  | cons hx _ _ ih =>
    have hx := (hx.stands hn hrow).tail
    exact hx.append (ih hx.suffix)

theorem DerivesCondition.stands {e : Expr} (hn : n ≤ maxNesting) (hrow : row <:+ whole) :
    DerivesCondition n row e rest → Stand whole rest (e.nodes.map .expr)
  | .mk _ he _ => (he.stands hn ((List.suffix_cons _ _).trans hrow)).tail

theorem DerivesOptional.stands {stop : Symbol} {e : Option Expr} (hn : n ≤ maxNesting)
    (hrow : row <:+ whole) : DerivesOptional n stop row e rest →
      Stand whole rest (Expr.nodesOption e)
  | .none _ => .here ((List.suffix_cons _ _).trans hrow)
  | .some _ he _ => (he.stands hn hrow).tail

theorem DerivesStart.stands {start : Option LoopStart} (hn : n ≤ maxNesting)
    (hrow : row <:+ whole) : DerivesStart n row start rest →
      Stand whole rest (LoopStart.nodesOption start)
  | .none _ => .here ((List.suffix_cons _ _).trans hrow)
  | .declare _ hitems _ => (hitems.stands hn ((List.suffix_cons _ _).trans hrow)).tail
  | .expr _ _ he _ => (he.stands hn hrow).tail

theorem DerivesForHead.stands {start : Option LoopStart} {cond update : Option Expr}
    (hn : n ≤ maxNesting) (hrow : row <:+ whole) : DerivesForHead n row start cond update rest →
      Stand whole rest (LoopStart.nodesOption start ++
        (Expr.nodesOption cond ++ Expr.nodesOption update))
  | .mk _ hstart hcond hupdate =>
    have hstart := hstart.stands hn hrow
    have hcond := hcond.stands hn hstart.suffix
    hstart.append (hcond.append (hupdate.stands hn hcond.suffix))

theorem DerivesParams.suffix {params : List String} (h : DerivesParams row params rest) :
    rest <:+ row := by
  induction h with
  | nil _ => exact List.suffix_cons _ _
  | last _ _ => exact (List.suffix_cons _ _).trans (List.suffix_cons _ _)
  | cons _ _ _ ih => exact ih.trans ((List.suffix_cons _ _).trans (List.suffix_cons _ _))

end

mutual

/-- Every part of a statement stands in the row that the statement is read from. -/
theorem DerivesStmt.stands {n : Nat} {s : Surroundings} {row rest : List Lexeme} {stmt : Stmt}
    (hn : n ≤ maxNesting) (hrow : row <:+ whole) :
    DerivesStmt n s row stmt rest → Stand whole rest stmt.nodes
  | .branch _ hcond htrue _ => by
    have hcond := hcond.stands (Nat.le_of_succ_le hn) ((List.suffix_cons _ _).trans hrow)
    have htrue := htrue.stands (Nat.le_of_succ_le hn) hcond.suffix
    exact hcond.append (htrue.append (.here htrue.suffix))
  | .branchElse _ hcond htrue _ hfalse => by
    have hcond := hcond.stands (Nat.le_of_succ_le hn) ((List.suffix_cons _ _).trans hrow)
    have htrue := (htrue.stands (Nat.le_of_succ_le hn) hcond.suffix).tail
    exact hcond.append (htrue.append (hfalse.stands (Nat.le_of_succ_le hn) htrue.suffix))
  | .whileLoop _ hcond hbody => by
    have hcond := hcond.stands (Nat.le_of_succ_le hn) ((List.suffix_cons _ _).trans hrow)
    exact hcond.append (hbody.stands (Nat.le_of_succ_le hn) hcond.suffix)
  | .doWhile _ hbody _ hcond hend => by
    have hbody := (hbody.stands (Nat.le_of_succ_le hn) ((List.suffix_cons _ _).trans hrow)).tail
    have hcond := hcond.stands (Nat.le_of_succ_le hn) hbody.suffix
    rcases hend with ⟨r, rfl, -⟩ | ⟨-, rfl⟩
    · exact hbody.append hcond.tail
    · exact hbody.append hcond
  | .forOf (l := l) (o := o) (k := k) (x := x) (w := w) _ _ _ _ _ hiter _ hbody => by
    have hhead : [l, o, k, x, w] ++ _ <:+ whole := hrow
    have hiter := (hiter.stands (Nat.le_of_succ_le hn)
      ((List.suffix_append _ _).trans hhead)).tail
    exact hiter.append (hbody.stands (Nat.le_of_succ_le hn) hiter.suffix)
  | .forLoop (l := l) (o := o) _ _ hhead hbody => by
    have hfor : [l, o] ++ _ <:+ whole := hrow
    have hhead := hhead.stands (Nat.le_of_succ_le hn) ((List.suffix_append _ _).trans hfor)
    have hbody := hbody.stands (Nat.le_of_succ_le hn) hhead.suffix
    simpa only [Stmt.nodes, List.append_assoc] using hhead.append hbody
  | .function (l := l) (x := x) (o := o) hword hname hopen hparams hbrace hbody => by
    have hread last :=
      ((DerivesStmt.function (s := s) hword hname hopen hparams hbrace hbody).yields
        last maxNesting).eq_ok (Nat.not_lt.mpr hn)
    have hhead : [l, x, o] ++ _ <:+ whole := hrow
    have hmid := (List.suffix_cons _ _).trans
      (hparams.suffix.trans ((List.suffix_append _ _).trans hhead))
    exact .cons ⟨l, _, hrow, hword, rfl, s, rest, hread⟩
      (hbody.stands (Nat.le_of_succ_le hn) hmid)
  | .breakLoop _ _ hend | .continueLoop _ _ hend | .retNone _ _ hend =>
    .here (hend.suffix.trans ((List.suffix_cons _ _).trans hrow))
  | .retSome _ _ _ he hend =>
    have he := he.stands (Nat.le_of_succ_le hn) ((List.suffix_cons _ _).trans hrow)
    ⟨hend.suffix.trans he.suffix, he.parts⟩
  | .block _ hbody => hbody.stands (Nat.le_of_succ_le hn) ((List.suffix_cons _ _).trans hrow)
  | .empty _ => .here ((List.suffix_cons _ _).trans hrow)
  | .declare _ hitems hend =>
    have hitems := hitems.stands (Nat.le_of_succ_le hn) ((List.suffix_cons _ _).trans hrow)
    ⟨hend.suffix.trans hitems.suffix, hitems.parts⟩
  | .expr _ he hend =>
    have he := he.stands (Nat.le_of_succ_le hn) hrow
    ⟨hend.suffix.trans he.suffix, he.parts⟩

theorem DerivesBlock.stands {n : Nat} {s : Surroundings} {row rest : List Lexeme}
    {body : List Stmt} (hn : n ≤ maxNesting) (hrow : row <:+ whole) :
    DerivesBlock n s row body rest → Stand whole rest (Stmt.nodesList body)
  | .nil _ => .here ((List.suffix_cons _ _).trans hrow)
  | .cons _ hx hothers => by
    have hx := hx.stands hn hrow
    exact hx.append (hothers.stands hn hx.suffix)

end

theorem DerivesProgram.stands {s : Surroundings} {row : List Lexeme} {body : List Stmt}
    (hrow : row <:+ whole) (h : DerivesProgram s row body) :
    ∀ x ∈ Stmt.nodesList body, x.StandsIn whole := by
  induction h with
  | nil => simp [Stmt.nodesList]
  | cons hx _ ih =>
    have hx := hx.stands (Nat.le_refl _) hrow
    rw [Stmt.nodesList, List.forall_mem_append]
    exact ⟨hx.parts, ih hx.suffix⟩

end

end Grammar

/-- Every part of an accepted script stands at a lexeme of the script. -/
theorem parse_stands {script : String} {body : List Stmt} (h : parse script = .ok body) :
    ∃ row, lexemes script = .ok row ∧ ∀ x ∈ Stmt.nodesList body, x.StandsIn row := by
  obtain ⟨row, hrow, hprogram⟩ := (parse_eq_ok_iff .start).mp h
  exact ⟨row, lexemes_eq_ok_iff.mpr hrow, hprogram.stands (List.suffix_refl _)⟩

end Stencil.Script
