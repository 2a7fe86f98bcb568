/-
  What is derived from a row is derived from a longer one.

  A row may stand elsewhere in a text, so that its positions are others, and more lexemes may
  follow it on a later line.  What is derived from it stays the same up to the positions, as long
  as the first of those lexemes can only begin a statement (`Separate`): it must not go on with an
  expression, with a declaration or with an `if` that the row leaves open.
-/
import Stencil.Proofs.Script.Grammar.Derivation
import Stencil.Proofs.Script.Lexemes.Rows
import Stencil.Proofs.Script.Tree.Positions

namespace Stencil.Script.Grammar

/-! ## Rows that follow -/

/-- Whether a word begins a statement and cannot go on with the one before.  An opening
    parenthesis or bracket, a plus, a minus and a semicolon can do both. -/
def startsAfresh : Word → Bool
  | .symbol s => s = .leftBrace || s = .bang || s = .plusPlus || s = .minusMinus
  | .keyword k => k ≠ .kwElse
  | _ => true

/-- A row that nothing before it runs on into: it is empty, or its first word stands on a new line
    and starts afresh. -/
structure Separate (k : List Lexeme) : Prop where
  afresh : ∀ w, next? k = some w → startsAfresh w = true
  breaks_of_ne : k ≠ [] → breaks k = true

theorem Separate.nil : Separate [] := ⟨fun _ h => by simp at h, fun h => absurd rfl h⟩

theorem suffix?_of_startsAfresh {w : Word} (h : startsAfresh w = true) : Word.suffix? w = none := by
  unfold Word.suffix?
  split <;> first | (simp [startsAfresh] at h; done) | rfl

theorem connective?_of_startsAfresh {w : Word} (h : startsAfresh w = true) (least : Nat) :
    w.connective? least = none := by
  cases w with
  | symbol s =>
    simp only [startsAfresh, Bool.or_eq_true, decide_eq_true_eq] at h
    rcases h with ((rfl | rfl) | rfl) | rfl <;> rfl
  | _ => rfl

/-- The symbols that a row asks for where it stops do not start a statement. -/
theorem ne_symbol_of_startsAfresh {s : Symbol} (h : startsAfresh (.symbol s) = false) {w : Word}
    (hw : startsAfresh w = true) : w ≠ .symbol s := by
  rintro rfl
  rw [h] at hw
  cases hw

/-- The row moved, and what follows it. -/
def moved (f : Position → Position) (row k : List Lexeme) : List Lexeme :=
  row.map (Lexeme.shift f) ++ k

section

variable {f : Position → Position} {k : List Lexeme}

@[simp] theorem moved_nil : moved f [] k = k := rfl

@[simp] theorem moved_cons (l : Lexeme) (row : List Lexeme) :
    moved f (l :: row) k = l.shift f :: moved f row k := rfl

/-- What a row does not see ahead, it does not see in front of a separate row either. -/
theorem next?_moved_ne {row : List Lexeme} {s : Symbol} (hk : Separate k)
    (hs : startsAfresh (.symbol s) = false) (h : next? row ≠ some (.symbol s)) :
    next? (moved f row k) ≠ some (.symbol s) := by
  cases row with
  | nil => exact fun hw => ne_symbol_of_startsAfresh hs (hk.afresh _ hw) rfl
  | cons l row => exact h

theorem next?_moved_of_ne_nil {row : List Lexeme} (h : row ≠ []) :
    next? (moved f row k) = next? row := by
  cases row with
  | nil => exact absurd rfl h
  | cons l row => rfl

theorem suffix?_moved {row : List Lexeme} (hk : Separate k)
    (h : (next? row).bind Word.suffix? = none) :
    (next? (moved f row k)).bind Word.suffix? = none := by
  cases row with
  | nil =>
    rw [moved_nil]
    cases hw : next? k with
    | none => rfl
    | some w => exact suffix?_of_startsAfresh (hk.afresh w hw)
  | cons l row => exact h

theorem connective?_moved {row : List Lexeme} {least : Nat} (hk : Separate k)
    (h : (next? row).bind (Word.connective? least) = none) :
    (next? (moved f row k)).bind (Word.connective? least) = none := by
  cases row with
  | nil =>
    rw [moved_nil]
    cases hw : next? k with
    | none => rfl
    | some w => exact connective?_of_startsAfresh (hk.afresh w hw) least
  | cons l row => exact h

/-- A separate row stands on a new line, where no increment or decrement follows an operand. -/
theorem update?_moved {row : List Lexeme} (hk : Separate k)
    (h : (next? row).bind Word.update? = none ∨ breaks row = true) :
    (next? (moved f row k)).bind Word.update? = none ∨ breaks (moved f row k) = true := by
  cases row with
  | nil =>
    rw [moved_nil]
    cases k with
    | nil => exact Or.inl rfl
    | cons l k => exact Or.inr (hk.breaks_of_ne (by simp))
  | cons l row => exact h

theorem else_moved {row : List Lexeme} (hk : Separate k)
    (h : next? row ≠ some (.keyword .kwElse)) :
    next? (moved f row k) ≠ some (.keyword .kwElse) := by
  cases row with
  | nil => exact fun hw => absurd (hk.afresh _ hw) (by decide)
  | cons l row => exact h

theorem atEnd_moved {row : List Lexeme} (hk : Separate k) (h : atEnd row = true) :
    atEnd (moved f row k) = true := by
  cases row with
  | nil =>
    rw [moved_nil]
    cases k with
    | nil => rfl
    | cons l k => simp [atEnd, hk.breaks_of_ne]
  | cons l row => exact h

theorem atEnd_moved_of_false {row : List Lexeme} (h : atEnd row = false) :
    atEnd (moved f row k) = false := by
  cases row with
  | nil => cases h
  | cons l row => exact h

end

/-! ## Expressions -/

variable {f : Position → Position} {k : List Lexeme}

theorem atom?_shift {l : Lexeme} {e : Expr} (h : l.word.atom? l.pos = some e) :
    (l.shift f).word.atom? (l.shift f).pos = some (e.mapPos f) := by
  rw [Lexeme.word_shift, Lexeme.pos_shift]
  unfold Word.atom? at h ⊢
  split at h
  all_goals first | (cases h; rfl) | cases h

mutual

theorem DerivesExpr.extend {n least : Nat} {row rest : List Lexeme} {e : Expr} (hk : Separate k) :
    DerivesExpr n least row e rest →
      DerivesExpr n least (moved f row k) (e.mapPos f) (moved f rest k)
  | .mk hlhs hops => .mk (hlhs.extend hk) (hops.extend hk)

theorem DerivesOperand.extend {n : Nat} {row rest : List Lexeme} {e : Expr} (hk : Separate k) :
    DerivesOperand n row e rest → DerivesOperand n (moved f row k) (e.mapPos f) (moved f rest k)
  | .update (l := l) hop he htarget =>
    .update (l := l.shift f) hop (he.extend hk) (Expr.toPlace?_mapPos_of_some f htarget)
  | .unary (l := l) hop he => .unary (l := l.shift f) hop (he.extend hk)
  | .primary he hsuffixes => .primary (he.extend hk) (hsuffixes.extend hk)

theorem DerivesPrimary.extend {n : Nat} {row rest : List Lexeme} {e : Expr} (hk : Separate k) :
    DerivesPrimary n row e rest → DerivesPrimary n (moved f row k) (e.mapPos f) (moved f rest k)
  | .atom h => .atom (atom?_shift h)
  | .group (l := l) (r := r) hopen he hclose =>
    .group (l := l.shift f) (r := r.shift f) hopen (he.extend hk) hclose
  | .array (l := l) hopen hitems => .array (l := l.shift f) hopen (hitems.extend hk)
  | .object (l := l) hopen hmembers => .object (l := l.shift f) hopen (hmembers.extend hk)

theorem DerivesSuffixes.extend {n : Nat} {row rest : List Lexeme} {e e' : Expr}
    (hk : Separate k) : DerivesSuffixes n e row e' rest →
      DerivesSuffixes n (e.mapPos f) (moved f row k) (e'.mapPos f) (moved f rest k)
  | .done hsuffix hupdate => .done (suffix?_moved hk hsuffix) (update?_moved hk hupdate)
  | .update (e := e) (l := l) hop hline htarget => by
    rw [Expr.mapPos, ← Expr.pos_mapPos f e]
    exact .update (l := l.shift f) hop hline (Expr.toPlace?_mapPos_of_some f htarget)
  | .more (l := l) hs hone hmore => .more (l := l.shift f) hs (hone.extend hk) (hmore.extend hk)

theorem DerivesSuffixed.extend {n : Nat} {row rest : List Lexeme} {e e' : Expr} {s : Suffix}
    (hk : Separate k) : DerivesSuffixed n e s row e' rest →
      DerivesSuffixed n (e.mapPos f) s (moved f row k) (e'.mapPos f) (moved f rest k)
  | .member (l := l) h => by
    rw [Expr.mapPos, ← Expr.pos_mapPos f e]
    exact .member (l := l.shift f) h
  | .index (r := r) hkey hclose => by
    rw [Expr.mapPos, ← Expr.pos_mapPos f e]
    exact .index (r := r.shift f) (hkey.extend hk) hclose
  | .call hargs => by
    rw [Expr.mapPos, ← Expr.pos_mapPos f e]
    exact .call (hargs.extend hk)

theorem DerivesOperators.extend {n least : Nat} {row rest : List Lexeme} {lhs e : Expr}
    (hk : Separate k) : DerivesOperators n least lhs row e rest →
      DerivesOperators n least (lhs.mapPos f) (moved f row k) (e.mapPos f) (moved f rest k)
  | .done h => .done (connective?_moved hk h)
  | .more (l := l) hc hone hmore => .more (l := l.shift f) hc (hone.extend hk) (hmore.extend hk)

theorem DerivesJoined.extend {n : Nat} {row rest : List Lexeme} {lhs e : Expr} {power : Power}
    {c : Connective} (hk : Separate k) : DerivesJoined n lhs power c row e rest →
      DerivesJoined n (lhs.mapPos f) power c (moved f row k) (e.mapPos f) (moved f rest k)
  | .binary hrhs => by
    rw [Expr.mapPos, ← Expr.pos_mapPos f lhs]
    exact .binary (hrhs.extend hk)
  | .logical hrhs => by
    rw [Expr.mapPos, ← Expr.pos_mapPos f lhs]
    exact .logical (hrhs.extend hk)
  | .assign htarget hrhs => by
    rw [Expr.mapPos, ← Expr.pos_mapPos f lhs]
    exact .assign (Expr.toPlace?_mapPos_of_some f htarget) (hrhs.extend hk)
  | .conditional (l := l) htrue hcolon hfalse => by
    rw [Expr.mapPos, ← Expr.pos_mapPos f lhs]
    exact .conditional (l := l.shift f) (htrue.extend hk) hcolon (hfalse.extend hk)

theorem DerivesItems.extend {n : Nat} {close : Symbol} {row rest : List Lexeme} {xs : List Expr}
    (hk : Separate k) : DerivesItems n close row xs rest →
      DerivesItems n close (moved f row k) (Expr.mapPosItems f xs) (moved f rest k)
  | .nil (l := l) hclose => .nil (l := l.shift f) hclose
  | .last (r := r) hopen hx hcomma hclose =>
    .last (r := r.shift f) (by rwa [next?_moved_of_ne_nil hx.ne_nil]) (hx.extend hk) hcomma hclose
  | .cons (c := c) hopen hx hcomma hothers =>
    .cons (c := c.shift f) (by rwa [next?_moved_of_ne_nil hx.ne_nil]) (hx.extend hk) hcomma
      (hothers.extend hk)

theorem DerivesMembers.extend {n : Nat} {row rest : List Lexeme} {xs : List (String × Expr)}
    (hk : Separate k) : DerivesMembers n row xs rest →
      DerivesMembers n (moved f row k) (Expr.mapPosMembers f xs) (moved f rest k)
  | .nil (l := l) hclose => .nil (l := l.shift f) hclose
  | .last (r := r) hx hclose => .last (r := r.shift f) (hx.extend hk) hclose
  | .cons (c := c) hx hcomma hothers =>
    .cons (c := c.shift f) (hx.extend hk) hcomma (hothers.extend hk)

theorem DerivesMember.extend {n : Nat} {row rest : List Lexeme} {x : String × Expr}
    (hk : Separate k) : DerivesMember n row x rest →
      DerivesMember n (moved f row k) (x.1, x.2.mapPos f) (moved f rest k)
  | .short (l := l) hname hcolon =>
    .short (l := l.shift f) hname (next?_moved_ne hk rfl hcolon)
  | .keyed (l := l) (c := c) hkey hcolon he =>
    .keyed (l := l.shift f) (c := c.shift f) hkey hcolon (he.extend hk)

end

/-! ## Parts of statements -/

theorem EndsStmt.extend {row rest : List Lexeme} (hk : Separate k) :
    EndsStmt row rest → EndsStmt (moved f row k) (moved f rest k)
  | .semicolon (l := l) h => .semicolon (l := l.shift f) h
  | .missing hno h => .missing (next?_moved_ne hk rfl hno) (atEnd_moved hk h)

section

variable {n : Nat} {row rest : List Lexeme}

theorem DerivesDeclarator.extend {kind : DeclKind} {x : Declarator} (hk : Separate k) :
    DerivesDeclarator n kind row x rest →
      DerivesDeclarator n kind (moved f row k) (x.mapPos f) (moved f rest k)
  | .valued (l := l) (a := a) hname hassign he =>
    .valued (l := l.shift f) (a := a.shift f) hname hassign (he.extend hk)
  | .bare (l := l) hname hassign hkind =>
    .bare (l := l.shift f) hname (next?_moved_ne hk rfl hassign) hkind

theorem DerivesDeclarators.extend {kind : DeclKind} {xs : List Declarator} (hk : Separate k)
    (h : DerivesDeclarators n kind row xs rest) :
    DerivesDeclarators n kind (moved f row k) (xs.map (Declarator.mapPos f)) (moved f rest k) := by
  induction h with
  | last hx hcomma => exact .last (hx.extend hk) (next?_moved_ne hk rfl hcomma)
  | @cons c _ _ _ _ _ hx hcomma _ ih =>
    exact .cons (c := c.shift f) (hx.extend hk) hcomma ih

theorem DerivesCondition.extend {e : Expr} (hk : Separate k) :
    DerivesCondition n row e rest →
      DerivesCondition n (moved f row k) (e.mapPos f) (moved f rest k)
  | .mk (l := l) (r := r) hopen he hclose =>
    .mk (l := l.shift f) (r := r.shift f) hopen (he.extend hk) hclose

theorem DerivesOptional.extend {stop : Symbol} {e : Option Expr} (hk : Separate k) :
    DerivesOptional n stop row e rest →
      DerivesOptional n stop (moved f row k) (e.map (Expr.mapPos f)) (moved f rest k)
  | .none (l := l) hstop => .none (l := l.shift f) hstop
  | .some (r := r) hopen he hstop =>
    .some (r := r.shift f) (by rwa [next?_moved_of_ne_nil he.ne_nil]) (he.extend hk) hstop

theorem DerivesStart.extend {start : Option LoopStart} (hk : Separate k) :
    DerivesStart n row start rest →
      DerivesStart n (moved f row k) (start.map (LoopStart.mapPos f)) (moved f rest k)
  | .none (l := l) hstop => .none (l := l.shift f) hstop
  | .declare (l := l) (r := r) hkind hitems hstop =>
    .declare (l := l.shift f) (r := r.shift f) hkind (hitems.extend hk) hstop
  | .expr (r := r) hopen hno he hstop =>
    .expr (r := r.shift f) (by rwa [next?_moved_of_ne_nil he.ne_nil])
      (by rwa [next?_moved_of_ne_nil he.ne_nil]) (he.extend hk) hstop

/-- The head of a loop over items is told by three words. -/
theorem forOfHead?_moved (hlen : 2 < row.length) :
    forOfHead? ((moved f row k).map Lexeme.word) = forOfHead? (row.map Lexeme.word) := by
  match row with
  | l :: x :: w :: row =>
    simp only [moved_cons, List.map_cons, Lexeme.word_shift]
    cases x.word with
    | name name =>
      cases w.word with
      | name of =>
        by_cases h : of = "of"
        · rw [h, forOfHead?, forOfHead?]
        · simp [forOfHead?, h]
      | _ => rfl
    | _ => rfl

theorem DerivesForHead.extend {start : Option LoopStart} {cond update : Option Expr}
    (hk : Separate k) (h : DerivesForHead n row start cond update rest) :
    DerivesForHead n (moved f row k) (start.map (LoopStart.mapPos f)) (cond.map (Expr.mapPos f))
      (update.map (Expr.mapPos f)) (moved f rest k) := by
  have hlen := h.length_lt
  obtain ⟨hof, hstart, hcond, hupdate⟩ := h
  refine .mk ?_ (hstart.extend hk) (hcond.extend hk) (hupdate.extend hk)
  rwa [forOfHead?_moved (by omega)]

theorem DerivesParams.extend {params : List String} (h : DerivesParams row params rest) :
    DerivesParams (moved f row k) params (moved f rest k) := by
  induction h with
  | @nil l _ hclose => exact .nil (l := l.shift f) hclose
  | @last l r _ _ hname hclose => exact .last (l := l.shift f) (r := r.shift f) hname hclose
  | @cons l c _ _ _ _ hname hcomma _ ih =>
    exact .cons (l := l.shift f) (c := c.shift f) hname hcomma ih

end

/-! ## Statements -/

mutual

theorem DerivesStmt.extend {n : Nat} {s : Surroundings} {row rest : List Lexeme} {stmt : Stmt}
    (hk : Separate k) : DerivesStmt n s row stmt rest →
      DerivesStmt n s (moved f row k) (stmt.mapPos f) (moved f rest k)
  | .branch (l := l) hword hcond htrue helse =>
    .branch (l := l.shift f) hword (hcond.extend hk) (htrue.extend hk)
      (else_moved hk helse)
  | .branchElse (l := l) (e := e) hword hcond htrue helse hfalse =>
    .branchElse (l := l.shift f) (e := e.shift f) hword (hcond.extend hk) (htrue.extend hk) helse
      (hfalse.extend hk)
  | .whileLoop (l := l) hword hcond hbody =>
    .whileLoop (l := l.shift f) hword (hcond.extend hk) (hbody.extend hk)
  | .doWhile (l := l) (w := w) hword hbody hwhile hcond hend => by
    refine .doWhile (l := l.shift f) (w := w.shift f) hword (hbody.extend hk) hwhile
      (hcond.extend hk) ?_
    rcases hend with ⟨r, hrest, hr⟩ | ⟨hno, hrest⟩
    · exact Or.inl ⟨r.shift f, by rw [hrest, moved_cons], hr⟩
    · exact Or.inr ⟨next?_moved_ne hk rfl hno, by rw [hrest]⟩
  | .forOf (l := l) (o := o) (k := k') (x := x) (w := w) (r := r) hword hopen hkind hname hof hiter
      hclose hbody =>
    .forOf (l := l.shift f) (o := o.shift f) (k := k'.shift f) (x := x.shift f) (w := w.shift f)
      (r := r.shift f) hword hopen hkind hname hof (hiter.extend hk) hclose (hbody.extend hk)
  | .forLoop (l := l) (o := o) hword hopen hhead hbody =>
    .forLoop (l := l.shift f) (o := o.shift f) hword hopen (hhead.extend hk) (hbody.extend hk)
  | .function (l := l) (x := x) (o := o) (b := b) hword hname hopen hparams hbrace hbody =>
    .function (l := l.shift f) (x := x.shift f) (o := o.shift f) (b := b.shift f) hword hname hopen
      hparams.extend hbrace (hbody.extend hk)
  | .breakLoop (l := l) hword hloop hend =>
    .breakLoop (l := l.shift f) hword hloop (hend.extend hk)
  | .continueLoop (l := l) hword hloop hend =>
    .continueLoop (l := l.shift f) hword hloop (hend.extend hk)
  | .retNone (l := l) hword hfunction hend =>
    .retNone (l := l.shift f) hword hfunction (hend.extend hk)
  | .retSome (l := l) hword hfunction hvalue he hend =>
    .retSome (l := l.shift f) hword hfunction (atEnd_moved_of_false hvalue) (he.extend hk)
      (hend.extend hk)
  | .block (l := l) hword hbody => .block (l := l.shift f) hword (hbody.extend hk)
  | .empty (l := l) hword => .empty (l := l.shift f) hword
  | .declare (l := l) hkind hitems hend =>
    .declare (l := l.shift f) hkind (hitems.extend hk) (hend.extend hk)
  | .expr (l := l) hbegins he hend =>
    .expr (l := l.shift f) hbegins (he.extend hk) (hend.extend hk)

theorem DerivesBlock.extend {n : Nat} {s : Surroundings} {row rest : List Lexeme}
    {body : List Stmt} (hk : Separate k) : DerivesBlock n s row body rest →
      DerivesBlock n s (moved f row k) (Stmt.mapPosList f body) (moved f rest k)
  | .nil (l := l) hclose => .nil (l := l.shift f) hclose
  | .cons hopen hx hothers =>
    .cons (by rwa [next?_moved_of_ne_nil hx.ne_nil]) (hx.extend hk) (hothers.extend hk)

end

/-- Scripts one behind the other are a script, the first one moved. -/
theorem DerivesProgram.append {s : Surroundings} {row : List Lexeme} {body others : List Stmt}
    (hk : Separate k) (h : DerivesProgram s row body) (hothers : DerivesProgram s k others) :
    DerivesProgram s (moved f row k) (body.map (Stmt.mapPos f) ++ others) := by
  induction h with
  | nil => exact hothers
  | cons hx _ ih => exact .cons (hx.extend hk) ih

/-! ## The line break before a row -/

section

variable {n : Nat} {l : Lexeme} {row rest : List Lexeme} (b : Bool)

theorem DerivesPrimary.withBreak {e : Expr} (h : DerivesPrimary n (l :: row) e rest) :
    DerivesPrimary n (l.withBreak b :: row) e rest := by
  cases h with
  | atom h => exact .atom (l := l.withBreak b) h
  | group hopen he hclose => exact .group (l := l.withBreak b) hopen he hclose
  | array hopen hitems => exact .array (l := l.withBreak b) hopen hitems
  | object hopen hmembers => exact .object (l := l.withBreak b) hopen hmembers

theorem DerivesOperand.withBreak {e : Expr} (h : DerivesOperand n (l :: row) e rest) :
    DerivesOperand n (l.withBreak b :: row) e rest := by
  cases h with
  | update hop he htarget => exact .update (l := l.withBreak b) hop he htarget
  | unary hop he => exact .unary (l := l.withBreak b) hop he
  | primary he hsuffixes => exact .primary (he.withBreak b) hsuffixes

theorem DerivesExpr.withBreak {least : Nat} {e : Expr} (h : DerivesExpr n least (l :: row) e rest) :
    DerivesExpr n least (l.withBreak b :: row) e rest := by
  cases h with
  | mk hlhs hops => exact .mk (hlhs.withBreak b) hops

/-- A statement does not look for a line break before its first word. -/
theorem DerivesStmt.withBreak {s : Surroundings} {stmt : Stmt}
    (h : DerivesStmt n s (l :: row) stmt rest) :
    DerivesStmt n s (l.withBreak b :: row) stmt rest := by
  cases h with
  | branch hword hcond htrue helse => exact .branch (l := l.withBreak b) hword hcond htrue helse
  | branchElse hword hcond htrue helse hfalse =>
    exact .branchElse (l := l.withBreak b) hword hcond htrue helse hfalse
  | whileLoop hword hcond hbody => exact .whileLoop (l := l.withBreak b) hword hcond hbody
  | doWhile hword hbody hwhile hcond hend =>
    exact .doWhile (l := l.withBreak b) hword hbody hwhile hcond hend
  | forOf hword hopen hkind hname hof hiter hclose hbody =>
    exact .forOf (l := l.withBreak b) hword hopen hkind hname hof hiter hclose hbody
  | forLoop hword hopen hhead hbody =>
    exact .forLoop (l := l.withBreak b) hword hopen hhead hbody
  | function hword hname hopen hparams hbrace hbody =>
    exact .function (l := l.withBreak b) hword hname hopen hparams hbrace hbody
  | breakLoop hword hloop hend => exact .breakLoop (l := l.withBreak b) hword hloop hend
  | continueLoop hword hloop hend => exact .continueLoop (l := l.withBreak b) hword hloop hend
  | retNone hword hfunction hend => exact .retNone (l := l.withBreak b) hword hfunction hend
  | retSome hword hfunction hvalue he hend =>
    exact .retSome (l := l.withBreak b) hword hfunction hvalue he hend
  | block hword hbody => exact .block (l := l.withBreak b) hword hbody
  | empty hword => exact .empty (l := l.withBreak b) hword
  | declare hkind hitems hend => exact .declare (l := l.withBreak b) hkind hitems hend
  | expr hbegins he hend => exact .expr (l := l.withBreak b) hbegins (he.withBreak b) hend

end

/-! ## First words -/

/-- The words that begin a statement and can also go on with the one before. -/
def runsOn (w : Word) : Bool :=
  w = .symbol .leftParen || w = .symbol .leftBracket || w = .symbol .plus || w = .symbol .minus
    || w = .symbol .semicolon

section

variable {n : Nat} {l : Lexeme} {row rest : List Lexeme}

theorem DerivesOperand.startsAfresh {e : Expr} (h : DerivesOperand n (l :: row) e rest)
    (hrun : runsOn l.word = false) : startsAfresh l.word = true := by
  cases h with
  | update hop _ _ =>
    unfold Word.update? at hop
    split at hop
    · rename_i hw; rw [hw]; rfl
    · rename_i hw; rw [hw]; rfl
    · cases hop
  | unary hop _ =>
    -- a minus and a plus can also stand between two operands
    unfold Word.unary? at hop
    split at hop
    · rename_i hw; rw [hw]; rfl
    · rename_i hw; rw [hw] at hrun; cases hrun
    · rename_i hw; rw [hw] at hrun; cases hrun
    · rename_i hw; rw [hw]; rfl
    · cases hop
  | primary he _ =>
    cases he with
    | atom h =>
      unfold Word.atom? at h
      split at h
      all_goals first | (rename_i hw; rw [hw]; rfl) | cases h
    | group hopen _ _ => rw [hopen] at hrun; cases hrun
    | array hopen _ => rw [hopen] at hrun; cases hrun
    | object hopen _ => rw [hopen]; rfl

/-- A statement begins with a word that starts afresh, unless it is one that runs on. -/
theorem DerivesStmt.startsAfresh {s : Surroundings} {stmt : Stmt}
    (h : DerivesStmt n s (l :: row) stmt rest) (hrun : runsOn l.word = false) :
    startsAfresh l.word = true := by
  cases h with
  | expr _ he _ =>
    obtain ⟨hlhs, -⟩ := he
    exact hlhs.startsAfresh hrun
  | empty hword => rw [hword] at hrun; cases hrun
  | declare hkind _ _ =>
    unfold Word.declares? at hkind
    split at hkind
    all_goals first | (rename_i hw; rw [hw]; rfl) | cases hkind
  | branch hword | branchElse hword | whileLoop hword | doWhile hword | forOf hword | forLoop hword
  | function hword | breakLoop hword | continueLoop hword | retNone hword | retSome hword
  | block hword => rw [hword]; rfl

end

/-! ## Scripts behind a line break -/

theorem DerivesProgram.breakBefore {s : Surroundings} {row : List Lexeme} {body : List Stmt}
    (h : DerivesProgram s row body) : DerivesProgram s (breakBefore row) body := by
  cases h with
  | nil => exact .nil
  | @cons row _ _ _ hx hothers =>
    cases row with
    | nil => exact absurd rfl hx.ne_nil
    | cons l row => exact .cons (hx.withBreak true) hothers

/-- A script behind a line break is separate from what stands before it, unless it begins with a
    word that runs on. -/
theorem DerivesProgram.separate {s : Surroundings} {row : List Lexeme} {body : List Stmt}
    (h : DerivesProgram s row body) (hrun : ∀ w, next? row = some w → runsOn w = false)
    (hk : Separate k) : Separate (moved f (Script.breakBefore row) k) := by
  cases row with
  | nil => exact hk
  | cons l row =>
    -- the row is not empty, so its own first word decides and not that of `k`
    cases h with
    | cons hx _ =>
      refine ⟨fun w hw => ?_, fun _ => rfl⟩
      obtain rfl : l.word = w := by simpa [Script.breakBefore] using hw
      exact hx.startsAfresh (hrun _ rfl)

end Stencil.Script.Grammar
