/-
  Where the grammar refuses a script.

  `Stays P r Q` says what a reader makes of a row whose lexemes stand at positions in `P`: either
  it reads something with `Q` and leaves such a row, or it raises a fault of syntax at a position
  in `P`.  The property passes through the combinators, so one lemma for each reader is enough.
  Its outcome for whole scripts: the fault of a script that is refused, and every position in the
  tree of one that is accepted, stand where a lexeme does (`program_stays`).
-/
import Stencil.Proofs.Script.Lexemes.Faults
import Stencil.Proofs.Script.Tree.Parts
import Stencil.Script.Grammar.Statement

namespace Stencil.Script

namespace Reader

variable {α β : Type} {P : Position → Prop}

/-- A row whose lexemes stand at positions in `P`. -/
def Over (P : Position → Prop) (row : List Lexeme) : Prop := ∀ l ∈ row, P l.pos

/-- Over a row at positions in `P`, what is read has `Q` and the rest is such a row; a fault is one
    of syntax, at a position in `P`. -/
def Stays (P : Position → Prop) (r : Reader α) (Q : α → Prop) : Prop :=
  ∀ row, Over P row →
    match r row with
    | .ok (a, rest) => Q a ∧ Over P rest
    | .error e => e.isSyntax = true ∧ P e.pos

/-! ## Sequences -/

theorem Stays.mono {r : Reader α} {Q Q' : α → Prop} (h : Stays P r Q) (hQ : ∀ a, Q a → Q' a) :
    Stays P r Q' := by
  intro row hrow
  have := h row hrow
  cases hr : r row with
  | error e =>
    rw [hr] at this
    exact this
  | ok out =>
    rw [hr] at this
    exact ⟨hQ _ this.1, this.2⟩

theorem stays_pure {a : α} {Q : α → Prop} (h : Q a) : Stays P (pure a : Reader α) Q :=
  fun _ hrow => ⟨h, hrow⟩

theorem Stays.bind {r : Reader α} {next : α → Reader β} {R : α → Prop} {Q : β → Prop}
    (hr : Stays P r R) (hnext : ∀ a, R a → Stays P (next a) Q) : Stays P (r >>= next) Q := by
  intro row hrow
  rw [bind_apply]
  have := hr row hrow
  cases h : r row with
  | error e =>
    rw [h] at this
    exact this
  | ok out =>
    obtain ⟨a, rest⟩ := out
    rw [h] at this
    exact hnext a this.1 rest this.2

theorem stays_fail {e : ScriptError} {Q : α → Prop} (hkind : e.isSyntax = true) (hpos : P e.pos) :
    Stays P (fail e : Reader α) Q := fun _ _ => ⟨hkind, hpos⟩

/-! ## Looking ahead -/

theorem stays_peek? : Stays P peek? fun _ => True := fun _ hrow => ⟨trivial, hrow⟩

theorem stays_upcoming : Stays P upcoming fun _ => True := fun _ hrow => ⟨trivial, hrow⟩

theorem stays_sees (s : Symbol) : Stays P (sees s) fun _ => True := fun _ hrow => ⟨trivial, hrow⟩

theorem stays_afterBreak : Stays P afterBreak fun _ => True := fun _ hrow => ⟨trivial, hrow⟩

/-- The place where a reader stands is that of a lexeme, also at the end of the row. -/
theorem stays_here {last : Position} (hlast : P last) : Stays P (here last) P := by
  intro row hrow
  cases row with
  | nil => exact ⟨hlast, hrow⟩
  | cons l row => exact ⟨hrow l List.mem_cons_self, hrow⟩

theorem stays_unexpected {last : Position} {expected : Expected} {Q : α → Prop} (hlast : P last) :
    Stays P (unexpected last expected : Reader α) Q := by
  intro row hrow
  cases row with
  | nil => exact ⟨rfl, hlast⟩
  | cons l row => exact ⟨rfl, hrow l List.mem_cons_self⟩

/-! ## Taking -/

theorem Over.tail {row : List Lexeme} (h : Over P row) : Over P row.tail :=
  fun l hl => h l (List.mem_of_mem_tail hl)

theorem stays_drop : Stays P drop fun _ => True := fun _ hrow => ⟨trivial, hrow.tail⟩

theorem stays_takes (s : Symbol) : Stays P (takes s) fun _ => True := by
  intro row hrow
  cases row with
  | nil => exact ⟨trivial, hrow⟩
  | cons l row =>
    by_cases hl : l.word = .symbol s
    · simpa only [takes, if_pos hl] using ⟨trivial, hrow.tail⟩
    · simpa only [takes, if_neg hl] using ⟨trivial, hrow⟩

theorem stays_takesKeyword (k : Keyword) : Stays P (takesKeyword k) fun _ => True := by
  intro row hrow
  cases row with
  | nil => exact ⟨trivial, hrow⟩
  | cons l row =>
    by_cases hl : l.word = .keyword k
    · simpa only [takesKeyword, if_pos hl] using ⟨trivial, hrow.tail⟩
    · simpa only [takesKeyword, if_neg hl] using ⟨trivial, hrow⟩

section

variable {last : Position} (hlast : P last)

include hlast

theorem stays_expect (s : Symbol) : Stays P (expect last s) fun _ => True :=
  (stays_takes s).bind fun b _ => by
    cases b with
    | true => exact stays_pure trivial
    | false => exact stays_unexpected hlast

theorem stays_expectName : Stays P (expectName last) fun _ => True := by
  intro row hrow
  match row with
  | [] => exact ⟨rfl, hlast⟩
  | ⟨.name _, _, _⟩ :: _ => exact ⟨trivial, hrow.tail⟩
  | ⟨.number _, _, _⟩ :: _ | ⟨.text _, _, _⟩ :: _ | ⟨.keyword _, _, _⟩ :: _
  | ⟨.symbol _, _, _⟩ :: _ => exact ⟨rfl, hrow _ List.mem_cons_self⟩

/-! ## Rows of items -/

theorem Stays.commaList {item : Reader α} {Q : α → Prop} (close : Symbol) (h : Stays P item Q) :
    Stays P (commaList last close item) fun xs => ∀ x ∈ xs, Q x := by
  have go : ∀ fuel, Stays P (commaList.go last close item fuel) fun xs => ∀ x ∈ xs, Q x := by
    intro fuel
    induction fuel with
    | zero => exact stays_unexpected hlast
    | succ fuel ih =>
      refine (stays_takes close).bind fun b _ => ?_
      cases b with
      | true => exact stays_pure (by simp)
      | false =>
        refine h.bind fun x hx => (stays_takes .comma).bind fun b _ => ?_
        cases b with
        | true =>
          exact ih.bind fun others hothers => stays_pure (List.forall_mem_cons.mpr ⟨hx, hothers⟩)
        | false => exact (stays_expect hlast close).bind fun _ _ => stays_pure (by simpa using hx)
  exact fun row => go _ row

theorem Stays.untilBrace {item : Reader α} {Q : α → Prop} (h : Stays P item Q) :
    Stays P (untilBrace last item) fun xs => ∀ x ∈ xs, Q x := by
  have go : ∀ fuel, Stays P (untilBrace.go last item fuel) fun xs => ∀ x ∈ xs, Q x := by
    intro fuel
    induction fuel with
    | zero => exact stays_unexpected hlast
    | succ fuel ih =>
      refine (stays_takes .rightBrace).bind fun b _ => ?_
      cases b with
      | true => exact stays_pure (by simp)
      | false =>
        refine stays_peek?.bind fun word _ => ?_
        cases word with
        | none => exact stays_unexpected hlast
        | some w =>
          exact h.bind fun x hx => ih.bind fun others hothers =>
            stays_pure (List.forall_mem_cons.mpr ⟨hx, hothers⟩)
  exact fun row => go _ row

end

theorem Stays.commaSeparated {item : Reader α} {Q : α → Prop} (h : Stays P item Q) :
    Stays P (commaSeparated item) fun xs => ∀ x ∈ xs, Q x := by
  have go : ∀ fuel, Stays P (commaSeparated.go item fuel) fun xs => ∀ x ∈ xs, Q x := by
    intro fuel
    induction fuel with
    | zero => exact h.bind fun x hx => stays_pure (by simpa using hx)
    | succ fuel ih =>
      refine h.bind fun x hx => (stays_takes .comma).bind fun b _ => ?_
      cases b with
      | true =>
        exact ih.bind fun others hothers => stays_pure (List.forall_mem_cons.mpr ⟨hx, hothers⟩)
      | false => exact stays_pure (by simpa using hx)
  exact fun row => go _ row

theorem Stays.untilEnd {item : Reader α} {Q : α → Prop} (h : Stays P item Q) :
    Stays P (untilEnd item) fun xs => ∀ x ∈ xs, Q x := by
  have go : ∀ fuel, Stays P (untilEnd.go item fuel) fun xs => ∀ x ∈ xs, Q x := by
    intro fuel
    induction fuel with
    | zero => exact stays_pure (by simp)
    | succ fuel ih =>
      refine stays_peek?.bind fun word _ => ?_
      cases word with
      | none => exact stays_pure (by simp)
      | some w =>
        exact h.bind fun x hx => ih.bind fun others hothers =>
          stays_pure (List.forall_mem_cons.mpr ⟨hx, hothers⟩)
  exact fun row => go _ row

end Reader

namespace Grammar

open Reader

variable {P : Position → Prop} {last : Position}

/-- The reader gives expressions that carry positions in `P` only. -/
def ReadsExpr (P : Position → Prop) (r : Reader Expr) : Prop :=
  Stays P r fun e => ∀ p ∈ e.positions, P p

theorem stays_tooDeep {α : Type} {Q : α → Prop} (hlast : P last) :
    Stays P (tooDeep last : Reader α) Q :=
  (stays_here hlast).bind fun _ hpos => stays_fail rfl hpos

/-- The place that an expression names carries the positions of the expression. -/
theorem stays_placeOf {e : Expr} (he : ∀ p ∈ e.positions, P p) :
    Stays P (placeOf e) fun target => ∀ p ∈ target.positions, P p := by
  unfold placeOf
  split
  · rename_i target htarget
    exact stays_pure (by rwa [Expr.positions_of_toPlace? htarget])
  · exact stays_fail rfl (he _ e.pos_mem_positions)

/-! ## Expressions -/

section

variable (hlast : P last) {sub : Nat → Reader Expr} (hsub : ∀ least, ReadsExpr P (sub least))

include hlast

theorem stays_property : Stays P (property last) fun _ => True := by
  refine stays_peek?.bind fun word _ => ?_
  split
  · exact stays_drop.bind fun _ _ => stays_pure trivial
  · exact stays_drop.bind fun _ _ => stays_pure trivial
  · exact stays_unexpected hlast

/-- The value of a member behind its key and the colon. -/
theorem stays_keyed {value : Reader Expr} (hvalue : ReadsExpr P value) (key : String) :
    Stays P (do drop; expect last .colon; return (key, ← value))
      fun x => ∀ p ∈ x.2.positions, P p :=
  stays_drop.bind fun _ _ => (stays_expect hlast .colon).bind fun _ _ =>
    hvalue.bind fun _ he => stays_pure he

theorem stays_objectMember {value : Reader Expr} (hvalue : ReadsExpr P value) :
    Stays P (objectMember last value) fun x => ∀ p ∈ x.2.positions, P p := by
  refine (stays_here hlast).bind fun pos hpos => stays_peek?.bind fun word _ => ?_
  split
  · refine stays_drop.bind fun _ _ => (stays_takes .colon).bind fun b _ => ?_
    cases b with
    | true => exact hvalue.bind fun _ he => stays_pure he
    | false => exact stays_pure (by simpa [Expr.positions] using hpos)
  · exact stays_keyed hlast hvalue _
  · exact stays_keyed hlast hvalue _
  · exact stays_keyed hlast hvalue _
  · exact stays_unexpected hlast

include hsub

theorem reads_primary : ReadsExpr P (primary last sub) := by
  refine (stays_here hlast).bind fun pos hpos => stays_peek?.bind fun word _ => ?_
  have hatom : ∀ e : Expr, e.positions = [pos] → ReadsExpr P (do drop; return e) := by
    intro e he
    exact stays_drop.bind fun _ _ => stays_pure (by simpa [he] using hpos)
  split
  · exact hatom _ rfl
  · exact hatom _ rfl
  · exact hatom _ rfl
  · exact hatom _ rfl
  · exact hatom _ rfl
  · exact hatom _ rfl
  · exact hatom _ rfl
  · exact stays_drop.bind fun _ _ => (hsub _).bind fun _ he =>
      (stays_expect hlast .rightParen).bind fun _ _ => stays_pure he
  · refine stays_drop.bind fun _ _ =>
      ((hsub _).commaList hlast .rightBracket).bind fun items hitems => stays_pure ?_
    rw [Expr.positions, List.forall_mem_cons]
    exact ⟨hpos, Expr.forall_positionsItems hitems⟩
  · refine stays_drop.bind fun _ _ =>
      ((stays_objectMember hlast (hsub _)).commaList hlast .rightBrace).bind fun members hmembers =>
        stays_pure ?_
    rw [Expr.positions, List.forall_mem_cons]
    exact ⟨hpos, Expr.forall_positionsMembers hmembers⟩
  · exact stays_unexpected hlast

theorem reads_operand {suffixes : Expr → Reader Expr}
    (hsuffixes : ∀ e, (∀ p ∈ e.positions, P p) → ReadsExpr P (suffixes e)) :
    ReadsExpr P (operand last sub suffixes) := by
  refine (stays_here hlast).bind fun pos hpos => stays_peek?.bind fun word _ => ?_
  split
  · refine stays_drop.bind fun _ _ => (hsub _).bind fun e he =>
      (stays_placeOf he).bind fun target htarget => stays_pure ?_
    rw [Expr.positions, List.forall_mem_cons]
    exact ⟨hpos, htarget⟩
  · split
    · refine stays_drop.bind fun _ _ => (hsub _).bind fun e he => stays_pure ?_
      rw [Expr.positions, List.forall_mem_cons]
      exact ⟨hpos, he⟩
    · exact (reads_primary hlast hsub).bind hsuffixes

theorem reads_suffixed {e : Expr} (he : ∀ p ∈ e.positions, P p) (s : Suffix) :
    ReadsExpr P (suffixed last sub e s) := by
  have hpos := he _ e.pos_mem_positions
  cases s with
  | member =>
    refine (stays_property hlast).bind fun _ _ => stays_pure ?_
    rw [Expr.positions, List.forall_mem_cons]
    exact ⟨hpos, he⟩
  | index =>
    refine (hsub _).bind fun key hkey => (stays_expect hlast .rightBracket).bind fun _ _ =>
      stays_pure ?_
    rw [Expr.positions, List.forall_mem_cons, List.forall_mem_append]
    exact ⟨hpos, he, hkey⟩
  | call =>
    refine ((hsub _).commaList hlast .rightParen).bind fun args hargs => stays_pure ?_
    rw [Expr.positions, List.forall_mem_cons, List.forall_mem_append]
    exact ⟨hpos, he, Expr.forall_positionsItems hargs⟩

theorem reads_joined {lhs : Expr} (hlhs : ∀ p ∈ lhs.positions, P p) (power : Power)
    (c : Connective) : ReadsExpr P (joined last sub lhs power c) := by
  have hpos := hlhs _ lhs.pos_mem_positions
  cases c with
  | binary op =>
    refine (hsub _).bind fun rhs hrhs => stays_pure ?_
    rw [Expr.positions, List.forall_mem_cons, List.forall_mem_append]
    exact ⟨hpos, hlhs, hrhs⟩
  | logical op =>
    refine (hsub _).bind fun rhs hrhs => stays_pure ?_
    rw [Expr.positions, List.forall_mem_cons, List.forall_mem_append]
    exact ⟨hpos, hlhs, hrhs⟩
  | assign op =>
    refine (stays_placeOf hlhs).bind fun target htarget => (hsub _).bind fun rhs hrhs =>
      stays_pure ?_
    rw [Expr.positions, List.forall_mem_cons, List.forall_mem_append]
    exact ⟨hpos, htarget, hrhs⟩
  | conditional =>
    refine (hsub _).bind fun whenTrue htrue => (stays_expect hlast .colon).bind fun _ _ =>
      (hsub _).bind fun whenFalse hfalse => stays_pure ?_
    rw [Expr.positions, List.forall_mem_cons, List.forall_mem_append, List.forall_mem_append]
    exact ⟨hpos, hlhs, htrue, hfalse⟩

end

theorem reads_updated {e : Expr} (he : ∀ p ∈ e.positions, P p) : ReadsExpr P (updated e) := by
  refine stays_peek?.bind fun word _ => ?_
  split
  · refine stays_afterBreak.bind fun b _ => ?_
    cases b with
    | true => exact stays_pure he
    | false =>
      refine (stays_placeOf he).bind fun target htarget => stays_drop.bind fun _ _ => stays_pure ?_
      rw [Expr.positions, List.forall_mem_cons]
      exact ⟨he _ e.pos_mem_positions, htarget⟩
  · exact stays_pure he

/-- One induction on the levels left closes the circle between expressions and their parts. -/
theorem reads_levels (hlast : P last) (levels : Nat) :
    (∀ least, ReadsExpr P (expression last levels least)) ∧
      (∀ least lhs, (∀ p ∈ lhs.positions, P p) → ReadsExpr P (operators last levels least lhs)) ∧
      ∀ e, (∀ p ∈ e.positions, P p) → ReadsExpr P (suffixes last levels e) := by
  induction levels with
  | zero =>
    refine ⟨fun _ => stays_tooDeep hlast, fun least lhs hlhs => ?_, fun e he => ?_⟩
    · refine stays_peek?.bind fun word _ => ?_
      split
      · exact stays_pure hlhs
      · exact stays_tooDeep hlast
    · refine stays_peek?.bind fun word _ => ?_
      split
      · exact reads_updated he
      · exact stays_tooDeep hlast
  | succ levels ih =>
    obtain ⟨hexpr, hoperators, hsuffixes⟩ := ih
    have hoperators' : ∀ least lhs, (∀ p ∈ lhs.positions, P p) →
        ReadsExpr P (operators last (levels + 1) least lhs) := by
      intro least lhs hlhs
      refine stays_peek?.bind fun word _ => ?_
      split
      · exact stays_pure hlhs
      · exact stays_drop.bind fun _ _ =>
          (reads_joined hlast hexpr hlhs _ _).bind fun e he => hoperators _ e he
    refine ⟨fun least => ?_, hoperators', fun e he => ?_⟩
    · exact (reads_operand hlast hexpr hsuffixes).bind fun lhs hlhs => hoperators _ lhs hlhs
    · refine stays_peek?.bind fun word _ => ?_
      split
      · exact reads_updated he
      · exact stays_drop.bind fun _ _ =>
          (reads_suffixed hlast hexpr he _).bind fun e' he' => hsuffixes e' he'

theorem reads_expression (hlast : P last) (levels least : Nat) :
    ReadsExpr P (expression last levels least) := (reads_levels hlast levels).1 least

/-! ## Parts of statements -/

theorem stays_atStatementEnd : Stays P atStatementEnd fun _ => True := by
  refine stays_peek?.bind fun word _ => ?_
  split
  · exact stays_pure trivial
  · refine stays_afterBreak.bind fun b _ => ?_
    cases b with
    | true => exact stays_pure trivial
    | false => exact stays_pure trivial

theorem stays_optional {expr : Reader Expr} (stop : Symbol) (hexpr : ReadsExpr P expr) :
    Stays P (optional stop expr) fun e => ∀ p ∈ Expr.positionsOption e, P p := by
  refine (stays_sees stop).bind fun b _ => ?_
  cases b with
  | true => exact stays_pure (by simp [Expr.positionsOption])
  | false => exact hexpr.bind fun _ he => stays_pure he

section

variable (hlast : P last)

include hlast

theorem stays_endStatement : Stays P (endStatement last) fun _ => True := by
  refine (stays_takes .semicolon).bind fun b _ => ?_
  cases b with
  | true => exact stays_pure trivial
  | false =>
    refine stays_atStatementEnd.bind fun b _ => ?_
    cases b with
    | true => exact stays_pure trivial
    | false => exact stays_unexpected hlast

theorem stays_declarator (kind : DeclKind) {value : Reader Expr} (hvalue : ReadsExpr P value) :
    Stays P (declarator last kind value) fun x =>
      P x.pos ∧ ∀ p ∈ Expr.positionsOption x.init, P p := by
  refine (stays_here hlast).bind fun pos hpos => (stays_expectName hlast).bind fun name _ =>
    (stays_takes .assign).bind fun b _ => ?_
  cases b with
  | true => exact hvalue.bind fun _ he => stays_pure ⟨hpos, he⟩
  | false =>
    rw [if_neg (by simp)]
    split
    · exact stays_unexpected hlast
    · exact stays_pure ⟨hpos, by simp [Expr.positionsOption]⟩

theorem stays_declarators (kind : DeclKind) {value : Reader Expr} (hvalue : ReadsExpr P value) :
    Stays P (commaSeparated (declarator last kind value)) fun items =>
      ∀ p ∈ Declarator.positionsList items, P p :=
  (stays_declarator hlast kind hvalue).commaSeparated.mono
    fun _ h => Declarator.forall_positionsList h

theorem reads_condition {expr : Reader Expr} (hexpr : ReadsExpr P expr) :
    ReadsExpr P (condition last expr) :=
  (stays_expect hlast .leftParen).bind fun _ _ => hexpr.bind fun _ he =>
    (stays_expect hlast .rightParen).bind fun _ _ => stays_pure he

theorem stays_loopStart {expr : Nat → Reader Expr} (hexpr : ∀ least, ReadsExpr P (expr least)) :
    Stays P (loopStart last expr) fun start => ∀ p ∈ LoopStart.positionsOption start, P p := by
  refine (stays_sees .semicolon).bind fun b _ => ?_
  cases b with
  | true => exact stays_pure (by simp [LoopStart.positionsOption])
  | false =>
    refine stays_peek?.bind fun word _ => ?_
    split
    · exact stays_drop.bind fun _ _ =>
        (stays_declarators hlast _ (hexpr _)).bind fun _ hitems => stays_pure hitems
    · exact (hexpr _).bind fun _ he => stays_pure he

end

/-! ## Statements -/

/-- The reader gives statements that carry positions in `P` only. -/
def ReadsStmt (P : Position → Prop) (r : Reader Stmt) : Prop :=
  Stays P r fun stmt => ∀ p ∈ stmt.positions, P p

section

variable (hlast : P last) {stmt : Reader Stmt} (hstmt : ReadsStmt P stmt)

include hlast hstmt

theorem stays_braces :
    Stays P (braces last stmt) fun body => ∀ p ∈ Stmt.positionsList body, P p :=
  (stays_expect hlast .leftBrace).bind fun _ _ =>
    (hstmt.untilBrace hlast).mono fun _ h => Stmt.forall_positionsList h

theorem reads_function {pos : Position} (hpos : P pos) :
    ReadsStmt P (function last pos stmt) := by
  refine (stays_expectName hlast).bind fun name _ => (stays_expect hlast .leftParen).bind fun _ _ =>
    ((stays_expectName hlast).commaList hlast .rightParen).bind fun params _ =>
      (stays_braces hlast hstmt).bind fun body hbody => stays_pure ?_
  rw [Stmt.positions, List.forall_mem_cons]
  exact ⟨hpos, hbody⟩

theorem reads_loop {expr : Nat → Reader Expr} (hexpr : ∀ least, ReadsExpr P (expr least)) :
    ReadsStmt P (loop last expr stmt) := by
  refine (stays_expect hlast .leftParen).bind fun _ _ => stays_upcoming.bind fun words _ => ?_
  split
  · refine stays_drop.bind fun _ _ => stays_drop.bind fun _ _ => stays_drop.bind fun _ _ =>
      (hexpr _).bind fun iterable hiter => (stays_expect hlast .rightParen).bind fun _ _ =>
        hstmt.bind fun body hbody => stays_pure ?_
    rw [Stmt.positions, List.forall_mem_append]
    exact ⟨hiter, hbody⟩
  · refine (stays_loopStart hlast hexpr).bind fun start hstart =>
      (stays_expect hlast .semicolon).bind fun _ _ =>
      (stays_optional .semicolon (hexpr _)).bind fun cond hcond =>
      (stays_expect hlast .semicolon).bind fun _ _ =>
      (stays_optional .rightParen (hexpr _)).bind fun update hupdate =>
      (stays_expect hlast .rightParen).bind fun _ _ => hstmt.bind fun body hbody => stays_pure ?_
    rw [Stmt.positions, List.forall_mem_append, List.forall_mem_append, List.forall_mem_append]
    exact ⟨hstart, hcond, hupdate, hbody⟩

end

/-- Statements are read by recursion on the levels left, whatever stands around them. -/
theorem reads_statement (levels : Nat) (s : Surroundings) (hlast : P s.last) :
    ReadsStmt P (statement levels s) := by
  induction levels generalizing s with
  | zero => exact stays_tooDeep hlast
  | succ levels ih =>
    have hexpr := reads_expression hlast levels
    have hsame := ih s hlast
    have hloop := ih s.loopBody hlast
    refine (stays_here hlast).bind fun pos hpos => stays_peek?.bind fun word _ => ?_
    split
    · exact stays_unexpected hlast
    · -- `if`
      refine stays_drop.bind fun _ _ => (reads_condition hlast (hexpr _)).bind fun cond hcond =>
        hsame.bind fun whenTrue htrue => (stays_takesKeyword .kwElse).bind fun b _ => ?_
      cases b with
      | true =>
        refine hsame.bind fun whenFalse hfalse => stays_pure ?_
        rw [Stmt.positions, List.forall_mem_append, List.forall_mem_append]
        exact ⟨hcond, htrue, hfalse⟩
      | false =>
        refine stays_pure ?_
        rw [Stmt.positions, List.forall_mem_append, List.forall_mem_append]
        exact ⟨hcond, htrue, by simp [Stmt.positionsElse]⟩
    · exact stays_drop.bind fun _ _ => reads_loop hlast hloop hexpr
    · -- `while`
      refine stays_drop.bind fun _ _ => (reads_condition hlast (hexpr _)).bind fun cond hcond =>
        hloop.bind fun body hbody => stays_pure ?_
      rw [Stmt.positions, List.forall_mem_append]
      exact ⟨hcond, hbody⟩
    · -- `do`
      refine stays_drop.bind fun _ _ => hloop.bind fun body hbody =>
        (stays_takesKeyword .kwWhile).bind fun b _ => ?_
      cases b with
      | false => exact stays_unexpected hlast
      | true =>
        refine (reads_condition hlast (hexpr _)).bind fun cond hcond =>
          (stays_takes .semicolon).bind fun _ _ => stays_pure ?_
        rw [Stmt.positions, List.forall_mem_append]
        exact ⟨hbody, hcond⟩
    · exact stays_drop.bind fun _ _ => reads_function hlast (ih s.functionBody hlast) hpos
    · -- `break`
      refine stays_drop.bind fun _ _ => ?_
      split
      · exact (stays_endStatement hlast).bind fun _ _ => stays_pure (by simp [Stmt.positions])
      · exact stays_fail rfl hpos
    · -- `continue`
      refine stays_drop.bind fun _ _ => ?_
      split
      · exact (stays_endStatement hlast).bind fun _ _ => stays_pure (by simp [Stmt.positions])
      · exact stays_fail rfl hpos
    · -- `return`
      refine stays_drop.bind fun _ _ => ?_
      split
      · have hend : ∀ value, (∀ p ∈ Expr.positionsOption value, P p) →
            ReadsStmt P (do endStatement s.last; return .ret value) := fun value hvalue =>
          (stays_endStatement hlast).bind fun _ _ => stays_pure hvalue
        refine stays_atStatementEnd.bind fun b _ => ?_
        cases b with
        | true => exact hend none (by simp [Expr.positionsOption])
        | false => exact (hexpr _).bind fun e he => hend (some e) he
      · exact stays_fail rfl hpos
    · exact (stays_braces hlast hsame).bind fun _ hbody => stays_pure hbody
    · exact stays_drop.bind fun _ _ => stays_pure (by simp [Stmt.positions])
    · split
      · exact stays_drop.bind fun _ _ => (stays_declarators hlast _ (hexpr _)).bind fun _ hitems =>
          (stays_endStatement hlast).bind fun _ _ => stays_pure hitems
      · exact (hexpr _).bind fun _ he =>
          (stays_endStatement hlast).bind fun _ _ => stays_pure he

/-! ## Whole scripts -/

/-- **What is made of a row of lexemes stands where its lexemes do.**  A fault is one of syntax and
    stands at a lexeme, and so does every position in the tree that is read. -/
theorem program_stays (row : List Lexeme) :
    match program row with
    | .ok body => ∀ p ∈ Stmt.positionsList body, ∃ l ∈ row, l.pos = p
    | .error e => e.isSyntax = true ∧ ∃ l ∈ row, l.pos = e.pos := by
  cases row with
  | nil => simp [program, untilEnd, untilEnd.go, pure_apply, Stmt.positionsList]
  | cons l row =>
    have hover : Over (fun p => ∃ x ∈ l :: row, x.pos = p) (l :: row) := fun x hx => ⟨x, hx, rfl⟩
    unfold program
    have hlast : ∃ x ∈ l :: row,
        x.pos = ((l :: row).getLast?.map Lexeme.pos).getD .start := by
      rw [List.getLast?_eq_some_getLast (List.cons_ne_nil l row)]
      exact ⟨_, List.getLast_mem _, rfl⟩
    generalize ((l :: row).getLast?.map Lexeme.pos).getD .start = last at hlast ⊢
    have h := (reads_statement maxNesting ⟨last, false, false⟩ hlast).untilEnd _ hover
    dsimp only
    cases hread : untilEnd (statement maxNesting ⟨last, false, false⟩) (l :: row) with
    | error e =>
      rw [hread] at h
      exact h
    | ok out =>
      rw [hread] at h
      exact Stmt.forall_positionsList h.1

end Grammar

/-- **A script that is refused has a fault of syntax.**  It was met while the script was cut into
    lexemes, or it stands at one of the lexemes. -/
theorem parse_fault {script : String} {e : ScriptError} (h : parse script = .error e) :
    e.isSyntax = true ∧
      (lexemes script = .error e ∨ ∃ row, lexemes script = .ok row ∧ ∃ l ∈ row, l.pos = e.pos) := by
  unfold parse at h
  cases hlexemes : lexemes script with
  | error e' =>
    rw [hlexemes] at h
    cases h
    exact ⟨(lexemes_fault hlexemes).1, Or.inl rfl⟩
  | ok row =>
    rw [hlexemes] at h
    dsimp only at h
    have hstays := Grammar.program_stays row
    rw [h] at hstays
    exact ⟨hstays.1, Or.inr ⟨row, rfl, hstays.2⟩⟩

/-- Every position in the tree of a script is that of one of its lexemes. -/
theorem parse_positions {script : String} {body : List Stmt} (h : parse script = .ok body) :
    ∃ row, lexemes script = .ok row ∧ ∀ p ∈ Stmt.positionsList body, ∃ l ∈ row, l.pos = p := by
  unfold parse at h
  cases hlexemes : lexemes script with
  | error e =>
    rw [hlexemes] at h
    cases h
  | ok row =>
    rw [hlexemes] at h
    dsimp only at h
    have hstays := Grammar.program_stays row
    rw [h] at hstays
    exact ⟨row, rfl, hstays⟩

end Stencil.Script
