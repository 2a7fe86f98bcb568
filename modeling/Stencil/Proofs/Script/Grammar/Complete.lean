/-
  What the grammar derives, the readers accept.

  A derivation says with how many nesting levels it gets by.  A reader with as many levels or more
  reads what is derived; with fewer levels it either still reads that or finds that no level is
  left, and nothing else can happen to it (`Yields`).  One lemma for each relation, in the order
  of the relations; together with soundness they say that the readers and the grammar agree
  (`program_eq_ok_iff`).
-/
import Stencil.Proofs.Script.Grammar.Sound
import Stencil.Proofs.Script.Lexemes.Rows

namespace Stencil.Script

open Grammar (next? breaks atEnd maxNesting)

namespace Reader

variable {α β : Type} {short : Prop}

/-! ## Reading something unless levels are short -/

/-- What a reader comes to: `a` is read and `rest` is left, or, where levels are short, none is
    left. -/
def Yields (short : Prop) (out : Except ScriptError (α × List Lexeme)) (a : α)
    (rest : List Lexeme) : Prop :=
  out = .ok (a, rest) ∨ short ∧ ∃ pos, out = .error ⟨.nestingTooDeep maxNesting, pos⟩

namespace Yields

theorem ok {out : Except ScriptError (α × List Lexeme)} {a : α} {rest : List Lexeme}
    (h : out = .ok (a, rest)) : Yields short out a rest := Or.inl h

theorem mono {short' : Prop} {out : Except ScriptError (α × List Lexeme)} {a : α}
    {rest : List Lexeme} (h : Yields short out a rest) (hshort : short → short') :
    Yields short' out a rest :=
  h.imp id fun ⟨hs, hpos⟩ => ⟨hshort hs, hpos⟩

/-- Where levels are not short, it is read. -/
theorem eq_ok {out : Except ScriptError (α × List Lexeme)} {a : α} {rest : List Lexeme}
    (h : Yields short out a rest) (hshort : ¬ short) : out = .ok (a, rest) :=
  h.resolve_right fun ⟨hs, _⟩ => hshort hs

theorem bind {r : Reader α} {next : α → Reader β} {row mid rest : List Lexeme} {a : α} {b : β}
    (h : Yields short (r row) a mid) (hnext : Yields short (next a mid) b rest) :
    Yields short ((r >>= next) row) b rest := by
  rcases h with h | ⟨hs, pos, h⟩
  · rw [bind_apply, h]
    exact hnext
  · refine Or.inr ⟨hs, pos, ?_⟩
    rw [bind_apply, h]

end Yields

/-! ## Rows of items -/

variable {last : Position} {close : Symbol} {item : Reader α} {fuel : Nat}
  {row mid rest : List Lexeme} {x : α} {others : List α}

theorem commaList_go_nil {l : Lexeme} (hclose : l.word = .symbol close) :
    commaList.go last close item (fuel + 1) (l :: row) = .ok ([], row) := by
  rw [commaList.go, takes_bind_of_eq hclose, if_pos rfl, pure_apply]

theorem commaList_go_last {r : Lexeme} (hopen : next? row ≠ some (.symbol close))
    (hx : Yields short (item row) x (r :: rest)) (hcomma : r.word ≠ .symbol .comma)
    (hclose : r.word = .symbol close) :
    Yields short (commaList.go last close item (fuel + 1) row) [x] rest := by
  rw [commaList.go, takes_bind_of_ne hopen, if_neg (by simp)]
  refine hx.bind ?_
  rw [takes_bind_of_ne (by simpa using hcomma), if_neg (by simp), expect_bind_of_eq hclose]
  exact .ok rfl

theorem commaList_go_cons {c : Lexeme} (hopen : next? row ≠ some (.symbol close))
    (hx : Yields short (item row) x (c :: mid)) (hcomma : c.word = .symbol .comma)
    (hothers : Yields short (commaList.go last close item fuel mid) others rest) :
    Yields short (commaList.go last close item (fuel + 1) row) (x :: others) rest := by
  rw [commaList.go, takes_bind_of_ne hopen, if_neg (by simp)]
  refine hx.bind ?_
  rw [takes_bind_of_eq hcomma, if_pos rfl]
  exact hothers.bind (.ok rfl)

theorem commaSeparated_go_last (hx : Yields short (item row) x rest)
    (hcomma : next? rest ≠ some (.symbol .comma)) :
    Yields short (commaSeparated.go item fuel row) [x] rest := by
  cases fuel with
  | zero =>
    rw [commaSeparated.go]
    exact hx.bind (.ok rfl)
  | succ fuel =>
    rw [commaSeparated.go]
    refine hx.bind ?_
    rw [takes_bind_of_ne hcomma, if_neg (by simp)]
    exact .ok rfl

theorem commaSeparated_go_cons {c : Lexeme} (hx : Yields short (item row) x (c :: mid))
    (hcomma : c.word = .symbol .comma)
    (hothers : Yields short (commaSeparated.go item fuel mid) others rest) :
    Yields short (commaSeparated.go item (fuel + 1) row) (x :: others) rest := by
  rw [commaSeparated.go]
  refine hx.bind ?_
  rw [takes_bind_of_eq hcomma, if_pos rfl]
  exact hothers.bind (.ok rfl)

theorem untilBrace_go_nil {l : Lexeme} (hclose : l.word = .symbol .rightBrace) :
    untilBrace.go last item (fuel + 1) (l :: row) = .ok ([], row) := by
  rw [untilBrace.go, takes_bind_of_eq hclose, if_pos rfl, pure_apply]

theorem untilBrace_go_cons (hne : row ≠ []) (hopen : next? row ≠ some (.symbol .rightBrace))
    (hx : Yields short (item row) x mid)
    (hothers : Yields short (untilBrace.go last item fuel mid) others rest) :
    Yields short (untilBrace.go last item (fuel + 1) row) (x :: others) rest := by
  rw [untilBrace.go, takes_bind_of_ne hopen, if_neg (by simp), peek?_bind,
    if_neg (by cases row <;> simp_all)]
  exact hx.bind (hothers.bind (.ok rfl))

theorem untilEnd_go_cons (hne : row ≠ []) (hx : Yields short (item row) x mid)
    (hothers : Yields short (untilEnd.go item fuel mid) others rest) :
    Yields short (untilEnd.go item (fuel + 1) row) (x :: others) rest := by
  rw [untilEnd.go, peek?_bind, if_neg (by cases row <;> simp_all)]
  exact hx.bind (hothers.bind (.ok rfl))

end Reader

namespace Grammar

open Reader

/-! ## Which words stand where -/

theorem update?_of_unary? {w : Word} {op : UnaryOp} (h : w.unary? = some op) :
    w.update? = none := by
  unfold Word.unary? at h
  split at h <;> first | rfl | cases h

theorem suffix?_of_update? {w : Word} {op : UpdateOp} (h : w.update? = some op) :
    Word.suffix? w = none := by
  unfold Word.update? at h
  split at h <;> first | rfl | cases h

/-- No literal, name or bracket is an operator before an operand. -/
theorem DerivesPrimary.no_operator {n : Nat} {row rest : List Lexeme} {e : Expr}
    (h : DerivesPrimary n row e rest) :
    (next? row).bind Word.update? = none ∧ (next? row).bind Word.unary? = none := by
  cases h with
  | atom h =>
    unfold Word.atom? at h
    rw [next?_cons]
    split at h <;> first | (rename_i hw; rw [hw]; exact ⟨rfl, rfl⟩) | cases h
  | group h _ _ => rw [next?_cons, h]; exact ⟨rfl, rfl⟩
  | array h _ => rw [next?_cons, h]; exact ⟨rfl, rfl⟩
  | object h _ => rw [next?_cons, h]; exact ⟨rfl, rfl⟩

theorem DerivesMember.next?_ne {n : Nat} {row rest : List Lexeme} {x : String × Expr} {s : Symbol}
    (h : DerivesMember n row x rest) : next? row ≠ some (.symbol s) := by
  cases h with
  | short hname _ => simp [hname]
  | @keyed _ l _ _ _ _ _ hkey _ _ =>
    intro h
    have hl : l.word = .symbol s := by simpa using h
    rw [hl] at hkey
    cases hkey

/-! ## Expressions -/

section

variable {N : Nat} {last : Position} {row rest : List Lexeme}

theorem tooDeep_yields {α : Type} {n : Nat} (last : Position) (row : List Lexeme) (a : α)
    (rest : List Lexeme) : Yields (0 < n + 1) (tooDeep last row) a rest :=
  Or.inr ⟨Nat.succ_pos n, _, rfl⟩

theorem property_complete {l : Lexeme} {s : String} (h : l.word.property? = some s) :
    property last (l :: row) = .ok (s, row) := by
  obtain ⟨w, pos, b⟩ := l
  cases w with
  | name t => cases h; rfl
  | keyword k => cases h; rfl
  | _ => cases h

theorem primary_atom {l : Lexeme} {e : Expr} (sub : Nat → Reader Expr)
    (h : l.word.atom? l.pos = some e) : primary last sub (l :: row) = .ok (e, row) := by
  obtain ⟨w, pos, b⟩ := l
  unfold Word.atom? at h
  split at h
  all_goals first | (cases h; rename_i hw; obtain rfl := hw; rfl) | cases h

/-- Without an operator before it, an operand is something and what stands behind it. -/
theorem operand_of_none {sub : Nat → Reader Expr} {after : Expr → Reader Expr}
    (hupdate : (next? row).bind Word.update? = none)
    (hunary : (next? row).bind Word.unary? = none) :
    operand last sub after row = (primary last sub >>= after) row := by
  rw [operand, bind_apply]
  dsimp only [here]
  rw [peek?_bind, hupdate]
  dsimp only
  rw [hunary]

theorem suffixes_of_none {n : Nat} {e : Expr} (h : (next? row).bind Word.suffix? = none) :
    suffixes last n e row = updated e row := by
  cases n <;> rw [suffixes, peek?_bind, h]

theorem operators_of_none {n least : Nat} {lhs : Expr}
    (h : (next? row).bind (Word.connective? least) = none) :
    operators last n least lhs row = .ok (lhs, row) := by
  cases n <;> rw [operators, peek?_bind, h] <;> rfl

theorem updated_of_none {e : Expr}
    (h : (next? row).bind Word.update? = none ∨ breaks row = true) :
    updated e row = .ok (e, row) := by
  rw [updated, peek?_bind]
  cases hop : (next? row).bind Word.update? with
  | none => rfl
  | some op =>
    rcases h with h | h
    · rw [hop] at h
      cases h
    · dsimp only
      rw [afterBreak_bind, if_pos h, pure_apply]

end

mutual

theorem DerivesExpr.yields {N least : Nat} {row rest : List Lexeme} {e : Expr} (last : Position)
    (n : Nat) :
    DerivesExpr N least row e rest → Yields (n < N) (expression last n least row) e rest
  | .mk hlhs hops => by
    -- the expression takes the level; what is inside is read with the levels below it
    cases n with
    | zero => exact tooDeep_yields _ _ _ _
    | succ n =>
      rw [expression]
      exact ((hlhs.yields last n).mono Nat.succ_lt_succ).bind
        ((hops.yields last n).mono Nat.succ_lt_succ)

theorem DerivesOperand.yields {N : Nat} {row rest : List Lexeme} {e : Expr} (last : Position)
    (n : Nat) : DerivesOperand N row e rest →
      Yields (n < N) (operand last (expression last n) (suffixes last n) row) e rest
  | .update hop he htarget => by
    rw [operand, here_bind, peek?_bind, next?_cons, Option.bind_some, hop]
    dsimp only
    rw [drop_bind]
    exact (he.yields last n).bind (Yields.bind (.ok (placeOf_eq_ok.mpr ⟨htarget, rfl⟩)) (.ok rfl))
  | .unary hop he => by
    rw [operand, here_bind, peek?_bind, next?_cons, Option.bind_some, update?_of_unary? hop]
    dsimp only
    rw [Option.bind_some, hop]
    dsimp only
    rw [drop_bind]
    exact (he.yields last n).bind (.ok rfl)
  | .primary he hsuffixes => by
    rw [operand_of_none he.no_operator.1 he.no_operator.2]
    exact (he.yields last n).bind (hsuffixes.yields last n)

theorem DerivesPrimary.yields {N : Nat} {row rest : List Lexeme} {e : Expr} (last : Position)
    (n : Nat) : DerivesPrimary N row e rest →
      Yields (n < N) (primary last (expression last n) row) e rest
  | .atom h => .ok (primary_atom _ h)
  | .group hopen he hclose => by
    rw [primary, here_bind, peek?_bind, next?_cons, hopen]
    dsimp only
    rw [drop_bind]
    refine (he.yields last n).bind ?_
    rw [expect_bind_of_eq hclose]
    exact .ok rfl
  | .array hopen hitems => by
    rw [primary, here_bind, peek?_bind, next?_cons, hopen]
    dsimp only
    rw [drop_bind]
    exact (hitems.yields last n _ (Nat.lt_succ_self _)).bind (.ok rfl)
  | .object hopen hmembers => by
    rw [primary, here_bind, peek?_bind, next?_cons, hopen]
    dsimp only
    rw [drop_bind]
    exact (hmembers.yields last n _ (Nat.lt_succ_self _)).bind (.ok rfl)

theorem DerivesSuffixes.yields {N : Nat} {row rest : List Lexeme} {e e' : Expr} (last : Position)
    (n : Nat) : DerivesSuffixes N e row e' rest →
      Yields (n < N) (suffixes last n e row) e' rest
  | .done hsuffix hupdate => .ok ((suffixes_of_none hsuffix).trans (updated_of_none hupdate))
  | .update hop hline htarget => by
    rw [suffixes_of_none (by simp [suffix?_of_update? hop]), updated, peek?_bind, next?_cons,
      Option.bind_some, hop]
    dsimp only
    rw [afterBreak_bind, if_neg (by simp [breaks, hline])]
    exact Yields.bind (.ok (placeOf_eq_ok.mpr ⟨htarget, rfl⟩)) (.ok rfl)
  | .more hs hone hmore => by
    cases n with
    | zero =>
      rw [suffixes, peek?_bind, next?_cons, Option.bind_some, hs]
      exact tooDeep_yields _ _ _ _
    | succ n =>
      rw [suffixes, peek?_bind, next?_cons, Option.bind_some, hs]
      dsimp only
      rw [drop_bind]
      exact ((hone.yields last n).mono Nat.succ_lt_succ).bind
        ((hmore.yields last n).mono Nat.succ_lt_succ)

theorem DerivesSuffixed.yields {N : Nat} {row rest : List Lexeme} {e e' : Expr} {s : Suffix}
    (last : Position) (n : Nat) : DerivesSuffixed N e s row e' rest →
      Yields (n < N) (suffixed last (expression last n) e s row) e' rest
  | .member h => Yields.bind (.ok (property_complete h)) (.ok rfl)
  | .index hkey hclose => by
    rw [suffixed]
    refine (hkey.yields last n).bind ?_
    rw [expect_bind_of_eq hclose]
    exact .ok rfl
  | .call hargs => by
    rw [suffixed]
    exact (hargs.yields last n _ (Nat.lt_succ_self _)).bind (.ok rfl)

theorem DerivesOperators.yields {N least : Nat} {row rest : List Lexeme} {lhs e : Expr}
    (last : Position) (n : Nat) : DerivesOperators N least lhs row e rest →
      Yields (n < N) (operators last n least lhs row) e rest
  | .done h => .ok (operators_of_none h)
  | .more hc hone hmore => by
    cases n with
    | zero =>
      rw [operators, peek?_bind, next?_cons, Option.bind_some, hc]
      exact tooDeep_yields _ _ _ _
    | succ n =>
      rw [operators, peek?_bind, next?_cons, Option.bind_some, hc]
      dsimp only
      rw [drop_bind]
      exact ((hone.yields last n).mono Nat.succ_lt_succ).bind
        ((hmore.yields last n).mono Nat.succ_lt_succ)

theorem DerivesJoined.yields {N : Nat} {row rest : List Lexeme} {lhs e : Expr} {power : Power}
    {c : Connective} (last : Position) (n : Nat) : DerivesJoined N lhs power c row e rest →
      Yields (n < N) (joined last (expression last n) lhs power c row) e rest
  | .binary hrhs => (hrhs.yields last n).bind (.ok rfl)
  | .logical hrhs => (hrhs.yields last n).bind (.ok rfl)
  | .assign htarget hrhs =>
    Yields.bind (.ok (placeOf_eq_ok.mpr ⟨htarget, rfl⟩)) ((hrhs.yields last n).bind (.ok rfl))
  | .conditional htrue hcolon hfalse => by
    rw [joined]
    refine (htrue.yields last n).bind ?_
    rw [expect_bind_of_eq hcolon]
    exact (hfalse.yields last n).bind (.ok rfl)

theorem DerivesItems.yields {N : Nat} {close : Symbol} {row rest : List Lexeme} {xs : List Expr}
    (last : Position) (n : Nat) : DerivesItems N close row xs rest → ∀ fuel, row.length < fuel →
      Yields (n < N) (commaList.go last close (expression last n Power.item) fuel row) xs rest
  | .nil hclose, fuel, hfuel => by
    obtain ⟨fuel, rfl⟩ := Nat.exists_eq_add_one_of_ne_zero (Nat.ne_zero_of_lt hfuel)
    exact .ok (commaList_go_nil hclose)
  | .last hopen hx hcomma hclose, fuel, hfuel => by
    obtain ⟨fuel, rfl⟩ := Nat.exists_eq_add_one_of_ne_zero (Nat.ne_zero_of_lt hfuel)
    exact commaList_go_last hopen (hx.yields last n) hcomma hclose
  | .cons hopen hx hcomma hothers, fuel, hfuel => by
    obtain ⟨fuel, rfl⟩ := Nat.exists_eq_add_one_of_ne_zero (Nat.ne_zero_of_lt hfuel)
    have hlt := Nat.lt_of_lt_of_le (Nat.lt_of_succ_lt hx.length_lt) (Nat.le_of_lt_succ hfuel)
    exact commaList_go_cons hopen (hx.yields last n) hcomma (hothers.yields last n _ hlt)

theorem DerivesMembers.yields {N : Nat} {row rest : List Lexeme} {xs : List (String × Expr)}
    (last : Position) (n : Nat) : DerivesMembers N row xs rest → ∀ fuel, row.length < fuel →
      Yields (n < N) (commaList.go last .rightBrace
        (objectMember last (expression last n Power.item)) fuel row) xs rest
  | .nil hclose, fuel, hfuel => by
    obtain ⟨fuel, rfl⟩ := Nat.exists_eq_add_one_of_ne_zero (Nat.ne_zero_of_lt hfuel)
    exact .ok (commaList_go_nil hclose)
  | .last hx hclose, fuel, hfuel => by
    obtain ⟨fuel, rfl⟩ := Nat.exists_eq_add_one_of_ne_zero (Nat.ne_zero_of_lt hfuel)
    exact commaList_go_last hx.next?_ne (hx.yields last n) (by simp [hclose]) hclose
  | .cons hx hcomma hothers, fuel, hfuel => by
    obtain ⟨fuel, rfl⟩ := Nat.exists_eq_add_one_of_ne_zero (Nat.ne_zero_of_lt hfuel)
    have hlt := Nat.lt_of_lt_of_le (Nat.lt_of_succ_lt hx.length_lt) (Nat.le_of_lt_succ hfuel)
    exact commaList_go_cons hx.next?_ne (hx.yields last n) hcomma (hothers.yields last n _ hlt)

theorem DerivesMember.yields {N : Nat} {row rest : List Lexeme} {x : String × Expr}
    (last : Position) (n : Nat) : DerivesMember N row x rest →
      Yields (n < N) (objectMember last (expression last n Power.item) row) x rest
  | .short hname hcolon => by
    rw [objectMember, here_bind, peek?_bind, next?_cons, hname]
    dsimp only
    rw [drop_bind, takes_bind_of_ne hcolon, if_neg (by simp)]
    exact .ok rfl
  | .keyed (l := l) hkey hcolon he => by
    rw [objectMember, here_bind, peek?_bind, next?_cons]
    cases hw : l.word with
    | name t =>
      rw [hw] at hkey
      cases hkey
      dsimp only
      rw [drop_bind, takes_bind_of_eq hcolon, if_pos rfl]
      exact (he.yields last n).bind (.ok rfl)
    | symbol t =>
      rw [hw] at hkey
      cases hkey
    | _ =>
      rw [hw] at hkey
      cases hkey
      dsimp only
      rw [drop_bind, expect_bind_of_eq hcolon]
      exact (he.yields last n).bind (.ok rfl)

end

/-! ## Parts of statements -/

/-- Where a statement ends, none goes on. -/
theorem EndsStmt.atEnd {row rest : List Lexeme} : EndsStmt row rest → atEnd row = true
  | .semicolon h => by simp [Grammar.atEnd, h]
  | .missing _ h => h

theorem EndsStmt.complete {last : Position} {row rest : List Lexeme} :
    EndsStmt row rest → endStatement last row = .ok ((), rest)
  | .semicolon h => by rw [endStatement, takes_bind_of_eq h, if_pos rfl, pure_apply]
  | .missing hno h => by
    rw [endStatement, takes_bind_of_ne hno, if_neg (by simp), atStatementEnd_bind, if_pos h,
      pure_apply]

section

variable {N : Nat} {row rest : List Lexeme} (last : Position) (n : Nat)

theorem DerivesDeclarator.yields {kind : DeclKind} {x : Declarator} :
    DerivesDeclarator N kind row x rest →
      Yields (n < N) (declarator last kind (expression last n Power.item) row) x rest
  | .valued hname hassign he => by
    rw [declarator, here_bind, expectName_bind_of_eq hname, takes_bind_of_eq hassign, if_pos rfl]
    exact (he.yields last n).bind (.ok rfl)
  | .bare hname hassign hkind => by
    rw [declarator, here_bind, expectName_bind_of_eq hname, takes_bind_of_ne hassign,
      if_neg (by simp), if_neg hkind]
    exact .ok rfl

theorem DerivesDeclarators.yields {kind : DeclKind} {xs : List Declarator}
    (h : DerivesDeclarators N kind row xs rest) : ∀ fuel, row.length ≤ fuel →
      Yields (n < N)
        (commaSeparated.go (declarator last kind (expression last n Power.item)) fuel row)
        xs rest := by
  induction h with
  | last hx hcomma =>
    intro fuel _
    exact commaSeparated_go_last (hx.yields last n) hcomma
  | cons hx hcomma _ ih =>
    intro fuel hfuel
    have hlt := hx.length_lt
    rw [List.length_cons] at hlt
    obtain ⟨fuel, rfl⟩ : ∃ k, fuel = k + 1 := ⟨fuel - 1, by omega⟩
    exact commaSeparated_go_cons (hx.yields last n) hcomma (ih fuel (by omega))

theorem DerivesCondition.yields {e : Expr} :
    DerivesCondition N row e rest →
      Yields (n < N) (condition last (expression last n Power.any) row) e rest
  | .mk hopen he hclose => by
    rw [condition, expect_bind_of_eq hopen]
    refine (he.yields last n).bind ?_
    rw [expect_bind_of_eq hclose]
    exact .ok rfl

/-- What may be missing, and the symbol behind it, which the reader of a loop takes itself. -/
theorem DerivesOptional.yields {α : Type} {stop : Symbol} {e : Option Expr} {a : α}
    {next : Option Expr → Reader α} {final : List Lexeme} (h : DerivesOptional N stop row e rest)
    (hnext : Yields (n < N) (next e rest) a final) :
    Yields (n < N) ((optional stop (expression last n Power.any) >>= fun e => do
      expect last stop
      next e) row) a final := by
  cases h with
  | none hstop =>
    refine Yields.bind (.ok (by rw [optional, sees_bind_of_eq hstop, if_pos rfl, pure_apply])) ?_
    rwa [expect_bind_of_eq hstop]
  | some hopen he hstop =>
    refine Yields.bind ?_ (by rwa [expect_bind_of_eq hstop])
    rw [optional, sees_bind_of_ne hopen, if_neg (by simp)]
    exact (he.yields last n).bind (.ok rfl)

theorem DerivesStart.yields {α : Type} {start : Option LoopStart} {a : α}
    {next : Option LoopStart → Reader α} {final : List Lexeme} (h : DerivesStart N row start rest)
    (hnext : Yields (n < N) (next start rest) a final) :
    Yields (n < N) ((loopStart last (expression last n) >>= fun start => do
      expect last .semicolon
      next start) row) a final := by
  cases h with
  | none hstop =>
    refine Yields.bind (.ok (by rw [loopStart, sees_bind_of_eq hstop, if_pos rfl, pure_apply])) ?_
    rwa [expect_bind_of_eq hstop]
  | declare hkind hitems hstop =>
    rename_i l r row items
    refine Yields.bind ?_ (by rwa [expect_bind_of_eq hstop])
    have hl : next? (l :: row) ≠ some (.symbol .semicolon) := by
      rintro hl
      rw [next?_cons, Option.some.injEq] at hl
      rw [hl] at hkind
      cases hkind
    rw [loopStart, sees_bind_of_ne hl, if_neg (by simp), peek?_bind, next?_cons, Option.bind_some,
      hkind]
    dsimp only
    rw [drop_bind]
    exact (hitems.yields last n _ (Nat.le_refl _)).bind (.ok rfl)
  | expr hopen hno he hstop =>
    refine Yields.bind ?_ (by rwa [expect_bind_of_eq hstop])
    rw [loopStart, sees_bind_of_ne hopen, if_neg (by simp), peek?_bind, hno]
    exact (he.yields last n).bind (.ok rfl)

theorem DerivesParams.complete {params : List String} (h : DerivesParams row params rest) :
    ∀ fuel, row.length < fuel →
      commaList.go last .rightParen (expectName last) fuel row = .ok (params, rest) := by
  have one {l : Lexeme} {row : List Lexeme} {name : String} (h : l.word = .name name) :
      expectName last (l :: row) = .ok (name, row) := by
    obtain ⟨w, pos, b⟩ := l
    obtain rfl : w = .name name := h
    rfl
  have never {l : Lexeme} {row : List Lexeme} {name : String} (h : l.word = .name name) :
      next? (l :: row) ≠ some (.symbol .rightParen) := by simp [h]
  intro fuel hfuel
  refine Yields.eq_ok ?_ not_false
  induction h generalizing fuel with
  | nil hclose =>
    obtain ⟨fuel, rfl⟩ := Nat.exists_eq_add_one_of_ne_zero (Nat.ne_zero_of_lt hfuel)
    exact .ok (commaList_go_nil hclose)
  | last hname hclose =>
    obtain ⟨fuel, rfl⟩ := Nat.exists_eq_add_one_of_ne_zero (Nat.ne_zero_of_lt hfuel)
    exact commaList_go_last (never hname) (.ok (one hname)) (by simp [hclose]) hclose
  | cons hname hcomma _ ih =>
    obtain ⟨fuel, rfl⟩ := Nat.exists_eq_add_one_of_ne_zero (Nat.ne_zero_of_lt hfuel)
    rw [List.length_cons, List.length_cons] at hfuel
    exact commaList_go_cons (never hname) (.ok (one hname)) hcomma (ih fuel (by omega))

/-- A counting loop is read when its body is. -/
theorem DerivesForHead.yields {start : Option LoopStart} {cond update : Option Expr} {l : Lexeme}
    {body : Reader Stmt} {stmt : Stmt} {final : List Lexeme} (hopen : l.word = .symbol .leftParen)
    (h : DerivesForHead N row start cond update rest)
    (hbody : Yields (n < N) (body rest) stmt final) :
    Yields (n < N) (loop last (expression last n) body (l :: row))
      (.forLoop start cond update stmt) final := by
  obtain ⟨hof, hstart, hcond, hupdate⟩ := h
  rw [loop, expect_bind_of_eq hopen, upcoming_bind, hof]
  exact hstart.yields last n (hcond.yields last n (hupdate.yields last n
    (hbody.bind (.ok rfl))))

end

/-! ## Statements -/

/-- A word that begins no statement of its own kind. -/
theorem statement_expr {n : Nat} {s : Surroundings} {l : Lexeme} {row : List Lexeme}
    (h : beginsExpr l.word) :
    statement (n + 1) s (l :: row) = (expression s.last n Power.any >>= fun e => do
      endStatement s.last
      return Stmt.expr e) (l :: row) := by
  obtain ⟨hdeclares, hbrace, hsemicolon, hkeywords⟩ := h
  rw [statement, here_bind, peek?_bind, next?_cons]
  cases hw : l.word with
  | keyword k =>
    rw [hw] at hdeclares hkeywords
    cases k <;> first | rfl | (simp at hkeywords; done) | cases hdeclares
  | symbol t =>
    rw [hw] at hbrace hsemicolon
    cases t <;> first | rfl | exact absurd rfl hbrace | exact absurd rfl hsemicolon
  | _ => rfl

theorem statement_declare {n : Nat} {s : Surroundings} {kind : DeclKind} {l : Lexeme}
    {row : List Lexeme} (h : Word.declares? l.word = some kind) :
    statement (n + 1) s (l :: row) =
      (commaSeparated (declarator s.last kind (expression s.last n Power.item)) >>= fun items => do
        endStatement s.last
        return Stmt.declare kind items) row := by
  rw [statement, here_bind, peek?_bind, next?_cons]
  unfold Word.declares? at h
  split at h
  all_goals first | (cases h; rename_i hw; rw [hw]; rfl) | cases h

/-- A statement takes a level; without one it is too deep. -/
theorem statement_yields {N n : Nat} {s : Surroundings} {row rest : List Lexeme} {stmt : Stmt}
    (h : ∀ n, Yields (n < N) (statement (n + 1) s row) stmt rest) :
    Yields (n < N + 1) (statement n s row) stmt rest := by
  cases n with
  | zero => exact tooDeep_yields _ _ _ _
  | succ n => exact (h n).mono Nat.succ_lt_succ

mutual

/-- The readers of statements look at their surroundings for loops and functions only; the last
    position is for messages. -/
theorem DerivesStmt.yields {N : Nat} {s : Surroundings} {row rest : List Lexeme} {stmt : Stmt}
    (last : Position) (n : Nat) : DerivesStmt N s row stmt rest →
    Yields (n < N) (statement n { s with last := last } row) stmt rest
  | .branch hword hcond htrue helse => by
    refine statement_yields fun n => ?_
    rw [statement, here_bind, peek?_bind, next?_cons, hword]
    dsimp only
    rw [drop_bind]
    refine (hcond.yields last n).bind ?_
    refine (htrue.yields last n).bind ?_
    rw [takesKeyword_bind_of_ne helse, if_neg (by simp)]
    exact .ok rfl
  | .branchElse hword hcond htrue helse hfalse => by
    refine statement_yields fun n => ?_
    rw [statement, here_bind, peek?_bind, next?_cons, hword]
    dsimp only
    rw [drop_bind]
    refine (hcond.yields last n).bind ?_
    refine (htrue.yields last n).bind ?_
    rw [takesKeyword_bind_of_eq helse, if_pos rfl]
    exact (hfalse.yields last n).bind (.ok rfl)
  | .whileLoop hword hcond hbody => by
    refine statement_yields fun n => ?_
    rw [statement, here_bind, peek?_bind, next?_cons, hword]
    dsimp only
    rw [drop_bind]
    refine (hcond.yields last n).bind ?_
    exact (hbody.yields last n).bind (.ok rfl)
  | .doWhile hword hbody hwhile hcond hend => by
    refine statement_yields fun n => ?_
    rw [statement, here_bind, peek?_bind, next?_cons, hword]
    dsimp only
    rw [drop_bind]
    refine (hbody.yields last n).bind ?_
    rw [takesKeyword_bind_of_eq hwhile, if_pos rfl]
    refine (hcond.yields last n).bind ?_
    rcases hend with ⟨r, hrest, hr⟩ | ⟨hno, hrest⟩
    · rw [hrest, takes_bind_of_eq hr]
      exact .ok rfl
    · rw [hrest, takes_bind_of_ne hno]
      exact .ok rfl
  | .forOf hword hopen hkind hname hof hiter hclose hbody => by
    refine statement_yields fun n => ?_
    rw [statement, here_bind, peek?_bind, next?_cons, hword]
    dsimp only
    rw [drop_bind, loop, expect_bind_of_eq hopen, upcoming_bind, List.map_cons, List.map_cons,
      List.map_cons, hname, hof, forOfHead?, hkind, Option.map_some]
    dsimp only
    rw [drop_bind, drop_bind, drop_bind]
    refine (hiter.yields last n).bind ?_
    rw [expect_bind_of_eq hclose]
    exact (hbody.yields last n).bind (.ok rfl)
  | .forLoop hword hopen hhead hbody => by
    refine statement_yields fun n => ?_
    rw [statement, here_bind, peek?_bind, next?_cons, hword]
    dsimp only
    rw [drop_bind]
    exact hhead.yields last n hopen (hbody.yields last n)
  | .function hword hname hopen hparams hbrace hbody => by
    refine statement_yields fun n => ?_
    rw [statement, here_bind, peek?_bind, next?_cons, hword]
    dsimp only
    rw [drop_bind, function, expectName_bind_of_eq hname, expect_bind_of_eq hopen]
    refine Yields.bind (.ok (hparams.complete last _ (Nat.lt_succ_self _))) ?_
    refine Yields.bind ?_ (.ok rfl)
    rw [braces, expect_bind_of_eq hbrace]
    exact hbody.yields last n _ (Nat.lt_succ_self _)
  | .breakLoop hword hloop hend => by
    refine statement_yields fun n => ?_
    rw [statement, here_bind, peek?_bind, next?_cons, hword]
    dsimp only
    rw [drop_bind, if_pos hloop]
    exact Yields.bind (.ok hend.complete) (.ok rfl)
  | .continueLoop hword hloop hend => by
    refine statement_yields fun n => ?_
    rw [statement, here_bind, peek?_bind, next?_cons, hword]
    dsimp only
    rw [drop_bind, if_pos hloop]
    exact Yields.bind (.ok hend.complete) (.ok rfl)
  | .retNone hword hfunction hend => by
    refine statement_yields fun n => ?_
    -- what ends the statement also tells that no value follows
    have hvalue : atEnd _ = true := hend.atEnd
    rw [statement, here_bind, peek?_bind, next?_cons, hword]
    dsimp only
    rw [drop_bind, if_pos hfunction, atStatementEnd_bind, if_pos hvalue]
    exact Yields.bind (.ok rfl) (Yields.bind (.ok hend.complete) (.ok rfl))
  | .retSome hword hfunction hvalue he hend => by
    refine statement_yields fun n => ?_
    rw [statement, here_bind, peek?_bind, next?_cons, hword]
    dsimp only
    rw [drop_bind, if_pos hfunction, atStatementEnd_bind, if_neg (by simp [hvalue])]
    refine (he.yields last n).bind ?_
    exact Yields.bind (.ok rfl) (Yields.bind (.ok hend.complete) (.ok rfl))
  | .block hword hbody => by
    refine statement_yields fun n => ?_
    rw [statement, here_bind, peek?_bind, next?_cons, hword]
    dsimp only
    refine Yields.bind ?_ (.ok rfl)
    rw [braces, expect_bind_of_eq hword]
    exact hbody.yields last n _ (Nat.lt_succ_self _)
  | .empty hword => by
    refine statement_yields fun n => ?_
    rw [statement, here_bind, peek?_bind, next?_cons, hword]
    exact .ok rfl
  | .declare hkind hitems hend => by
    refine statement_yields fun n => ?_
    rw [statement_declare hkind]
    refine (hitems.yields last n _ (Nat.le_refl _)).bind ?_
    exact Yields.bind (.ok hend.complete) (.ok rfl)
  | .expr hbegins he hend => by
    refine statement_yields fun n => ?_
    rw [statement_expr hbegins]
    refine (he.yields last n).bind ?_
    exact Yields.bind (.ok hend.complete) (.ok rfl)

theorem DerivesBlock.yields {N : Nat} {s : Surroundings} {row rest : List Lexeme}
    {body : List Stmt} (last : Position) (n : Nat) : DerivesBlock N s row body rest →
    ∀ fuel, row.length < fuel →
      Yields (n < N) (untilBrace.go last (statement n { s with last := last }) fuel row) body rest
  | .nil hclose, fuel, hfuel => by
    obtain ⟨fuel, rfl⟩ := Nat.exists_eq_add_one_of_ne_zero (Nat.ne_zero_of_lt hfuel)
    exact .ok (untilBrace_go_nil hclose)
  | .cons hopen hx hothers, fuel, hfuel => by
    obtain ⟨fuel, rfl⟩ := Nat.exists_eq_add_one_of_ne_zero (Nat.ne_zero_of_lt hfuel)
    have hlt := Nat.lt_of_lt_of_le hx.length_lt (Nat.le_of_lt_succ hfuel)
    exact untilBrace_go_cons hx.ne_nil hopen (hx.yields last n) (hothers.yields last n _ hlt)

end

/-! ## Scripts -/

theorem DerivesProgram.complete {s : Surroundings} {row : List Lexeme} {body : List Stmt}
    (last : Position) (h : DerivesProgram s row body) (fuel : Nat) (hfuel : row.length ≤ fuel) :
    untilEnd.go (statement maxNesting { s with last := last }) fuel row = .ok (body, []) := by
  refine Yields.eq_ok ?_ not_false
  induction h generalizing fuel with
  | nil => cases fuel <;> exact .ok rfl
  | cons hx _ ih =>
    have hlt := hx.length_lt
    obtain ⟨fuel, rfl⟩ : ∃ k, fuel = k + 1 := ⟨fuel - 1, by omega⟩
    have hx := (hx.yields last maxNesting).mono (Nat.lt_irrefl _)
    exact untilEnd_go_cons (List.ne_nil_of_length_pos (by omega)) hx (ih fuel (by omega))

/-- **A row is read as a script exactly when the grammar derives it**, and as what is derived. -/
theorem program_eq_ok_iff {row : List Lexeme} {body : List Stmt} {last : Position} :
    program row = .ok body ↔ DerivesProgram ⟨last, false, false⟩ row body := by
  constructor
  · intro h
    obtain ⟨last', h⟩ := program_sound h
    exact h.withLast last
  · intro h
    rw [program, untilEnd, h.complete _ _ (Nat.le_refl _)]

end Grammar

open Grammar in
/-- A script is read when its text spells a row of lexemes and the grammar derives the row. -/
theorem parse_eq_ok_iff {script : String} {body : List Stmt} (last : Position) :
    parse script = .ok body ↔ ∃ row, SpellsRow false .start script.toList row ∧
      DerivesProgram ⟨last, false, false⟩ row body := by
  unfold parse
  constructor
  · intro h
    split at h
    · cases h
    · rename_i row hrow
      exact ⟨row, lexemes_eq_ok_iff.mp hrow, program_eq_ok_iff.mp h⟩
  · rintro ⟨row, hrow, h⟩
    rw [lexemes_eq_ok_iff.mpr hrow]
    exact program_eq_ok_iff.mpr h

end Stencil.Script
