/-
  What the readers accept, the grammar derives.

  One lemma for each reader, in the order of the readers.  The readers of expressions recurse on
  the nesting levels that are left, so what they are given for the expressions inside is assumed
  to be sound in these lemmas (`hsub`), and one induction on the levels closes the circle
  (`expression_sound`); statements go the same way (`statement_sound`).
-/
import Stencil.Proofs.Script.Grammar.Steps

namespace Stencil.Script

open Grammar (next? breaks)

namespace Reader

variable {α : Type}

/-! ## Rows of items -/

/-- One round of reading items up to a closing symbol: it stands here, or an item does, and behind
    the item a comma or the closing symbol. -/
theorem commaList_go_ok {last : Position} {close : Symbol} {item : Reader α} {fuel : Nat}
    {row rest : List Lexeme} {xs : List α}
    (h : commaList.go last close item (fuel + 1) row = .ok (xs, rest)) :
    (xs = [] ∧ ∃ l, row = l :: rest ∧ l.word = .symbol close) ∨
      next? row ≠ some (.symbol close) ∧ ∃ x mid, item row = .ok (x, mid) ∧
        ((∃ c mid' others, mid = c :: mid' ∧ c.word = .symbol .comma ∧ xs = x :: others ∧
            commaList.go last close item fuel mid' = .ok (others, rest)) ∨
          ∃ r, mid = r :: rest ∧ r.word ≠ .symbol .comma ∧ r.word = .symbol close ∧ xs = [x]) := by
  rw [commaList.go, bind_eq_ok] at h
  obtain ⟨b, row', hb, h⟩ := h
  rcases takes_eq_ok hb with ⟨rfl, l, rfl, hl⟩ | ⟨rfl, rfl, hopen⟩
  · rw [if_pos rfl] at h
    obtain ⟨rfl, rfl⟩ := pure_eq_ok.mp h
    exact Or.inl ⟨rfl, l, rfl, hl⟩
  · rw [if_neg (by simp), bind_eq_ok] at h
    obtain ⟨x, mid, hx, h⟩ := h
    refine Or.inr ⟨hopen, x, mid, hx, ?_⟩
    rw [bind_eq_ok] at h
    obtain ⟨b, mid', hb, h⟩ := h
    rcases takes_eq_ok hb with ⟨rfl, c, rfl, hc⟩ | ⟨rfl, rfl, hcomma⟩
    · rw [if_pos rfl, bind_eq_ok] at h
      obtain ⟨others, rest', hothers, h⟩ := h
      obtain ⟨rfl, rfl⟩ := pure_eq_ok.mp h
      exact Or.inl ⟨c, mid', others, rfl, hc, rfl, hothers⟩
    · rw [if_neg (by simp), bind_eq_ok] at h
      obtain ⟨u, rest', hclose, h⟩ := h
      obtain ⟨rfl, rfl⟩ := pure_eq_ok.mp h
      obtain ⟨r, rfl, hr⟩ := expect_eq_ok hclose
      exact Or.inr ⟨r, rfl, by simpa using hcomma, hr, rfl⟩

/-- What holds of every way in which a row of items ends, and of the row that goes on behind an item
    and a comma, holds of all rows of items that are read. -/
theorem commaList_ok {last : Position} {close : Symbol} {item : Reader α} {rest : List Lexeme}
    {P : List Lexeme → List α → Prop} {row : List Lexeme} {xs : List α}
    (h : commaList last close item row = .ok (xs, rest))
    (hnil : ∀ {l}, l.word = .symbol close → P (l :: rest) [])
    (hlast : ∀ {row r x}, next? row ≠ some (.symbol close) → item row = .ok (x, r :: rest) →
      r.word ≠ .symbol .comma → r.word = .symbol close → P row [x])
    (hcons : ∀ {row c mid x others}, next? row ≠ some (.symbol close) →
      item row = .ok (x, c :: mid) → c.word = .symbol .comma → P mid others → P row (x :: others)) :
    P row xs := by
  have go : ∀ (fuel : Nat) (row : List Lexeme) (xs : List α),
      commaList.go last close item fuel row = .ok (xs, rest) → P row xs := by
    intro fuel
    induction fuel with
    | zero => intro row xs h; exact absurd h unexpected_ne_ok
    | succ fuel ih =>
      intro row xs h
      rcases commaList_go_ok h with ⟨rfl, l, rfl, hl⟩ | ⟨hopen, x, mid, hx, hmid⟩
      · exact hnil hl
      · rcases hmid with ⟨c, mid', others, rfl, hc, rfl, hothers⟩ | ⟨r, rfl, hcomma, hr, rfl⟩
        · exact hcons hopen hx hc (ih _ _ hothers)
        · exact hlast hopen hx hcomma hr
  exact go _ _ _ h

/-- One round of reading items with commas between them. -/
theorem commaSeparated_go_ok {item : Reader α} {fuel : Nat} {row rest : List Lexeme} {xs : List α}
    (h : commaSeparated.go item (fuel + 1) row = .ok (xs, rest)) :
    ∃ x mid, item row = .ok (x, mid) ∧
      ((∃ c mid' others, mid = c :: mid' ∧ c.word = .symbol .comma ∧ xs = x :: others ∧
          commaSeparated.go item fuel mid' = .ok (others, rest)) ∨
        next? rest ≠ some (.symbol .comma) ∧ mid = rest ∧ xs = [x]) := by
  rw [commaSeparated.go, bind_eq_ok] at h
  obtain ⟨x, mid, hx, h⟩ := h
  refine ⟨x, mid, hx, ?_⟩
  rw [bind_eq_ok] at h
  obtain ⟨b, mid', hb, h⟩ := h
  rcases takes_eq_ok hb with ⟨rfl, c, rfl, hc⟩ | ⟨rfl, rfl, hcomma⟩
  · rw [if_pos rfl, bind_eq_ok] at h
    obtain ⟨others, rest', hothers, h⟩ := h
    obtain ⟨rfl, rfl⟩ := pure_eq_ok.mp h
    exact Or.inl ⟨c, mid', others, rfl, hc, rfl, hothers⟩
  · rw [if_neg (by simp)] at h
    obtain ⟨rfl, rfl⟩ := pure_eq_ok.mp h
    exact Or.inr ⟨hcomma, rfl, rfl⟩

/-- One round of reading items up to a closing brace. -/
theorem untilBrace_go_ok {last : Position} {item : Reader α} {fuel : Nat} {row rest : List Lexeme}
    {xs : List α} (h : untilBrace.go last item (fuel + 1) row = .ok (xs, rest)) :
    (xs = [] ∧ ∃ l, row = l :: rest ∧ l.word = .symbol .rightBrace) ∨
      next? row ≠ some (.symbol .rightBrace) ∧ row ≠ [] ∧ ∃ x mid others, item row = .ok (x, mid) ∧
        xs = x :: others ∧ untilBrace.go last item fuel mid = .ok (others, rest) := by
  rw [untilBrace.go, bind_eq_ok] at h
  obtain ⟨b, row', hb, h⟩ := h
  rcases takes_eq_ok hb with ⟨rfl, l, rfl, hl⟩ | ⟨rfl, rfl, hopen⟩
  · rw [if_pos rfl] at h
    obtain ⟨rfl, rfl⟩ := pure_eq_ok.mp h
    exact Or.inl ⟨rfl, l, rfl, hl⟩
  · rw [if_neg (by simp), peek?_bind] at h
    cases row with
    | nil =>
      rw [if_pos (by simp)] at h
      exact absurd h unexpected_ne_ok
    | cons l row =>
      rw [if_neg (by simp), bind_eq_ok] at h
      obtain ⟨x, mid, hx, h⟩ := h
      rw [bind_eq_ok] at h
      obtain ⟨others, rest', hothers, h⟩ := h
      obtain ⟨rfl, rfl⟩ := pure_eq_ok.mp h
      exact Or.inr ⟨hopen, by simp, x, mid, others, hx, rfl, hothers⟩

/-- One round of reading items up to the end of the row. -/
theorem untilEnd_go_ok {item : Reader α} {fuel : Nat} {row rest : List Lexeme} {xs : List α}
    (h : untilEnd.go item (fuel + 1) row = .ok (xs, rest)) :
    (row = [] ∧ xs = [] ∧ rest = []) ∨
      ∃ x mid others, item row = .ok (x, mid) ∧ xs = x :: others ∧
        untilEnd.go item fuel mid = .ok (others, rest) := by
  rw [untilEnd.go, peek?_bind] at h
  cases row with
  | nil =>
    rw [if_pos (by simp)] at h
    obtain ⟨rfl, rfl⟩ := pure_eq_ok.mp h
    exact Or.inl ⟨rfl, rfl, rfl⟩
  | cons l row =>
    rw [if_neg (by simp), bind_eq_ok] at h
    obtain ⟨x, mid, hx, h⟩ := h
    rw [bind_eq_ok] at h
    obtain ⟨others, rest', hothers, h⟩ := h
    obtain ⟨rfl, rfl⟩ := pure_eq_ok.mp h
    exact Or.inr ⟨x, mid, others, hx, rfl, hothers⟩

end Reader

namespace Grammar

open Reader

variable {last : Position} {n : Nat} {row rest : List Lexeme}

/-! ## Expressions -/

theorem property_sound {s : String} (h : property last row = .ok (s, rest)) :
    ∃ l, row = l :: rest ∧ l.word.property? = some s := by
  rw [property, peek?_bind] at h
  cases row with
  | nil => exact absurd h unexpected_ne_ok
  | cons l row =>
    rw [next?_cons] at h
    refine ⟨l, ?_⟩
    cases hw : l.word with
    | name t =>
      rw [hw] at h
      obtain ⟨rfl, rfl⟩ := pure_eq_ok.mp h
      exact ⟨rfl, rfl⟩
    | keyword k =>
      rw [hw] at h
      obtain ⟨rfl, rfl⟩ := pure_eq_ok.mp h
      exact ⟨rfl, rfl⟩
    | number x => rw [hw] at h; exact absurd h unexpected_ne_ok
    | text t => rw [hw] at h; exact absurd h unexpected_ne_ok
    | symbol s => rw [hw] at h; exact absurd h unexpected_ne_ok

/-- A literal or a name is a whole operand. -/
theorem atom_sound {l : Lexeme} {e e' : Expr} (hatom : l.word.atom? l.pos = some e')
    (h : (do drop; return e') (l :: row) = .ok (e, rest)) : DerivesPrimary n (l :: row) e rest := by
  rw [drop_bind, pure_eq_ok] at h
  obtain ⟨rfl, rfl⟩ := h
  exact DerivesPrimary.atom hatom

section Parts

/-! What is read inside an expression is assumed to be derived. -/

variable {sub : Nat → Reader Expr}
  (hsub : ∀ {least : Nat} {row rest : List Lexeme} {e : Expr},
    sub least row = .ok (e, rest) → DerivesExpr n least row e rest)
include hsub

/-- A key, a colon and a value. -/
theorem keyed_sound {l : Lexeme} {s : String} {x : String × Expr} (hkey : l.word.key? = some s)
    (h : (do expect last .colon; return (s, ← sub Power.item)) row = .ok (x, rest)) :
    DerivesMember n (l :: row) x rest := by
  rw [bind_eq_ok] at h
  obtain ⟨u, mid, hcolon, h⟩ := h
  obtain ⟨c, rfl, hc⟩ := expect_eq_ok hcolon
  rw [bind_eq_ok] at h
  obtain ⟨e, rest', he, h⟩ := h
  obtain ⟨rfl, rfl⟩ := pure_eq_ok.mp h
  exact DerivesMember.keyed hkey hc (hsub he)

theorem objectMember_sound {x : String × Expr}
    (h : objectMember last (sub Power.item) row = .ok (x, rest)) : DerivesMember n row x rest := by
  unfold objectMember at h
  cases row with
  | nil => exact absurd h unexpected_ne_ok
  | cons l row =>
    rw [here_bind, peek?_bind, next?_cons] at h
    cases hw : l.word with
    | name s =>
      rw [hw] at h
      dsimp only at h
      rw [drop_bind, bind_eq_ok] at h
      obtain ⟨b, mid, hb, h⟩ := h
      rcases takes_eq_ok hb with ⟨rfl, c, rfl, hc⟩ | ⟨rfl, rfl, hcolon⟩
      · rw [if_pos rfl, bind_eq_ok] at h
        obtain ⟨e, rest', he, h⟩ := h
        obtain ⟨rfl, rfl⟩ := pure_eq_ok.mp h
        exact DerivesMember.keyed (by rw [hw]; rfl) hc (hsub he)
      · rw [if_neg (by simp)] at h
        obtain ⟨rfl, rfl⟩ := pure_eq_ok.mp h
        exact DerivesMember.short hw hcolon
    | text s => rw [hw] at h; exact keyed_sound hsub (by rw [hw]; rfl) h
    | keyword k => rw [hw] at h; exact keyed_sound hsub (by rw [hw]; rfl) h
    | number x => rw [hw] at h; exact keyed_sound hsub (by rw [hw]; rfl) h
    | symbol s => rw [hw] at h; exact absurd h unexpected_ne_ok

theorem items_sound {close : Symbol} {xs : List Expr}
    (h : commaList last close (sub Power.item) row = .ok (xs, rest)) :
    DerivesItems n close row xs rest := by
  refine commaList_ok (P := (DerivesItems n close · · rest)) h ?_ ?_ ?_
  · intro l hl
    exact DerivesItems.nil hl
  · intro row r x hopen hx hcomma hr
    exact DerivesItems.last hopen (hsub hx) hcomma hr
  · intro row c mid x others hopen hx hc hothers
    exact DerivesItems.cons hopen (hsub hx) hc hothers

theorem members_sound {xs : List (String × Expr)}
    (h : commaList last .rightBrace (objectMember last (sub Power.item)) row = .ok (xs, rest)) :
    DerivesMembers n row xs rest := by
  refine commaList_ok (P := (DerivesMembers n · · rest)) h ?_ ?_ ?_
  · intro l hl
    exact DerivesMembers.nil hl
  · intro row r x _ hx _ hr
    exact DerivesMembers.last (objectMember_sound hsub hx) hr
  · intro row c mid x others _ hx hc hothers
    exact DerivesMembers.cons (objectMember_sound hsub hx) hc hothers

theorem primary_sound {e : Expr} (h : primary last sub row = .ok (e, rest)) :
    DerivesPrimary n row e rest := by
  unfold primary at h
  cases row with
  | nil => exact absurd h unexpected_ne_ok
  | cons l row =>
    obtain ⟨w, pos, broken⟩ := l
    rw [here_bind, peek?_bind, next?_cons] at h
    cases w with
    | number x => exact atom_sound rfl h
    | text s => exact atom_sound rfl h
    | name s => exact atom_sound rfl h
    | keyword k =>
      cases k with
      | kwTrue => exact atom_sound rfl h
      | kwFalse => exact atom_sound rfl h
      | kwNull => exact atom_sound rfl h
      | kwUndefined => exact atom_sound rfl h
      | _ => exact absurd h unexpected_ne_ok
    | symbol s =>
      cases s with
      | leftParen =>
        dsimp only at h
        rw [drop_bind, bind_eq_ok] at h
        obtain ⟨inner, mid, hinner, h⟩ := h
        rw [bind_eq_ok] at h
        obtain ⟨u, rest', hclose, h⟩ := h
        obtain ⟨rfl, rfl⟩ := pure_eq_ok.mp h
        obtain ⟨r, rfl, hr⟩ := expect_eq_ok hclose
        exact DerivesPrimary.group rfl (hsub hinner) hr
      | leftBracket =>
        dsimp only at h
        rw [drop_bind, bind_eq_ok] at h
        obtain ⟨items, mid, hitems, h⟩ := h
        obtain ⟨rfl, rfl⟩ := pure_eq_ok.mp h
        exact DerivesPrimary.array rfl (items_sound hsub hitems)
      | leftBrace =>
        dsimp only at h
        rw [drop_bind, bind_eq_ok] at h
        obtain ⟨members, mid, hmembers, h⟩ := h
        obtain ⟨rfl, rfl⟩ := pure_eq_ok.mp h
        exact DerivesPrimary.object rfl (members_sound hsub hmembers)
      | _ => exact absurd h unexpected_ne_ok

theorem operand_sound {suffixes : Expr → Reader Expr} {e : Expr}
    (hsuffixes : ∀ {row rest : List Lexeme} {e e' : Expr},
      suffixes e row = .ok (e', rest) → DerivesSuffixes n e row e' rest)
    (h : operand last sub suffixes row = .ok (e, rest)) : DerivesOperand n row e rest := by
  -- without an operator before it, the operand begins with its primary
  have primary {row : List Lexeme} (h : (primary last sub >>= suffixes) row = .ok (e, rest)) :
      DerivesOperand n row e rest := by
    rw [bind_eq_ok] at h
    obtain ⟨e', mid, he', h⟩ := h
    exact DerivesOperand.primary (primary_sound hsub he') (hsuffixes h)
  unfold operand at h
  cases row with
  | nil => exact primary h
  | cons l row =>
    rw [here_bind, peek?_bind, next?_cons, Option.bind_some, Option.bind_some] at h
    cases hup : l.word.update? with
    | some op =>
      rw [hup] at h
      dsimp only at h
      rw [drop_bind, bind_eq_ok] at h
      obtain ⟨e', mid, he', h⟩ := h
      rw [bind_eq_ok] at h
      obtain ⟨target, mid', htarget, h⟩ := h
      obtain ⟨hplace, rfl⟩ := placeOf_eq_ok.mp htarget
      obtain ⟨rfl, rfl⟩ := pure_eq_ok.mp h
      exact DerivesOperand.update hup (hsub he') hplace
    | none =>
      rw [hup] at h
      cases hun : l.word.unary? with
      | some op =>
        rw [hun] at h
        dsimp only at h
        rw [drop_bind, bind_eq_ok] at h
        obtain ⟨e', mid, he', h⟩ := h
        obtain ⟨rfl, rfl⟩ := pure_eq_ok.mp h
        exact DerivesOperand.unary hun (hsub he')
      | none =>
        rw [hun] at h
        exact primary h

theorem suffixed_sound {e e' : Expr} {s : Suffix} (h : suffixed last sub e s row = .ok (e', rest)) :
    DerivesSuffixed n e s row e' rest := by
  cases s with
  | member =>
    rw [suffixed, bind_eq_ok] at h
    obtain ⟨s, mid, hs, h⟩ := h
    obtain ⟨rfl, rfl⟩ := pure_eq_ok.mp h
    obtain ⟨l, rfl, hl⟩ := property_sound hs
    exact DerivesSuffixed.member hl
  | index =>
    rw [suffixed, bind_eq_ok] at h
    obtain ⟨key, mid, hkey, h⟩ := h
    rw [bind_eq_ok] at h
    obtain ⟨u, rest', hclose, h⟩ := h
    obtain ⟨rfl, rfl⟩ := pure_eq_ok.mp h
    obtain ⟨r, rfl, hr⟩ := expect_eq_ok hclose
    exact DerivesSuffixed.index (hsub hkey) hr
  | call =>
    rw [suffixed, bind_eq_ok] at h
    obtain ⟨args, mid, hargs, h⟩ := h
    obtain ⟨rfl, rfl⟩ := pure_eq_ok.mp h
    exact DerivesSuffixed.call (items_sound hsub hargs)

theorem joined_sound {lhs e : Expr} {power : Power} {c : Connective}
    (h : joined last sub lhs power c row = .ok (e, rest)) :
    DerivesJoined n lhs power c row e rest := by
  cases c with
  | binary op =>
    rw [joined, bind_eq_ok] at h
    obtain ⟨rhs, mid, hrhs, h⟩ := h
    obtain ⟨rfl, rfl⟩ := pure_eq_ok.mp h
    exact DerivesJoined.binary (hsub hrhs)
  | logical op =>
    rw [joined, bind_eq_ok] at h
    obtain ⟨rhs, mid, hrhs, h⟩ := h
    obtain ⟨rfl, rfl⟩ := pure_eq_ok.mp h
    exact DerivesJoined.logical (hsub hrhs)
  | assign op =>
    rw [joined, bind_eq_ok] at h
    obtain ⟨target, mid, htarget, h⟩ := h
    obtain ⟨hplace, rfl⟩ := placeOf_eq_ok.mp htarget
    rw [bind_eq_ok] at h
    obtain ⟨rhs, mid, hrhs, h⟩ := h
    obtain ⟨rfl, rfl⟩ := pure_eq_ok.mp h
    exact DerivesJoined.assign hplace (hsub hrhs)
  | conditional =>
    rw [joined, bind_eq_ok] at h
    obtain ⟨whenTrue, mid, htrue, h⟩ := h
    rw [bind_eq_ok] at h
    obtain ⟨u, mid', hcolon, h⟩ := h
    obtain ⟨r, rfl, hr⟩ := expect_eq_ok hcolon
    rw [bind_eq_ok] at h
    obtain ⟨whenFalse, rest', hfalse, h⟩ := h
    obtain ⟨rfl, rfl⟩ := pure_eq_ok.mp h
    exact DerivesJoined.conditional (hsub htrue) hr (hsub hfalse)

end Parts

/-- What stands behind an operand without a suffix: an increment or decrement, or nothing. -/
theorem updated_sound {e e' : Expr} (hsuffix : (next? row).bind Word.suffix? = none)
    (h : updated e row = .ok (e', rest)) : DerivesSuffixes n e row e' rest := by
  rw [updated, peek?_bind] at h
  cases hup : (next? row).bind Word.update? with
  | none =>
    rw [hup] at h
    obtain ⟨rfl, rfl⟩ := pure_eq_ok.mp h
    exact DerivesSuffixes.done hsuffix (Or.inl hup)
  | some op =>
    rw [hup] at h
    dsimp only at h
    rw [afterBreak_bind] at h
    cases row with
    | nil => simp at hup
    | cons l row =>
      by_cases hline : breaks (l :: row) = true
      · rw [if_pos hline] at h
        obtain ⟨rfl, rfl⟩ := pure_eq_ok.mp h
        exact DerivesSuffixes.done hsuffix (Or.inr hline)
      · rw [if_neg hline, bind_eq_ok] at h
        obtain ⟨target, mid, htarget, h⟩ := h
        obtain ⟨hplace, rfl⟩ := placeOf_eq_ok.mp htarget
        rw [drop_bind, pure_eq_ok] at h
        obtain ⟨rfl, rfl⟩ := h
        exact DerivesSuffixes.update hup (by simpa [breaks] using hline) hplace

/-- One induction on the levels for the three readers that recurse on them. -/
theorem levels_sound (last : Position) (levels : Nat) :
    (∀ {least : Nat} {row rest : List Lexeme} {e : Expr},
      expression last levels least row = .ok (e, rest) → DerivesExpr levels least row e rest) ∧
    (∀ {least : Nat} {row rest : List Lexeme} {lhs e : Expr},
      operators last levels least lhs row = .ok (e, rest) →
        DerivesOperators levels least lhs row e rest) ∧
    (∀ {row rest : List Lexeme} {e e' : Expr},
      suffixes last levels e row = .ok (e', rest) → DerivesSuffixes levels e row e' rest) := by
  induction levels with
  | zero =>
    -- without a level only what takes none is read
    refine ⟨?_, ?_, ?_⟩
    · intro least row rest e h
      rw [expression] at h
      exact absurd h tooDeep_ne_ok
    · intro least row rest lhs e h
      rw [operators, peek?_bind] at h
      cases hc : (next? row).bind (Word.connective? least) with
      | none =>
        rw [hc] at h
        obtain ⟨rfl, rfl⟩ := pure_eq_ok.mp h
        exact DerivesOperators.done hc
      | some c => rw [hc] at h; exact absurd h tooDeep_ne_ok
    · intro row rest e e' h
      rw [suffixes, peek?_bind] at h
      cases hs : (next? row).bind Word.suffix? with
      | none => rw [hs] at h; exact updated_sound hs h
      | some s => rw [hs] at h; exact absurd h tooDeep_ne_ok
  | succ n ih =>
    obtain ⟨ihexpr, ihops, ihsuffixes⟩ := ih
    refine ⟨?_, ?_, ?_⟩
    · intro least row rest e h
      rw [expression, bind_eq_ok] at h
      obtain ⟨lhs, mid, hlhs, h⟩ := h
      exact DerivesExpr.mk (operand_sound ihexpr ihsuffixes hlhs) (ihops h)
    · intro least row rest lhs e h
      rw [operators, peek?_bind] at h
      cases row with
      | nil =>
        obtain ⟨rfl, rfl⟩ := pure_eq_ok.mp h
        exact DerivesOperators.done rfl
      | cons l row =>
        rw [next?_cons, Option.bind_some] at h
        cases hc : l.word.connective? least with
        | none =>
          rw [hc] at h
          obtain ⟨rfl, rfl⟩ := pure_eq_ok.mp h
          exact DerivesOperators.done hc
        | some pc =>
          obtain ⟨power, c⟩ := pc
          rw [hc] at h
          dsimp only at h
          rw [drop_bind, bind_eq_ok] at h
          obtain ⟨e', mid, he', h⟩ := h
          exact DerivesOperators.more hc (joined_sound ihexpr he') (ihops h)
    · intro row rest e e' h
      rw [suffixes, peek?_bind] at h
      cases row with
      | nil => exact updated_sound rfl h
      | cons l row =>
        rw [next?_cons, Option.bind_some] at h
        cases hs : Word.suffix? l.word with
        | none => rw [hs] at h; exact updated_sound hs h
        | some s =>
          rw [hs] at h
          dsimp only at h
          rw [drop_bind, bind_eq_ok] at h
          obtain ⟨e'', mid, he'', h⟩ := h
          exact DerivesSuffixes.more hs (suffixed_sound ihexpr he'') (ihsuffixes h)

/-- **An expression that is read is derived.** -/
theorem expression_sound {levels least : Nat} {e : Expr}
    (h : expression last levels least row = .ok (e, rest)) : DerivesExpr levels least row e rest :=
  (levels_sound last levels).1 h

/-! ## Parts of statements -/

theorem endStatement_sound {u : Unit} (h : endStatement last row = .ok (u, rest)) :
    EndsStmt row rest := by
  rw [endStatement, bind_eq_ok] at h
  obtain ⟨b, mid, hb, h⟩ := h
  rcases takes_eq_ok hb with ⟨rfl, l, rfl, hl⟩ | ⟨rfl, rfl, hno⟩
  · rw [if_pos rfl] at h
    obtain ⟨-, rfl⟩ := pure_eq_ok.mp h
    exact EndsStmt.semicolon hl
  · rw [if_neg (by simp), atStatementEnd_bind] at h
    by_cases hend : atEnd row = true
    · rw [if_pos hend] at h
      obtain ⟨-, rfl⟩ := pure_eq_ok.mp h
      exact EndsStmt.missing hno hend
    · rw [if_neg hend] at h
      exact absurd h unexpected_ne_ok

section Parts

variable {expr : Nat → Reader Expr}
  (hexpr : ∀ {least : Nat} {row rest : List Lexeme} {e : Expr},
    expr least row = .ok (e, rest) → DerivesExpr n least row e rest)
include hexpr

theorem declarator_sound {kind : DeclKind} {x : Declarator}
    (h : declarator last kind (expr Power.item) row = .ok (x, rest)) :
    DerivesDeclarator n kind row x rest := by
  unfold declarator at h
  cases row with
  | nil =>
    rw [here_bind_nil, bind_eq_ok] at h
    obtain ⟨name, mid, hname, h⟩ := h
    obtain ⟨l, hrow, -⟩ := expectName_eq_ok hname
    cases hrow
  | cons l row =>
    rw [here_bind, bind_eq_ok] at h
    obtain ⟨name, mid, hname, h⟩ := h
    obtain ⟨l', hrow, hl⟩ := expectName_eq_ok hname
    obtain ⟨rfl, rfl⟩ := List.cons.inj hrow
    rw [bind_eq_ok] at h
    obtain ⟨b, mid', hb, h⟩ := h
    rcases takes_eq_ok hb with ⟨rfl, a, rfl, ha⟩ | ⟨rfl, rfl, hassign⟩
    · rw [if_pos rfl, bind_eq_ok] at h
      obtain ⟨e, rest', he, h⟩ := h
      obtain ⟨rfl, rfl⟩ := pure_eq_ok.mp h
      exact DerivesDeclarator.valued hl ha (hexpr he)
    · rw [if_neg (by simp)] at h
      by_cases hkind : kind = .constDecl
      · rw [if_pos hkind] at h
        exact absurd h unexpected_ne_ok
      · rw [if_neg hkind] at h
        obtain ⟨rfl, rfl⟩ := pure_eq_ok.mp h
        exact DerivesDeclarator.bare hl hassign hkind

theorem declarators_sound {kind : DeclKind} {xs : List Declarator}
    (h : commaSeparated (declarator last kind (expr Power.item)) row = .ok (xs, rest)) :
    DerivesDeclarators n kind row xs rest := by
  have go : ∀ (fuel : Nat) (row : List Lexeme) (xs : List Declarator), row.length ≤ fuel →
      commaSeparated.go (declarator last kind (expr Power.item)) fuel row = .ok (xs, rest) →
        DerivesDeclarators n kind row xs rest := by
    intro fuel
    induction fuel with
    | zero =>
      -- an empty row holds no name
      intro row xs hfuel h
      obtain rfl : row = [] := List.length_eq_zero_iff.mp (Nat.le_zero.mp hfuel)
      rw [commaSeparated.go, bind_eq_ok] at h
      obtain ⟨x, mid, hx, h⟩ := h
      nomatch declarator_sound hexpr hx
    | succ fuel ih =>
      intro row xs hfuel h
      obtain ⟨x, mid, hx, hmid⟩ := commaSeparated_go_ok h
      rcases hmid with ⟨c, mid', others, rfl, hc, rfl, hothers⟩ | ⟨hcomma, rfl, rfl⟩
      · have hx := declarator_sound hexpr hx
        have hlt := hx.length_lt
        rw [List.length_cons] at hlt
        exact DerivesDeclarators.cons hx hc (ih _ _ (by omega) hothers)
      · exact DerivesDeclarators.last (declarator_sound hexpr hx) hcomma
  exact go _ _ _ (Nat.le_refl _) h

theorem condition_sound {e : Expr} (h : condition last (expr Power.any) row = .ok (e, rest)) :
    DerivesCondition n row e rest := by
  rw [condition, bind_eq_ok] at h
  obtain ⟨u, mid, hopen, h⟩ := h
  obtain ⟨l, rfl, hl⟩ := expect_eq_ok hopen
  rw [bind_eq_ok] at h
  obtain ⟨e', mid', he', h⟩ := h
  rw [bind_eq_ok] at h
  obtain ⟨u, rest', hclose, h⟩ := h
  obtain ⟨rfl, rfl⟩ := pure_eq_ok.mp h
  obtain ⟨r, rfl, hr⟩ := expect_eq_ok hclose
  exact DerivesCondition.mk hl (hexpr he') hr

/-- An expression that may be missing is read together with the symbol behind it. -/
theorem optional_sound {stop : Symbol} {e : Option Expr} {u : Unit} {mid : List Lexeme}
    (h : optional stop (expr Power.any) row = .ok (e, mid))
    (hstop : expect last stop mid = .ok (u, rest)) : DerivesOptional n stop row e rest := by
  obtain ⟨r, rfl, hr⟩ := expect_eq_ok hstop
  unfold optional at h
  by_cases hsees : next? row = some (.symbol stop)
  · cases row with
    | nil => simp at hsees
    | cons l row =>
      have hl : l.word = .symbol stop := by simpa using hsees
      rw [sees_bind_of_eq hl, if_pos rfl] at h
      obtain ⟨rfl, hrow⟩ := pure_eq_ok.mp h
      cases hrow
      exact DerivesOptional.none hl
  · rw [sees_bind_of_ne hsees, if_neg (by simp), bind_eq_ok] at h
    obtain ⟨e', mid, he', h⟩ := h
    obtain ⟨rfl, rfl⟩ := pure_eq_ok.mp h
    exact DerivesOptional.some hsees (hexpr he') hr

theorem loopStart_sound {start : Option LoopStart} {u : Unit} {mid : List Lexeme}
    (h : loopStart last expr row = .ok (start, mid))
    (hstop : expect last .semicolon mid = .ok (u, rest)) : DerivesStart n row start rest := by
  obtain ⟨r, rfl, hr⟩ := expect_eq_ok hstop
  unfold loopStart at h
  by_cases hsees : next? row = some (.symbol .semicolon)
  · cases row with
    | nil => simp at hsees
    | cons l row =>
      have hl : l.word = .symbol .semicolon := by simpa using hsees
      rw [sees_bind_of_eq hl, if_pos rfl] at h
      obtain ⟨rfl, hrow⟩ := pure_eq_ok.mp h
      cases hrow
      exact DerivesStart.none hl
  · rw [sees_bind_of_ne hsees, if_neg (by simp), peek?_bind] at h
    cases hkind : (next? row).bind Word.declares? with
    | some kind =>
      rw [hkind] at h
      cases row with
      | nil => simp at hkind
      | cons l row =>
        dsimp only at h
        rw [drop_bind, bind_eq_ok] at h
        obtain ⟨items, mid, hitems, h⟩ := h
        obtain ⟨rfl, rfl⟩ := pure_eq_ok.mp h
        exact DerivesStart.declare hkind (declarators_sound hexpr hitems) hr
    | none =>
      rw [hkind] at h
      dsimp only at h
      rw [bind_eq_ok] at h
      obtain ⟨e, mid, he, h⟩ := h
      obtain ⟨rfl, rfl⟩ := pure_eq_ok.mp h
      exact DerivesStart.expr hsees hkind (hexpr he) hr

end Parts

theorem params_sound {xs : List String}
    (h : commaList last .rightParen (expectName last) row = .ok (xs, rest)) :
    DerivesParams row xs rest := by
  refine commaList_ok (P := (DerivesParams · · rest)) h ?_ ?_ ?_
  · intro l hl
    exact DerivesParams.nil hl
  · intro row r x _ hx _ hr
    obtain ⟨l, rfl, hl⟩ := expectName_eq_ok hx
    exact DerivesParams.last hl hr
  · intro row c mid x others _ hx hc hothers
    obtain ⟨l, rfl, hl⟩ := expectName_eq_ok hx
    exact DerivesParams.cons hl hc hothers

/-! ## Statements -/

/-- The words that a loop over items begins with, behind its opening parenthesis. -/
theorem forOfHead?_eq_some {kind : DeclKind} {name : String}
    (h : forOfHead? (row.map Lexeme.word) = some (kind, name)) :
    ∃ k x w rest, row = k :: x :: w :: rest ∧ Word.declares? k.word = some kind ∧
      x.word = .name name ∧ w.word = .name "of" := by
  match row, h with
  | [], h => simp [forOfHead?] at h
  | [k], h => simp [forOfHead?] at h
  | [k, x], h =>
    simp only [List.map_cons, List.map_nil] at h
    unfold forOfHead? at h
    split at h <;> simp_all
  | k :: x :: w :: rest, h =>
    simp only [List.map_cons] at h
    unfold forOfHead? at h
    split at h
    · rename_i w' name' tail heq
      simp only [List.cons.injEq] at heq
      obtain ⟨rfl, hx, hw, -⟩ := heq
      obtain ⟨kind', hkind, heq⟩ := Option.map_eq_some_iff.mp h
      obtain ⟨rfl, rfl⟩ := Prod.mk.inj heq
      exact ⟨k, x, w, rest, rfl, hkind, hx, hw⟩
    · simp at h

section Nested

/-! What is read inside a statement is assumed to be derived. -/

variable {s : Surroundings} {stmt : Reader Stmt}
  (hstmt : ∀ {row rest : List Lexeme} {x : Stmt},
    stmt row = .ok (x, rest) → DerivesStmt n s row x rest)
include hstmt

theorem block_sound {xs : List Stmt} (h : untilBrace last stmt row = .ok (xs, rest)) :
    DerivesBlock n s row xs rest := by
  have go : ∀ (fuel : Nat) (row : List Lexeme) (xs : List Stmt),
      untilBrace.go last stmt fuel row = .ok (xs, rest) → DerivesBlock n s row xs rest := by
    intro fuel
    induction fuel with
    | zero => intro row xs h; exact absurd h unexpected_ne_ok
    | succ fuel ih =>
      intro row xs h
      rcases untilBrace_go_ok h with ⟨rfl, l, rfl, hl⟩ | ⟨hopen, -, x, mid, others, hx, rfl, hmore⟩
      · exact DerivesBlock.nil hl
      · exact DerivesBlock.cons hopen (hstmt hx) (ih _ _ hmore)
  exact go _ _ _ h

theorem braces_sound {xs : List Stmt} (h : braces last stmt row = .ok (xs, rest)) :
    ∃ l mid, row = l :: mid ∧ l.word = .symbol .leftBrace ∧ DerivesBlock n s mid xs rest := by
  rw [braces, bind_eq_ok] at h
  obtain ⟨u, mid, hopen, h⟩ := h
  obtain ⟨l, rfl, hl⟩ := expect_eq_ok hopen
  exact ⟨l, mid, rfl, hl, block_sound hstmt h⟩

end Nested

/-- `break` and `continue` are the words of a loop that end at once. -/
theorem jump_sound {s : Surroundings} {levels : Nat} {l : Lexeme} {x x' : Stmt} {fault : Fault}
    (hjump : s.inLoop = true → ∀ {row rest}, EndsStmt row rest →
      DerivesStmt (levels + 1) s (l :: row) x' rest)
    (h : (if s.inLoop then do endStatement s.last; return x' else fail ⟨fault, l.pos⟩) row
      = .ok (x, rest)) : DerivesStmt (levels + 1) s (l :: row) x rest := by
  by_cases hloop : s.inLoop = true
  · rw [if_pos hloop, bind_eq_ok] at h
    obtain ⟨u, mid, hend, h⟩ := h
    obtain ⟨rfl, rfl⟩ := pure_eq_ok.mp h
    exact hjump hloop (endStatement_sound hend)
  · rw [if_neg hloop] at h
    cases h

/-- A declaration or an expression, up to its end. -/
theorem simple_sound {s : Surroundings} {levels : Nat} {l : Lexeme} {x : Stmt}
    (hbegins : Word.declares? l.word = none → beginsExpr l.word)
    (h : (match Word.declares? l.word with
      | some kind => do
        drop
        let items ← commaSeparated (declarator s.last kind (expression s.last levels Power.item))
        endStatement s.last
        return .declare kind items
      | none => do
        let e ← expression s.last levels Power.any
        endStatement s.last
        return .expr e : Reader Stmt) (l :: row) = .ok (x, rest)) :
    DerivesStmt (levels + 1) s (l :: row) x rest := by
  cases hkind : Word.declares? l.word with
  | some kind =>
    rw [hkind] at h
    dsimp only at h
    rw [drop_bind, bind_eq_ok] at h
    obtain ⟨items, mid, hitems, h⟩ := h
    rw [bind_eq_ok] at h
    obtain ⟨u, mid', hend, h⟩ := h
    obtain ⟨rfl, rfl⟩ := pure_eq_ok.mp h
    exact DerivesStmt.declare hkind (declarators_sound expression_sound hitems)
      (endStatement_sound hend)
  | none =>
    rw [hkind] at h
    dsimp only at h
    rw [bind_eq_ok] at h
    obtain ⟨e, mid, he, h⟩ := h
    rw [bind_eq_ok] at h
    obtain ⟨u, mid', hend, h⟩ := h
    obtain ⟨rfl, rfl⟩ := pure_eq_ok.mp h
    exact DerivesStmt.expr (hbegins hkind) (expression_sound he) (endStatement_sound hend)

/-- A word `return`, and the value behind it if the statement does not end there. -/
theorem ret_sound {s : Surroundings} {levels : Nat} {l : Lexeme} {x : Stmt}
    (hword : l.word = .keyword .kwReturn)
    (h : (if s.inFunction then do
        let value ← if ← atStatementEnd then pure none
          else pure (some (← expression s.last levels Power.any))
        endStatement s.last
        return .ret value
      else fail ⟨.returnOutsideFunction, l.pos⟩ : Reader Stmt) row = .ok (x, rest)) :
    DerivesStmt (levels + 1) s (l :: row) x rest := by
  by_cases hfunction : s.inFunction = true
  · rw [if_pos hfunction, atStatementEnd_bind] at h
    by_cases hend : atEnd row = true
    · rw [if_pos hend, bind_eq_ok] at h
      obtain ⟨value, mid, hvalue, h⟩ := h
      obtain ⟨rfl, rfl⟩ := pure_eq_ok.mp hvalue
      rw [bind_eq_ok] at h
      obtain ⟨u, mid', hmid, h⟩ := h
      obtain ⟨rfl, rfl⟩ := pure_eq_ok.mp h
      exact DerivesStmt.retNone hword hfunction (endStatement_sound hmid)
    · rw [if_neg hend, bind_eq_ok] at h
      obtain ⟨e, mid, he, h⟩ := h
      rw [bind_eq_ok] at h
      obtain ⟨value, mid', hvalue, h⟩ := h
      obtain ⟨rfl, rfl⟩ := pure_eq_ok.mp hvalue
      rw [bind_eq_ok] at h
      obtain ⟨u, rest', hmid, h⟩ := h
      obtain ⟨rfl, rfl⟩ := pure_eq_ok.mp h
      exact DerivesStmt.retSome hword hfunction (by simpa using hend) (expression_sound he)
        (endStatement_sound hmid)
  · rw [if_neg hfunction] at h
    cases h

section Levels

/-! The statements inside a statement have one level less. -/

variable {s : Surroundings} {levels : Nat}
  (hstmt : ∀ {s : Surroundings} {row rest : List Lexeme} {x : Stmt},
    statement levels s row = .ok (x, rest) → DerivesStmt levels s row x rest)
include hstmt

theorem branch_sound {l : Lexeme} {x : Stmt} (hword : l.word = .keyword .kwIf)
    (h : (do
      let cond ← condition s.last (expression s.last levels Power.any)
      let whenTrue ← statement levels s
      if ← takesKeyword .kwElse then return .branch cond whenTrue (some (← statement levels s))
      else return .branch cond whenTrue none : Reader Stmt) row = .ok (x, rest)) :
    DerivesStmt (levels + 1) s (l :: row) x rest := by
  rw [bind_eq_ok] at h
  obtain ⟨cond, mid, hcond, h⟩ := h
  have hcond := condition_sound expression_sound hcond
  rw [bind_eq_ok] at h
  obtain ⟨whenTrue, mid', htrue, h⟩ := h
  rw [bind_eq_ok] at h
  obtain ⟨b, mid'', helse, h⟩ := h
  rcases takesKeyword_eq_ok helse with ⟨rfl, e, rfl, he⟩ | ⟨rfl, rfl, he⟩
  · rw [if_pos rfl, bind_eq_ok] at h
    obtain ⟨whenFalse, rest', hfalse, h⟩ := h
    obtain ⟨rfl, rfl⟩ := pure_eq_ok.mp h
    exact DerivesStmt.branchElse hword hcond (hstmt htrue) he (hstmt hfalse)
  · rw [if_neg (by simp)] at h
    obtain ⟨rfl, rfl⟩ := pure_eq_ok.mp h
    exact DerivesStmt.branch hword hcond (hstmt htrue) he

theorem doWhile_sound {l : Lexeme} {x : Stmt} (hword : l.word = .keyword .kwDo)
    (h : (do
      let body ← statement levels s.loopBody
      if ← takesKeyword .kwWhile then
        let cond ← condition s.last (expression s.last levels Power.any)
        let _ ← takes .semicolon
        return .doWhile body cond
      else unexpected s.last (.keyword .kwWhile) : Reader Stmt) row = .ok (x, rest)) :
    DerivesStmt (levels + 1) s (l :: row) x rest := by
  rw [bind_eq_ok] at h
  obtain ⟨body, mid, hbody, h⟩ := h
  rw [bind_eq_ok] at h
  obtain ⟨b, mid', hwhile, h⟩ := h
  rcases takesKeyword_eq_ok hwhile with ⟨rfl, w, rfl, hw⟩ | ⟨rfl, rfl, hw⟩
  · rw [if_pos rfl, bind_eq_ok] at h
    obtain ⟨cond, mid'', hcond, h⟩ := h
    have hcond := condition_sound expression_sound hcond
    rw [bind_eq_ok] at h
    obtain ⟨b, rest', hsemi, h⟩ := h
    obtain ⟨rfl, rfl⟩ := pure_eq_ok.mp h
    refine DerivesStmt.doWhile hword (hstmt hbody) hw hcond ?_
    rcases takes_eq_ok hsemi with ⟨-, r, hr⟩ | ⟨-, rfl, hno⟩
    · exact Or.inl ⟨r, hr⟩
    · exact Or.inr ⟨hno, rfl⟩
  · rw [if_neg (by simp)] at h
    exact absurd h unexpected_ne_ok

theorem function_sound {l : Lexeme} {x : Stmt} (hword : l.word = .keyword .kwFunction)
    (h : function s.last l.pos (statement levels s.functionBody) row = .ok (x, rest)) :
    DerivesStmt (levels + 1) s (l :: row) x rest := by
  rw [function, bind_eq_ok] at h
  obtain ⟨name, mid, hname, h⟩ := h
  obtain ⟨x', rfl, hx⟩ := expectName_eq_ok hname
  rw [bind_eq_ok] at h
  obtain ⟨u, mid', hopen, h⟩ := h
  obtain ⟨o, rfl, ho⟩ := expect_eq_ok hopen
  rw [bind_eq_ok] at h
  obtain ⟨params, mid, hparams, h⟩ := h
  rw [bind_eq_ok] at h
  obtain ⟨body, rest', hbody, h⟩ := h
  obtain ⟨rfl, rfl⟩ := pure_eq_ok.mp h
  obtain ⟨b, mid'', rfl, hb, hbody⟩ := braces_sound hstmt hbody
  exact DerivesStmt.function hword hx ho (params_sound hparams) hb hbody

theorem loop_sound {l : Lexeme} {x : Stmt} (hword : l.word = .keyword .kwFor)
    (h : loop s.last (expression s.last levels) (statement levels s.loopBody) row
      = .ok (x, rest)) : DerivesStmt (levels + 1) s (l :: row) x rest := by
  rw [loop, bind_eq_ok] at h
  obtain ⟨u, mid, hopen, h⟩ := h
  obtain ⟨o, rfl, ho⟩ := expect_eq_ok hopen
  rw [upcoming_bind] at h
  cases hof : forOfHead? (mid.map Lexeme.word) with
  | some head =>
    obtain ⟨kind, name⟩ := head
    obtain ⟨k, x', w, mid', rfl, hk, hx, hw⟩ := forOfHead?_eq_some hof
    rw [hof] at h
    dsimp only at h
    rw [drop_bind, drop_bind, drop_bind, bind_eq_ok] at h
    obtain ⟨iterable, mid, hiter, h⟩ := h
    rw [bind_eq_ok] at h
    obtain ⟨u, rest', hclose, h⟩ := h
    obtain ⟨r, rfl, hr⟩ := expect_eq_ok hclose
    rw [bind_eq_ok] at h
    obtain ⟨body, rest'', hbody, h⟩ := h
    obtain ⟨rfl, rfl⟩ := pure_eq_ok.mp h
    exact DerivesStmt.forOf hword ho hk hx hw (expression_sound hiter) hr (hstmt hbody)
  | none =>
    rw [hof] at h
    dsimp only at h
    rw [bind_eq_ok] at h
    obtain ⟨start, mid', hstart, h⟩ := h
    rw [bind_eq_ok] at h
    obtain ⟨u, mid', hsemi, h⟩ := h
    have hstart := loopStart_sound expression_sound hstart hsemi
    rw [bind_eq_ok] at h
    obtain ⟨cond, mid', hcond, h⟩ := h
    rw [bind_eq_ok] at h
    obtain ⟨u, mid', hsemi, h⟩ := h
    have hcond := optional_sound expression_sound hcond hsemi
    rw [bind_eq_ok] at h
    obtain ⟨update, mid', hupdate, h⟩ := h
    rw [bind_eq_ok] at h
    obtain ⟨u, mid', hclose, h⟩ := h
    have hupdate := optional_sound expression_sound hupdate hclose
    rw [bind_eq_ok] at h
    obtain ⟨body, rest', hbody, h⟩ := h
    obtain ⟨rfl, rfl⟩ := pure_eq_ok.mp h
    exact DerivesStmt.forLoop hword ho (DerivesForHead.mk hof hstart hcond hupdate) (hstmt hbody)

end Levels

/-- **A statement that is read is derived.** -/
theorem statement_sound {levels : Nat} {s : Surroundings} {x : Stmt}
    (h : statement levels s row = .ok (x, rest)) : DerivesStmt levels s row x rest := by
  induction levels generalizing s row rest x with
  | zero =>
    rw [statement] at h
    exact absurd h tooDeep_ne_ok
  | succ levels ih =>
    unfold statement at h
    cases row with
    | nil => exact absurd h unexpected_ne_ok
    | cons l row =>
      obtain ⟨w, pos, broken⟩ := l
      rw [here_bind, peek?_bind, next?_cons] at h
      cases w with
      | number x => exact simple_sound (by simp [beginsExpr, Word.declares?]) h
      | text t => exact simple_sound (by simp [beginsExpr, Word.declares?]) h
      | name t => exact simple_sound (by simp [beginsExpr, Word.declares?]) h
      | keyword k =>
        cases k with
        | kwIf => exact branch_sound ih rfl h
        | kwFor => exact loop_sound ih rfl h
        | kwWhile =>
          dsimp only at h
          rw [drop_bind, bind_eq_ok] at h
          obtain ⟨cond, mid, hcond, h⟩ := h
          rw [bind_eq_ok] at h
          obtain ⟨body, mid', hbody, h⟩ := h
          obtain ⟨rfl, rfl⟩ := pure_eq_ok.mp h
          exact DerivesStmt.whileLoop rfl (condition_sound expression_sound hcond) (ih hbody)
        | kwDo => exact doWhile_sound ih rfl h
        | kwFunction => exact function_sound ih rfl h
        | kwBreak => exact jump_sound (fun hloop => DerivesStmt.breakLoop rfl hloop) h
        | kwContinue => exact jump_sound (fun hloop => DerivesStmt.continueLoop rfl hloop) h
        | kwReturn => exact ret_sound rfl h
        | _ => exact simple_sound (by simp [beginsExpr, Word.declares?]) h
      | symbol t =>
        cases t with
        | leftBrace =>
          dsimp only at h
          rw [bind_eq_ok] at h
          obtain ⟨body, mid, hbody, h⟩ := h
          obtain ⟨rfl, rfl⟩ := pure_eq_ok.mp h
          obtain ⟨b, mid', hrow, -, hbody⟩ := braces_sound ih hbody
          cases hrow
          exact DerivesStmt.block rfl hbody
        | semicolon =>
          dsimp only at h
          rw [drop_bind, pure_eq_ok] at h
          obtain ⟨rfl, rfl⟩ := h
          exact DerivesStmt.empty rfl
        | _ => exact simple_sound (by simp [beginsExpr, Word.declares?]) h

/-- **A script that is read is derived.** -/
theorem program_sound {body : List Stmt} (h : program row = .ok body) :
    ∃ last, DerivesProgram ⟨last, false, false⟩ row body := by
  unfold program at h
  refine ⟨(row.getLast?.map Lexeme.pos).getD .start, ?_⟩
  generalize (row.getLast?.map Lexeme.pos).getD .start = last at h ⊢
  dsimp only at h
  have go : ∀ (fuel : Nat) (row : List Lexeme) (xs : List Stmt) (rest : List Lexeme),
      row.length ≤ fuel →
      untilEnd.go (statement maxNesting ⟨last, false, false⟩) fuel row = .ok (xs, rest) →
        DerivesProgram ⟨last, false, false⟩ row xs := by
    intro fuel
    induction fuel with
    | zero =>
      intro row xs rest hfuel h
      obtain rfl : row = [] := List.length_eq_zero_iff.mp (Nat.le_zero.mp hfuel)
      obtain ⟨rfl, -⟩ := pure_eq_ok.mp h
      exact DerivesProgram.nil
    | succ fuel ih =>
      intro row xs rest hfuel h
      rcases untilEnd_go_ok h with ⟨rfl, rfl, -⟩ | ⟨x, mid, others, hx, rfl, hothers⟩
      · exact DerivesProgram.nil
      · -- a statement takes at least one lexeme, so the fuel lasts for the others
        have hx := statement_sound hx
        have hlt := hx.length_lt
        exact DerivesProgram.cons hx (ih _ _ _ (by omega) hothers)
  split at h
  · cases h
  · rename_i body' rest hbody
    cases h
    exact go _ _ _ _ (Nat.le_refl _) hbody

end Grammar

end Stencil.Script
