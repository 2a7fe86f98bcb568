/-
  Words that are read as an expression.

  An expression is read operator by operator, so its words are never read by themselves: in front
  of `rest` they are read as the left operand of what follows.  `ReadsAt k ws e` says so for words
  of the rank `k`: where a place asks for no more than `k` gives, and nothing in `rest` takes the
  last operand away, whatever the operators behind `e` come to is what the whole comes to.
  `ReadsOperand ws e` says the same of what stands in front of members, indices and calls.  Neither
  counts levels: with enough of them (`Enough`) everything can be read.
-/
import Stencil.Proofs.Script.Grammar.Derivation
import Stencil.Proofs.Script.Print.Written

namespace Stencil.Script

open Grammar

/-! ## With enough levels -/

/-- The property holds of every number of levels that is large enough. -/
def Enough (p : Nat → Prop) : Prop := ∃ N, ∀ n, N ≤ n → p n

namespace Enough

variable {p q r : Nat → Prop}

theorem always (h : ∀ n, p n) : Enough p := ⟨0, fun n _ => h n⟩

theorem some_level (h : Enough p) : ∃ n, p n := by
  obtain ⟨N, hN⟩ := h
  exact ⟨N, hN N (Nat.le_refl N)⟩

theorem and (hp : Enough p) (hq : Enough q) : Enough fun n => p n ∧ q n := by
  obtain ⟨N, hN⟩ := hp
  obtain ⟨M, hM⟩ := hq
  exact ⟨max N M, fun n hn => ⟨hN n (by omega), hM n (by omega)⟩⟩

theorem map (hp : Enough p) (h : ∀ n, p n → q n) : Enough q := by
  obtain ⟨N, hN⟩ := hp
  exact ⟨N, fun n hn => h n (hN n hn)⟩

/-- What takes one more level. -/
theorem level (hp : Enough p) (h : ∀ n, p n → q (n + 1)) : Enough q := by
  obtain ⟨N, hN⟩ := hp
  refine ⟨N + 1, ?_⟩
  intro n hn
  obtain ⟨k, rfl⟩ : ∃ k, n = k + 1 := ⟨n - 1, by omega⟩
  exact h k (hN k (by omega))

theorem map₂ (hp : Enough p) (hq : Enough q) (h : ∀ n, p n → q n → r n) : Enough r :=
  (hp.and hq).map fun n hpq => h n hpq.1 hpq.2

theorem level₂ (hp : Enough p) (hq : Enough q) (h : ∀ n, p n → q n → r (n + 1)) : Enough r :=
  (hp.and hq).level fun n hpq => h n hpq.1 hpq.2

/-- What holds with one level holds with enough of them. -/
theorem of_level (h : ∀ n, p (n + 1)) : Enough p :=
  level (always fun _ => True.intro) fun n _ => h n

end Enough

/-! ## Lines -/

namespace Line

variable {w : Word} {ws vs : List Word} {row : List Lexeme}

theorem eq_nil (h : Line [] row) : row = [] := List.map_eq_nil_iff.mp h

theorem cons (h : Line (w :: ws) row) :
    ∃ l row', row = l :: row' ∧ l.word = w ∧ l.afterBreak = false ∧ Line ws row' := by
  obtain ⟨l, row', rfl, hl, hrow⟩ := List.map_eq_cons_iff.mp h
  obtain ⟨hw, hb⟩ := Prod.mk.inj hl
  exact ⟨l, row', rfl, hw, hb, hrow⟩

theorem append (h : Line (ws ++ vs) row) :
    ∃ front back, row = front ++ back ∧ Line ws front ∧ Line vs back := by
  rw [Line, List.map_append] at h
  exact List.map_eq_append_iff.mp h

/-- A line that ends in the word `w`. -/
theorem concat (h : Line (ws ++ [w]) row) :
    ∃ front l, row = front ++ [l] ∧ Line ws front ∧ l.word = w ∧ l.afterBreak = false := by
  obtain ⟨front, back, rfl, hfront, hback⟩ := h.append
  obtain ⟨l, back, rfl, hl, hline, hnil⟩ := hback.cons
  rw [hnil.eq_nil]
  exact ⟨front, l, rfl, hfront, hl, hline⟩

theorem words_eq (h : Line ws row) : row.map Lexeme.word = ws := by
  have hfst := congrArg (List.map Prod.fst) h
  rwa [List.map_map, List.map_map, show Prod.fst ∘ (fun w : Word => (w, false)) = id from rfl,
    List.map_id] at hfst

/-- The first word of a line, and no line break before it. -/
theorem next?_append (h : Line ws row) (hws : ws ≠ []) (rest : List Lexeme) :
    next? (row ++ rest) = ws.head? ∧ breaks (row ++ rest) = false := by
  cases ws with
  | nil => exact absurd rfl hws
  | cons w ws =>
    obtain ⟨l, row', rfl, hl, hline, -⟩ := h.cons
    exact ⟨congrArg some hl, hline⟩

end Line

/-! ## Where an expression stops -/

/-- What follows an expression does not go on with it at a place that asks for `p`. -/
structure Stops (p : Nat) (rest : List Lexeme) : Prop where
  suffix : (next? rest).bind Word.suffix? = none
  update : (next? rest).bind Word.update? = none
  connective : (next? rest).bind (Word.connective? p) = none

theorem connective?_mono {p q : Nat} (hpq : p ≤ q) {w : Word} (h : w.connective? p = none) :
    w.connective? q = none := by
  cases w with
  | symbol s =>
    rw [Word.connective?, Option.filter_eq_none_iff] at h ⊢
    intro c hc hq
    exact h c hc (decide_eq_true (Nat.le_trans hpq (of_decide_eq_true hq)))
  | _ => rfl

/-- The symbols that close something or stand between items. -/
def closes : Symbol → Bool
  | .rightParen | .rightBracket | .rightBrace | .comma | .colon | .semicolon => true
  | _ => false

namespace Stops

variable {p q : Nat} {l : Lexeme} {rest : List Lexeme}

theorem mono (h : Stops p rest) (hpq : p ≤ q) : Stops q rest := by
  refine ⟨h.suffix, h.update, ?_⟩
  cases hw : next? rest with
  | none => rfl
  | some w =>
    have hc := h.connective
    rw [hw] at hc
    exact connective?_mono hpq hc

theorem of_closes {s : Symbol} (hs : closes s = true) (hl : l.word = .symbol s) :
    Stops p (l :: rest) := by
  refine ⟨?_, ?_, ?_⟩ <;> rw [next?_cons, hl] <;> cases s <;> first | rfl | cases hs

/-- An operator leaves alone what asks for more than its left power. -/
theorem of_connective {s : Symbol} {power : Power} {c : Connective}
    (hs : s.connective? = some (power, c)) (hp : power.left < p) (hl : l.word = .symbol s) :
    Stops p (l :: rest) := by
  refine ⟨?_, ?_, ?_⟩ <;> rw [next?_cons, hl]
  · cases s <;> first | rfl | cases hs
  · cases s <;> first | rfl | cases hs
  · rw [Option.bind_some, Word.connective?, hs]
    exact Option.filter_eq_none_iff.mpr fun x hx => by
      obtain rfl := Option.some.inj hx
      simpa using hp

end Stops

/-! ## Reading -/

/-- The words `ws`, which hold together as the rank `k` does, are read as `e`. -/
def ReadsAt (k : Rank) (ws : List Word) (e : Expr) : Prop :=
  ∀ row, Line ws row → ∃ e', e'.erase = e.erase ∧ ∀ {least : Nat} {rest final : List Lexeme}
    {e'' : Expr}, least ≤ k.power.left → Stops k.power.right rest →
      Enough (DerivesOperators · least e' rest e'' final) →
      Enough (DerivesExpr · least (row ++ rest) e'' final)

/-- The words `ws` are read as the operand `e`, whatever stands behind it. -/
def ReadsOperand (ws : List Word) (e : Expr) : Prop :=
  ∀ row, Line ws row → ∃ e', e'.erase = e.erase ∧ ∀ {rest final : List Lexeme} {e'' : Expr},
    Enough (DerivesSuffixes · e' rest e'' final) → Enough (DerivesOperand · (row ++ rest) e'' final)

variable {j k : Rank} {ws : List Word} {e : Expr}

theorem ReadsOperand.readsAt (h : ReadsOperand ws e) (k : Rank) : ReadsAt k ws e := by
  intro row hrow
  obtain ⟨e', he', hread⟩ := h row hrow
  refine ⟨e', he', ?_⟩
  intro least rest final e'' _ hstops hops
  have hlhs : Enough (DerivesOperand · (row ++ rest) e' rest) :=
    hread (.always fun n => .done hstops.suffix (Or.inl hstops.update))
  exact hlhs.level₂ hops fun n hlhs hops => .mk hlhs hops

/-- What holds together tightly may stand where less is asked for. -/
theorem ReadsAt.mono (h : ReadsAt k ws e) (hjk : j.depth ≤ k.depth) : ReadsAt j ws e := by
  intro row hrow
  obtain ⟨e', he', hread⟩ := h row hrow
  obtain ⟨hleft, hright⟩ := Rank.power_mono hjk
  exact ⟨e', he', fun hleast hstops => hread (Nat.le_trans hleast hleft) (hstops.mono hright)⟩

/-- Words that nothing behind them goes on with are read to their end. -/
theorem ReadsAt.whole (h : ReadsAt k ws e) {row : List Lexeme} (hrow : Line ws row) :
    ∃ e', e'.erase = e.erase ∧ ∀ {p : Nat} {rest : List Lexeme}, p ≤ k.power.left →
      p ≤ k.power.right → Stops p rest → Enough (DerivesExpr · p (row ++ rest) e' rest) := by
  obtain ⟨e', he', hread⟩ := h row hrow
  refine ⟨e', he', ?_⟩
  intro p rest hleft hright hstops
  exact hread hleft (hstops.mono hright) (.always fun n => .done hstops.connective)

/-- Between brackets and commas words are read to their end, whatever their rank is. -/
theorem ReadsAt.between (h : ReadsAt k ws e) {row : List Lexeme} (hrow : Line ws row) :
    ∃ e', e'.erase = e.erase ∧ ∀ {p : Nat} {s : Symbol} {r : Lexeme} (rest : List Lexeme),
      p ≤ Power.item → closes s = true → r.word = .symbol s →
      Enough (DerivesExpr · p (row ++ r :: rest) e' (r :: rest)) := by
  obtain ⟨e', he', hread⟩ := h.whole hrow
  obtain ⟨hleft, hright⟩ := k.item_le
  refine ⟨e', he', ?_⟩
  intro p s r rest hp hs hr
  exact hread (Nat.le_trans hp hleft) (Nat.le_trans hp hright) (.of_closes hs hr)

/-- What is put in parentheses may stand anywhere. -/
theorem ReadsAt.enclosed (h : ReadsAt k ws e) : ReadsOperand (enclosed ws) e := by
  intro row hrow
  obtain ⟨l, row, rfl, hl, -, hrow⟩ := hrow.cons
  obtain ⟨inner, r, rfl, hws, hr, -⟩ := hrow.concat
  obtain ⟨e', he', hread⟩ := h.between hws
  refine ⟨e', he', ?_⟩
  intro rest final e'' hsuffixes
  have hinner : Enough (DerivesExpr · Power.any (inner ++ r :: rest) e' (r :: rest)) :=
    hread rest (Nat.zero_le _) rfl hr
  rw [List.cons_append, List.append_assoc]
  exact hinner.map₂ hsuffixes fun n hinner hsuffixes => .primary (.group hl hinner hr) hsuffixes

/-- An operand, a connective and what the connective joins it with. -/
theorem ReadsAt.joined {s : Symbol} {c : Connective} {lhs : Expr} {wl wr : List Word}
    (hlhs : ReadsAt j wl lhs) (hs : s.connective? = some (k.power, c))
    (hle : k.power.left ≤ j.power.left) (hlt : k.power.left < j.power.right)
    (hjoined : ∀ {lhs' : Expr} {row : List Lexeme}, lhs'.erase = lhs.erase → Line wr row →
      ∃ e', e'.erase = e.erase ∧ ∀ {rest : List Lexeme}, Stops k.power.right rest →
        Enough (DerivesJoined · lhs' k.power c (row ++ rest) e' rest)) :
    ReadsAt k (wl ++ .symbol s :: wr) e := by
  intro row hrow
  obtain ⟨front, back, rfl, hfront, hback⟩ := hrow.append
  obtain ⟨l, back, rfl, hl, -, hback⟩ := hback.cons
  obtain ⟨lhs', hlhs', hread⟩ := hlhs front hfront
  obtain ⟨e', he', hone⟩ := hjoined hlhs' hback
  refine ⟨e', he', ?_⟩
  intro least rest final e'' hleast hstops hops
  have hc : l.word.connective? least = some (k.power, c) := by
    rw [hl, Word.connective?, hs]
    exact Option.filter_some_pos (decide_eq_true hleast)
  -- the connective is taken behind the left operand, by the place that asked for the whole
  have hmore : Enough (DerivesOperators · least lhs' (l :: (back ++ rest)) e'' final) :=
    (hone hstops).level₂ hops fun n hone hops => .more hc hone hops
  rw [List.append_assoc, List.cons_append]
  exact hread (Nat.le_trans hleast hle) (.of_connective hs hlt hl) hmore

end Stencil.Script
