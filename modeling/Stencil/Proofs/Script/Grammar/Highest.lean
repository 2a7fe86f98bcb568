/-
  How high the trees of accepted scripts are, at most and at least.

  No accepted script has a tree higher than the bound that levels give, and one has a tree that is
  as high.  Its expressions use every level twice: an array takes one, the members behind the array
  use up all that are left and give them back, and then the sums do the same (`highest`).  So the
  limit on nesting does not bound trees by a multiple of itself.
-/
import Stencil.Proofs.Script.Grammar.Complete
import Stencil.Proofs.Script.Grammar.Height
import Stencil.Proofs.Script.Print.Expressions

namespace Stencil.Script

open Grammar

/-! ## Words that use up all levels -/

/-- A symbol and a name, so many times. -/
def chain (s : Symbol) : Nat → List Word
  | 0 => []
  | k + 1 => .symbol s :: .name "a" :: chain s k

/-- The highest expression for `n + 1` levels. -/
def highest : Nat → List Word
  | 0 => [.name "a", .symbol .plusPlus]
  | n + 1 =>
    .symbol .leftBracket :: (highest n
      ++ .symbol .rightBracket :: (chain .dot (n + 1) ++ chain .plus n))

/-- The highest expression as an initial value, in the head of a loop. -/
def highestLoop (n : Nat) : List Word :=
  .keyword .kwFor :: .symbol .leftParen :: .keyword .kwVar :: .name "a" :: .symbol .assign
    :: (highest n ++ [.symbol .semicolon, .symbol .semicolon, .symbol .rightParen,
      .symbol .semicolon])

/-! ## They can be written -/

theorem writable_a : Writable (.name "a") := by
  have h : Spells (.word (.ofName "a")) ['a'] [] :=
    .name (by decide +kernel) (fun d hd => absurd hd List.not_mem_nil) rfl
  have hname : Word.ofName "a" = .name "a" := by decide +kernel
  rw [hname] at h
  exact ⟨_, h⟩

theorem writable_chain (s : Symbol) (k : Nat) : ∀ w ∈ chain s k, Writable w := by
  induction k with
  | zero => exact fun w hw => absurd hw List.not_mem_nil
  | succ k ih =>
    simp only [chain, List.forall_mem_cons]
    exact ⟨.symbol _, writable_a, ih⟩

theorem writable_highest (n : Nat) : ∀ w ∈ highest n, Writable w := by
  induction n with
  | zero =>
    simp only [highest, List.forall_mem_cons]
    exact ⟨writable_a, .symbol _, by simp⟩
  | succ n ih =>
    simp only [highest, List.forall_mem_cons, List.forall_mem_append]
    exact ⟨.symbol _, ih, .symbol _, writable_chain _ _, writable_chain _ _⟩

theorem writable_highestLoop (n : Nat) : ∀ w ∈ highestLoop n, Writable w := by
  simp only [highestLoop, List.forall_mem_cons, List.forall_mem_append]
  exact ⟨.keyword _, .symbol _, .keyword _, writable_a, .symbol _, writable_highest n, .symbol _,
    .symbol _, .symbol _, .symbol _, by simp⟩

/-! ## They are read -/

/-- With a level for each of them all members are read. -/
theorem members_read {k : Nat} {e : Expr} {row : List Lexeme} (hrow : Line (chain .dot k) row) :
    ∃ e', e'.height = e.height + k ∧ ∀ {rest final : List Lexeme} {e'' : Expr},
      DerivesSuffixes 0 e' rest e'' final → DerivesSuffixes k e (row ++ rest) e'' final := by
  induction k generalizing e row with
  | zero =>
    obtain rfl := hrow.eq_nil
    exact ⟨e, rfl, fun h => h⟩
  | succ k ih =>
    obtain ⟨d, row, rfl, hd, -, hrow⟩ := hrow.cons
    obtain ⟨l, row, rfl, hl, -, hrow⟩ := hrow.cons
    obtain ⟨e', he', hread⟩ := ih (e := .member e.pos e "a") hrow
    refine ⟨e', by rw [he', Expr.height]; omega, fun h => ?_⟩
    exact .more (by rw [hd]; rfl) (.member (by rw [hl]; rfl)) (hread h)

/-- A name is read wherever it stops. -/
theorem name_read {n p : Nat} {l : Lexeme} {s : String} {rest : List Lexeme}
    (hl : l.word = .name s) (hstops : Stops p rest) :
    DerivesExpr (n + 1) p (l :: rest) (.name l.pos s) rest := by
  have hatom : l.word.atom? l.pos = some (.name l.pos s) := by rw [hl]; rfl
  exact .mk (.primary (.atom hatom) (.done hstops.suffix (Or.inl hstops.update)))
    (.done hstops.connective)

/-- Behind the members or at the end of the sums nothing goes on with a name. -/
theorem stops_sums {k p : Nat} {row rest : List Lexeme} (hrow : Line (chain .plus k) row)
    (hp : Power.additive.left < p) (hrest : Stops p rest) : Stops p (row ++ rest) := by
  cases k with
  | zero =>
    obtain rfl := hrow.eq_nil
    exact hrest
  | succ k =>
    obtain ⟨l, row, rfl, hl, -, -⟩ := hrow.cons
    exact .of_connective (s := .plus) rfl hp hl

/-- With one level more than there are of them all sums are read. -/
theorem sums_read {k : Nat} (lhs : Expr) {row rest : List Lexeme} (hrow : Line (chain .plus k) row)
    (hlhs : 1 ≤ lhs.height) (hrest : Stops Power.item rest) :
    ∃ e, e.height = lhs.height + k ∧
      DerivesOperators (k + 1) Power.item lhs (row ++ rest) e rest := by
  induction k generalizing lhs row with
  | zero =>
    obtain rfl := hrow.eq_nil
    exact ⟨lhs, rfl, .done hrest.connective⟩
  | succ k ih =>
    obtain ⟨l, row, rfl, hl, -, hrow⟩ := hrow.cons
    obtain ⟨x, row, rfl, hx, -, hrow⟩ := hrow.cons
    obtain ⟨e, he, hmore⟩ := ih (.binary lhs.pos .add lhs (.name x.pos "a")) hrow
      (by rw [Expr.height]; omega)
    have hc : l.word.connective? Power.item = some (.additive, .binary .add) := by rw [hl]; rfl
    have hrhs : DerivesExpr (k + 1) Power.additive.right (x :: (row ++ rest)) (.name x.pos "a")
        (row ++ rest) :=
      name_read hx (stops_sums hrow (by decide) (hrest.mono (by decide)))
    refine ⟨e, ?_, .more hc (.binary hrhs) hmore⟩
    rw [he, Expr.height, Expr.height]
    omega

/-- **Levels that were given back are used again**: the height is the square of the levels. -/
theorem highest_read {n : Nat} {row : List Lexeme} (hrow : Line (highest n) row)
    (rest : List Lexeme) (hrest : Stops Power.item rest) :
    ∃ e, e.height = exprBound (n + 1) ∧ DerivesExpr (n + 1) Power.item (row ++ rest) e rest := by
  induction n generalizing row rest with
  | zero =>
    obtain ⟨l, row, rfl, hl, -, hrow⟩ := hrow.cons
    obtain ⟨u, row, rfl, hu, hline, hnil⟩ := hrow.cons
    obtain rfl := hnil.eq_nil
    have hatom : l.word.atom? l.pos = some (.name l.pos "a") := by rw [hl]; rfl
    have hupdate : u.word.update? = some .increment := by rw [hu]; rfl
    exact ⟨.update l.pos .increment false (.name l.pos "a"), rfl,
      .mk (.primary (.atom hatom) (.update hupdate hline rfl)) (.done hrest.connective)⟩
  | succ n ih =>
    obtain ⟨l, row, rfl, hl, -, hrow⟩ := hrow.cons
    obtain ⟨inner, row, rfl, hinner, hrow⟩ := hrow.append
    obtain ⟨r, row, rfl, hr, -, hrow⟩ := hrow.cons
    obtain ⟨row1, row2, rfl, hrow1, hrow2⟩ := hrow.append
    obtain ⟨x, hx, hitem⟩ := ih hinner (r :: (row1 ++ (row2 ++ rest)))
      (.of_closes (s := .rightBracket) rfl hr)
    obtain ⟨lhs, hlhs, hmembers⟩ := members_read (e := .array l.pos [x]) hrow1
    have hheight : (Expr.array l.pos [x]).height = exprBound (n + 1) + 1 := by
      rw [Expr.height, Expr.heights, Expr.heights, hx, Nat.max_eq_left (Nat.zero_le _)]
    -- the members have given their levels back, and the sums take them again
    obtain ⟨e, he, hsums⟩ := sums_read lhs hrow2 (by omega) hrest
    have hstops : Stops 32 (row2 ++ rest) :=
      stops_sums hrow2 (by decide) (hrest.mono (by decide))
    have hitems : DerivesItems (n + 1) .rightBracket
        (inner ++ r :: (row1 ++ (row2 ++ rest))) [x] (row1 ++ (row2 ++ rest)) :=
      .last (hitem.next?_ne rfl) hitem (by rw [hr]; decide) hr
    have hdone := hmembers (.done hstops.suffix (Or.inl hstops.update))
    have hread : DerivesExpr (n + 2) Power.item
        (l :: (inner ++ r :: (row1 ++ (row2 ++ rest)))) e rest :=
      .mk (.primary (.array hl hitems) hdone) hsums
    refine ⟨e, ?_, by simpa using hread⟩
    rw [he, hlhs, hheight]
    rfl

theorem highestLoop_read {n : Nat} {s : Surroundings} {row : List Lexeme}
    (hrow : Line (highestLoop n) row) :
    ∃ stmt : Stmt, stmt.height = stmtBound (n + 2) ∧ DerivesStmt (n + 2) s row stmt [] := by
  obtain ⟨l, row, rfl, hl, -, hrow⟩ := hrow.cons
  obtain ⟨o, row, rfl, ho, -, hrow⟩ := hrow.cons
  obtain ⟨k, row, rfl, hk, -, hrow⟩ := hrow.cons
  obtain ⟨x, row, rfl, hx, -, hrow⟩ := hrow.cons
  obtain ⟨a, row, rfl, ha, -, hrow⟩ := hrow.cons
  obtain ⟨front, row, rfl, hfront, hrow⟩ := hrow.append
  obtain ⟨r1, row, rfl, hr1, -, hrow⟩ := hrow.cons
  obtain ⟨r2, row, rfl, hr2, -, hrow⟩ := hrow.cons
  obtain ⟨r3, row, rfl, hr3, -, hrow⟩ := hrow.cons
  obtain ⟨r4, row, rfl, hr4, -, hnil⟩ := hrow.cons
  obtain rfl := hnil.eq_nil
  obtain ⟨e, he, hread⟩ := highest_read hfront [r1, r2, r3, r4]
    (.of_closes (s := .semicolon) rfl hr1)
  have hkind : Word.declares? k.word = some .varDecl := by rw [hk]; rfl
  -- an assignment stands where a loop over items has its `of`
  have hof : forOfHead? ((k :: x :: a :: (front ++ [r1, r2, r3, r4])).map Lexeme.word) = none := by
    rw [List.map_cons, List.map_cons, List.map_cons, hk, hx, ha]
    rfl
  have hstart : DerivesStart (n + 1) (k :: x :: a :: (front ++ [r1, r2, r3, r4]))
      (some (.declare .varDecl [⟨"a", x.pos, some e⟩])) [r2, r3, r4] :=
    .declare hkind (.last (.valued hx ha hread) (by rw [next?_cons, hr1]; decide)) hr1
  refine ⟨.forLoop _ none none .empty, ?_, .forLoop hl ho
    (.mk hof hstart (.none hr2) (.none hr3)) (.empty hr4)⟩
  simp only [Stmt.height, LoopStart.heightOf, LoopStart.height, Declarator.heights, Expr.heightOf,
    he, stmtBound]
  omega

/-! ## The bound -/

/-- A script whose tree is as high as levels allow. -/
theorem exists_highest : ∃ script body, parse script = .ok body ∧
    ∃ stmt ∈ body, stmt.height = (maxNesting - 1) * (maxNesting - 2) + 4 := by
  have hwritable := writable_highestLoop (maxNesting - 2)
  obtain ⟨text, htext⟩ := exists_written hwritable
  obtain ⟨row, hspells, hline⟩ := htext.spellsRow hwritable .start
  obtain ⟨stmt, hheight, hread⟩ := highestLoop_read (s := ⟨.start, false, false⟩) hline
  have hrow : SpellsRow false .start (String.ofList text).toList row := by
    rwa [String.toList_ofList]
  have hprogram : DerivesProgram ⟨.start, false, false⟩ row [stmt] := .cons hread .nil
  refine ⟨String.ofList text, [stmt], (parse_eq_ok_iff .start).mpr ⟨row, hrow, hprogram⟩, stmt,
    List.mem_singleton_self stmt, ?_⟩
  rw [hheight, stmtBound_eq]
  rfl

/-- **The limit on nesting bounds the height of trees**, by its square, and by nothing less. -/
theorem height_le_square :
    (∀ script body, parse script = .ok body →
      ∀ stmt ∈ body, stmt.height ≤ (maxNesting - 1) * (maxNesting - 2) + 4) ∧
    ∃ script body, parse script = .ok body ∧
      ∃ stmt ∈ body, stmt.height = (maxNesting - 1) * (maxNesting - 2) + 4 := by
  refine ⟨fun script body h stmt hstmt => ?_, exists_highest⟩
  obtain ⟨row, -, hprogram⟩ := (parse_eq_ok_iff .start).mp h
  calc stmt.height ≤ Stmt.heights body := Stmt.height_le_heights hstmt
    _ ≤ stmtBound maxNesting := hprogram.heights_le
    _ = (maxNesting - 1) * (maxNesting - 2) + 4 := stmtBound_eq (maxNesting - 2)

/-- Twice the limit is no bound. -/
theorem not_height_le_double : ¬ ∀ script body, parse script = .ok body →
    ∀ stmt ∈ body, stmt.height ≤ 2 * maxNesting := by
  intro h
  obtain ⟨script, body, hparse, stmt, hstmt, hheight⟩ := exists_highest
  have hle := h script body hparse stmt hstmt
  rw [hheight] at hle
  exact absurd hle (by decide)

end Stencil.Script
