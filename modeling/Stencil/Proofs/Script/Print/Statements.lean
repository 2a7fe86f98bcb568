/-
  Statements are read back from the words that they are written as.

  A written statement ends in a semicolon or a brace, so the only thing that could go on with it
  is an `else`, where it ends in an `if` that has none (`Stmt.endsOpen`).  In a tree that was read
  no such statement stands in front of an `else`.  As for expressions, one lemma for each form of
  statement says that it is read back when its parts are, and recursion on derivations puts the
  lemmas together.
-/
import Stencil.Proofs.Script.Grammar.Extend
import Stencil.Proofs.Script.Print.Expressions

namespace Stencil.Script

open Grammar

/-! ## Open ends -/

mutual

/-- Whether an `else` behind the statement would belong to an `if` inside it. -/
def Stmt.endsOpen : Stmt → Bool
  | .branch _ _ whenFalse => Stmt.endsOpenElse whenFalse
  | .whileLoop _ body | .forLoop _ _ _ body | .forOf _ _ _ body => body.endsOpen
  | _ => false

def Stmt.endsOpenElse : Option Stmt → Bool
  | none => true
  | some stmt => stmt.endsOpen

end

/-- No statement with an open end was read in front of an `else`. -/
theorem Grammar.DerivesStmt.endsOpen_eq {n : Nat} {s : Surroundings} {row rest : List Lexeme}
    {stmt : Stmt} : DerivesStmt n s row stmt rest → next? rest = some (.keyword .kwElse) →
      stmt.endsOpen = false
  | .branch _ _ _ helse, h => absurd h helse
  | .branchElse _ _ _ _ hfalse, h => hfalse.endsOpen_eq h
  | .whileLoop _ _ hbody, h => hbody.endsOpen_eq h
  | .forOf _ _ _ _ _ _ _ hbody, h => hbody.endsOpen_eq h
  | .forLoop _ _ _ hbody, h => hbody.endsOpen_eq h
  | .doWhile .., _ | .function .., _ | .breakLoop .., _ | .continueLoop .., _ | .retNone .., _
  | .retSome .., _ | .block .., _ | .empty .., _ | .declare .., _ | .expr .., _ => rfl

/-! ## Declarations -/

theorem DeclKind.declares?_word (kind : DeclKind) : Word.declares? kind.word = some kind := by
  cases kind <;> rfl

theorem DeclKind.writable_word (kind : DeclKind) : Writable kind.word := by
  cases kind <;> exact .keyword _

/-- A name and its value, if it has one, can be written and are read back. -/
structure DeclaratorRead (kind : DeclKind) (x : Declarator) : Prop where
  writable : ∀ w ∈ x.words, Writable w
  reads : ∀ {row : List Lexeme}, Line x.words row →
    ∃ x', x'.mapPos (fun _ => .start) = x.mapPos (fun _ => .start) ∧
      ∀ {s : Symbol} {r : Lexeme} (rest : List Lexeme), closes s = true → r.word = .symbol s →
        Enough (DerivesDeclarator · kind (row ++ r :: rest) x' (r :: rest))

namespace DeclaratorRead

variable {kind : DeclKind} {name : String}

theorem valued {e : Expr} (hname : Writable (.name name)) (he : e.Reads) (pos : Position) :
    DeclaratorRead kind ⟨name, pos, some e⟩ := by
  constructor
  · simp only [Declarator.words, List.forall_mem_cons]
    exact ⟨hname, .symbol _, he.writable⟩
  · intro row hrow
    obtain ⟨l, row, rfl, hl, -, hrow⟩ := hrow.cons
    obtain ⟨a, row, rfl, ha, -, hrow⟩ := hrow.cons
    obtain ⟨e', he', hread⟩ := he.stands.between hrow
    refine ⟨⟨name, l.pos, some e'⟩, ?_, ?_⟩
    · show Declarator.mk name .start (some e'.erase) = _
      rw [he']
      rfl
    · intro s r rest hs hr
      exact (hread rest (Nat.le_refl _) hs hr).map fun n hread => .valued hl ha hread

theorem bare (hname : Writable (.name name)) (hkind : kind ≠ .constDecl) (pos : Position) :
    DeclaratorRead kind ⟨name, pos, none⟩ := by
  refine ⟨List.forall_mem_singleton.mpr hname, ?_⟩
  intro row hrow
  obtain ⟨l, row, rfl, hl, -, hnil⟩ := hrow.cons
  obtain rfl := hnil.eq_nil
  refine ⟨⟨name, l.pos, none⟩, rfl, ?_⟩
  intro s r rest hs hr
  have hassign : next? (r :: rest) ≠ some (.symbol .assign) := by
    rw [next?_cons, hr]
    rintro h
    cases h
    cases hs
  exact .always fun n => .bare hl hassign hkind

end DeclaratorRead

/-- The names of a declaration can be written and are read back. -/
structure DeclaratorsRead (kind : DeclKind) (xs : List Declarator) : Prop where
  ne_nil : xs ≠ []
  writable : ∀ w ∈ commas (xs.map Declarator.words), Writable w
  reads : ∀ {row : List Lexeme}, Line (commas (xs.map Declarator.words)) row →
    ∃ xs', xs'.map (Declarator.mapPos fun _ => .start)
        = xs.map (Declarator.mapPos fun _ => .start) ∧
      ∀ {r : Lexeme} (rest : List Lexeme), r.word = .symbol .semicolon →
        Enough (DerivesDeclarators · kind (row ++ r :: rest) xs' (r :: rest))

namespace DeclaratorsRead

variable {kind : DeclKind} {x : Declarator} {xs : List Declarator}

theorem singleton (hx : DeclaratorRead kind x) : DeclaratorsRead kind [x] := by
  refine ⟨by simp, hx.writable, ?_⟩
  intro row hrow
  obtain ⟨x', hx', hread⟩ := hx.reads hrow
  refine ⟨[x'], ?_, ?_⟩
  · rw [List.map_singleton, List.map_singleton, hx']
  · intro r rest hr
    have hcomma : next? (r :: rest) ≠ some (.symbol .comma) := by rw [next?_cons, hr]; decide
    exact (hread rest rfl hr).map fun n hread => .last hread hcomma

theorem cons (hx : DeclaratorRead kind x) (hxs : DeclaratorsRead kind xs) :
    DeclaratorsRead kind (x :: xs) := by
  have hwords : commas ((x :: xs).map Declarator.words)
      = x.words ++ .symbol .comma :: commas (xs.map Declarator.words) := by
    cases xs with
    | nil => exact absurd rfl hxs.ne_nil
    | cons y ys => rfl
  refine ⟨by simp, ?_, ?_⟩
  · rw [hwords, List.forall_mem_append, List.forall_mem_cons]
    exact ⟨hx.writable, .symbol _, hxs.writable⟩
  · intro row hrow
    rw [hwords] at hrow
    obtain ⟨front, back, rfl, hfront, hback⟩ := hrow.append
    obtain ⟨c, back, rfl, hc, -, hback⟩ := hback.cons
    obtain ⟨x', hx', hread⟩ := hx.reads hfront
    obtain ⟨xs', hxs', hreads⟩ := hxs.reads hback
    refine ⟨x' :: xs', ?_, ?_⟩
    · rw [List.map_cons, List.map_cons, hx', hxs']
    · intro r rest hr
      have hfirst := hread (back ++ r :: rest) rfl hc
      rw [List.append_assoc, List.cons_append]
      exact hfirst.map₂ (hreads rest hr) fun n hfirst hothers => .cons hfirst hc hothers

end DeclaratorsRead

/-! ## Heads of loops -/

theorem declares?_of_beginsOperand {w : Word} (h : beginsOperand w = true) :
    Word.declares? w = none := by
  cases w with
  | keyword k => cases k <;> first | rfl | exact absurd h (by decide)
  | _ => rfl

/-- Only behind the word of a declaration the head of a loop over items can begin. -/
theorem forOfHead?_of_none {w : Word} (h : Word.declares? w = none) (ws : List Word) :
    forOfHead? (w :: ws) = none := by
  unfold forOfHead?
  split
  · rename_i heq
    obtain ⟨rfl, -⟩ := List.cons.inj heq
    rw [h]
    rfl
  · rfl

/-- The expression in parentheses is read as a condition. -/
theorem Expr.Reads.condition {e : Expr} (h : e.Reads) {row : List Lexeme}
    (hrow : Line (enclosed e.words) row) :
    ∃ e', e'.erase = e.erase ∧ ∀ rest, Enough (DerivesCondition · (row ++ rest) e' rest) := by
  obtain ⟨l, row, rfl, hl, -, hrow⟩ := hrow.cons
  obtain ⟨inner, r, rfl, hinner, hr, -⟩ := hrow.concat
  obtain ⟨e', he', hread⟩ := h.stands.between hinner
  refine ⟨e', he', ?_⟩
  intro rest
  rw [List.cons_append, List.append_assoc]
  exact (hread rest (Nat.zero_le _) rfl hr).map fun n hread => .mk hl hread hr

/-- An expression that may be missing can be written and is read back. -/
structure OptionalRead (e : Option Expr) : Prop where
  writable : ∀ w ∈ wordsOrNone Expr.words e, Writable w
  reads : ∀ {row : List Lexeme}, Line (wordsOrNone Expr.words e) row →
    ∃ e', Option.map (Expr.mapPos fun _ => .start) e' = Option.map (Expr.mapPos fun _ => .start) e ∧
      ∀ {stop : Symbol} {r : Lexeme} (rest : List Lexeme), closes stop = true →
        r.word = .symbol stop → Enough (DerivesOptional · stop (row ++ r :: rest) e' rest)

namespace OptionalRead

theorem none : OptionalRead none := by
  refine ⟨by simp [wordsOrNone], ?_⟩
  intro row hrow
  obtain rfl := Line.eq_nil hrow
  exact ⟨.none, rfl, fun _ _ hr => .always fun n => .none hr⟩

theorem some {e : Expr} (h : e.Reads) : OptionalRead (some e) := by
  refine ⟨h.writable, ?_⟩
  intro row hrow
  obtain ⟨e', he', hread⟩ := h.stands.between hrow
  refine ⟨.some e', congrArg Option.some he', ?_⟩
  intro stop r rest hstop hr
  exact (hread rest (Nat.zero_le _) hstop hr).map fun n hread =>
    .some (hread.next?_ne hstop) hread hr

end OptionalRead

/-- What a counting loop does before its first round can be written and is read back, and its words
    are not those of a loop over items. -/
structure StartRead (start : Option LoopStart) : Prop where
  writable : ∀ w ∈ wordsOrNone LoopStart.words start, Writable w
  no_of : ∀ ws, forOfHead? (wordsOrNone LoopStart.words start ++ .symbol .semicolon :: ws) = none
  reads : ∀ {row : List Lexeme}, Line (wordsOrNone LoopStart.words start) row →
    ∃ start', Option.map (LoopStart.mapPos fun _ => .start) start'
        = Option.map (LoopStart.mapPos fun _ => .start) start ∧
      ∀ {r : Lexeme} (rest : List Lexeme), r.word = .symbol .semicolon →
        Enough (DerivesStart · (row ++ r :: rest) start' rest)

namespace StartRead

theorem none : StartRead none := by
  refine ⟨by simp [wordsOrNone], fun ws => forOfHead?_of_none rfl ws, ?_⟩
  intro row hrow
  obtain rfl := Line.eq_nil hrow
  exact ⟨.none, rfl, fun _ hr => .always fun n => .none hr⟩

theorem expr {e : Expr} (h : e.Reads) : StartRead (some (.expr e)) := by
  obtain ⟨w, hw, hbegins⟩ := h.stands.begins e.words_ne_nil
  have hno := declares?_of_beginsOperand hbegins
  refine ⟨h.writable, ?_, ?_⟩
  · intro ws
    obtain ⟨vs, hvs⟩ := List.head?_eq_some_iff.mp hw
    show forOfHead? (e.words ++ _) = _
    rw [hvs]
    exact forOfHead?_of_none hno _
  · intro row hrow
    have hrow : Line e.words row := hrow
    obtain ⟨e', he', hread⟩ := h.stands.between hrow
    refine ⟨.some (.expr e'), congrArg (Option.some ∘ LoopStart.expr) he', ?_⟩
    intro r rest hr
    have hfirst : (next? (row ++ r :: rest)).bind Word.declares? = Option.none := by
      rw [(hrow.next?_append e.words_ne_nil _).1, hw]
      exact hno
    exact (hread rest (Nat.zero_le _) rfl hr).map fun n hread =>
      .expr (hread.next?_ne rfl) hfirst hread hr

/-- Behind the first name of a declaration an assignment, a comma or the semicolon stands. -/
theorem declare {kind : DeclKind} {items : List Declarator} (h : DeclaratorsRead kind items) :
    StartRead (some (.declare kind items)) := by
  constructor
  · exact List.forall_mem_cons.mpr ⟨kind.writable_word, h.writable⟩
  · intro ws
    match items, h.ne_nil with
    | [⟨name, pos, .none⟩], _ => cases kind <;> rfl
    | [⟨name, pos, .some e⟩], _ => cases kind <;> rfl
    | ⟨name, pos, .none⟩ :: y :: ys, _ => cases kind <;> rfl
    | ⟨name, pos, .some e⟩ :: y :: ys, _ => cases kind <;> rfl
  · intro row hrow
    obtain ⟨l, row, rfl, hl, -, hrow⟩ := hrow.cons
    obtain ⟨items', hitems', hread⟩ := h.reads hrow
    refine ⟨.some (.declare kind items'), ?_, ?_⟩
    · show Option.some (LoopStart.declare kind (items'.map _)) = _
      rw [hitems']
      rfl
    · intro r rest hr
      have hkind : Word.declares? l.word = .some kind := by rw [hl]; exact kind.declares?_word
      exact (hread rest hr).map fun n hread => .declare hkind hread hr

end StartRead

/-- The parameters of a function are read back. -/
theorem params_read {row : List Lexeme} : ∀ {params : List String},
    Line (commas (params.map fun param => [Word.name param])) row →
    ∀ {r : Lexeme} (rest : List Lexeme), r.word = .symbol .rightParen →
      DerivesParams (row ++ r :: rest) params rest := by
  intro params hrow r rest hr
  induction params generalizing row with
  | nil =>
    obtain rfl := Line.eq_nil hrow
    exact .nil hr
  | cons param params ih =>
    cases params with
    | nil =>
      obtain ⟨l, row, rfl, hl, -, hnil⟩ := Line.cons hrow
      obtain rfl := hnil.eq_nil
      exact .last hl hr
    | cons other params =>
      obtain ⟨l, row, rfl, hl, -, hrow⟩ := Line.cons hrow
      obtain ⟨c, row, rfl, hc, -, hrow⟩ := hrow.cons
      exact .cons hl hc (ih hrow)

/-! ## Single statements -/

/-- The statement can be written, and what it is written as is read as the statement, up to
    positions, in front of anything that does not go on with an `if` in it. -/
structure StmtReads (s : Surroundings) (stmt : Stmt) : Prop where
  writable : ∀ w ∈ stmt.words, Writable w
  reads : ∀ {row : List Lexeme}, Line stmt.words row →
    ∃ stmt', stmt'.erase = stmt.erase ∧ ∀ rest : List Lexeme,
      (stmt.endsOpen = true → next? rest ≠ some (.keyword .kwElse)) →
      Enough (DerivesStmt · s (row ++ rest) stmt' rest)

/-- Statements in braces can be written and are read back. -/
structure BlockReads (s : Surroundings) (body : List Stmt) : Prop where
  writable : ∀ w ∈ Stmt.wordsList body, Writable w
  reads : ∀ {row : List Lexeme}, Line (Stmt.wordsList body) row →
    ∃ body', Stmt.mapPosList (fun _ => .start) body' = Stmt.mapPosList (fun _ => .start) body ∧
      ∀ {r : Lexeme} (rest : List Lexeme), r.word = .symbol .rightBrace →
        Enough (DerivesBlock · s (row ++ r :: rest) body' rest)

/-- No statement begins with an `else` or with a closing brace. -/
theorem Grammar.DerivesStmt.next?_ne {n : Nat} {s : Surroundings} {row rest : List Lexeme}
    {stmt : Stmt} (h : DerivesStmt n s row stmt rest) :
    next? row ≠ some (.keyword .kwElse) ∧ next? row ≠ some (.symbol .rightBrace) := by
  cases row with
  | nil => exact absurd rfl h.ne_nil
  | cons l row =>
    constructor <;> intro hl <;> rw [next?_cons, Option.some.injEq] at hl
    · have := h.startsAfresh (by rw [hl]; rfl)
      rw [hl] at this
      exact absurd this (by decide)
    · have := h.startsAfresh (by rw [hl]; rfl)
      rw [hl] at this
      exact absurd this (by decide)

theorem Grammar.DerivesBlock.next?_ne {n : Nat} {s : Surroundings} {row rest : List Lexeme}
    {body : List Stmt} (h : DerivesBlock n s row body rest) :
    next? row ≠ some (.keyword .kwElse) := by
  cases h with
  | nil hclose =>
    rw [next?_cons, hclose]
    decide
  | cons _ hx _ => exact hx.next?_ne.1

namespace BlockReads

variable {s : Surroundings}

theorem nil : BlockReads s [] := by
  refine ⟨by simp [Stmt.wordsList], ?_⟩
  intro row hrow
  obtain rfl := Line.eq_nil hrow
  exact ⟨[], rfl, fun _ hr => .always fun n => .nil hr⟩

theorem cons {x : Stmt} {body : List Stmt} (hx : StmtReads s x) (hbody : BlockReads s body) :
    BlockReads s (x :: body) := by
  refine ⟨List.forall_mem_append.mpr ⟨hx.writable, hbody.writable⟩, ?_⟩
  intro row hrow
  obtain ⟨front, back, rfl, hfront, hback⟩ := Line.append hrow
  obtain ⟨x', hx', hread⟩ := hx.reads hfront
  obtain ⟨body', hbody', hreads⟩ := hbody.reads hback
  refine ⟨x' :: body', ?_, ?_⟩
  · show x'.erase :: Stmt.mapPosList _ body' = x.erase :: Stmt.mapPosList _ body
    rw [hx', hbody']
  · intro r rest hr
    -- the rest of the block is read at some level, so it does not begin with an `else`
    have hothers := hreads rest hr
    obtain ⟨m, hm⟩ := hothers.some_level
    have hfirst := hread (back ++ r :: rest) fun _ => hm.next?_ne
    rw [List.append_assoc]
    exact hfirst.map₂ hothers fun n hfirst hothers =>
      .cons hfirst.next?_ne.2 hfirst hothers

/-- The statements of a block and its closing brace. -/
theorem closed {body : List Stmt} (hbody : BlockReads s body) {row : List Lexeme}
    (hrow : Line (Stmt.wordsList body ++ [.symbol .rightBrace]) row) :
    ∃ body', Stmt.mapPosList (fun _ => .start) body' = Stmt.mapPosList (fun _ => .start) body ∧
      ∀ rest, Enough (DerivesBlock · s (row ++ rest) body' rest) := by
  obtain ⟨front, r, rfl, hfront, hr, -⟩ := hrow.concat
  obtain ⟨body', hbody', hread⟩ := hbody.reads hfront
  refine ⟨body', hbody', ?_⟩
  intro rest
  rw [List.append_assoc]
  exact hread rest hr

theorem writable_closed {body : List Stmt} (hbody : BlockReads s body) :
    ∀ w ∈ Stmt.wordsList body ++ [.symbol .rightBrace], Writable w :=
  List.forall_mem_append.mpr ⟨hbody.writable, List.forall_mem_singleton.mpr (.symbol _)⟩

end BlockReads

namespace StmtReads

variable {s : Surroundings} {cond : Expr} {body whenTrue whenFalse : Stmt}

theorem branch (hcond : cond.Reads) (htrue : StmtReads s whenTrue) :
    StmtReads s (.branch cond whenTrue none) := by
  constructor
  · simp only [Stmt.words, Stmt.wordsElse, List.forall_mem_cons, List.forall_mem_append]
    exact ⟨.keyword _, writable_enclosed hcond.writable, htrue.writable, by simp⟩
  · intro row hrow
    simp only [Stmt.words, Stmt.wordsElse, List.append_nil] at hrow
    obtain ⟨l, row, rfl, hl, -, hrow⟩ := hrow.cons
    obtain ⟨front, back, rfl, hfront, hback⟩ := hrow.append
    obtain ⟨cond', hcond', hreadCond⟩ := hcond.condition hfront
    obtain ⟨true', htrue', hreadTrue⟩ := htrue.reads hback
    refine ⟨.branch cond' true' none, ?_, ?_⟩
    · show Stmt.branch cond'.erase true'.erase none = _
      rw [hcond', htrue']
      rfl
    · intro rest helse
      have h1 := hreadCond (back ++ rest)
      have h2 := hreadTrue rest fun _ => helse rfl
      rw [List.cons_append, List.append_assoc]
      exact h1.level₂ h2 fun n h1 h2 => .branch hl h1 h2 (helse rfl)

/-- The `else` belongs to the `if` that it was read with, because none is open in front of it. -/
theorem branchElse (hcond : cond.Reads) (htrue : StmtReads s whenTrue)
    (hclosed : whenTrue.endsOpen = false) (hfalse : StmtReads s whenFalse) :
    StmtReads s (.branch cond whenTrue (some whenFalse)) := by
  constructor
  · simp only [Stmt.words, Stmt.wordsElse, List.forall_mem_cons, List.forall_mem_append]
    exact ⟨.keyword _, writable_enclosed hcond.writable, htrue.writable, .keyword _,
      hfalse.writable⟩
  · intro row hrow
    obtain ⟨l, row, rfl, hl, -, hrow⟩ := hrow.cons
    obtain ⟨front, back, rfl, hfront, hback⟩ := hrow.append
    obtain ⟨mid, back, rfl, hmid, hback⟩ := hback.append
    obtain ⟨e, back, rfl, he, -, hback⟩ := Line.cons hback
    obtain ⟨cond', hcond', hreadCond⟩ := hcond.condition hfront
    obtain ⟨true', htrue', hreadTrue⟩ := htrue.reads hmid
    obtain ⟨false', hfalse', hreadFalse⟩ := hfalse.reads hback
    refine ⟨.branch cond' true' (some false'), ?_, ?_⟩
    · show Stmt.branch cond'.erase true'.erase (some false'.erase) = _
      rw [hcond', htrue', hfalse']
      rfl
    · intro rest helse
      have h1 := hreadCond (mid ++ e :: back ++ rest)
      have h2 := hreadTrue (e :: back ++ rest) fun hopen => by
        rw [hclosed] at hopen
        cases hopen
      have h3 := hreadFalse rest helse
      rw [List.append_assoc] at h1
      rw [List.cons_append, List.append_assoc, List.append_assoc]
      exact (h1.and h2).level₂ h3 fun n h12 h3 => .branchElse hl h12.1 h12.2 he h3

theorem whileLoop (hcond : cond.Reads) (hbody : StmtReads s.loopBody body) :
    StmtReads s (.whileLoop cond body) := by
  constructor
  · simp only [Stmt.words, List.forall_mem_cons, List.forall_mem_append]
    exact ⟨.keyword _, writable_enclosed hcond.writable, hbody.writable⟩
  · intro row hrow
    obtain ⟨l, row, rfl, hl, -, hrow⟩ := hrow.cons
    obtain ⟨front, back, rfl, hfront, hback⟩ := hrow.append
    obtain ⟨cond', hcond', hreadCond⟩ := hcond.condition hfront
    obtain ⟨body', hbody', hreadBody⟩ := hbody.reads hback
    refine ⟨.whileLoop cond' body', ?_, ?_⟩
    · show Stmt.whileLoop cond'.erase body'.erase = _
      rw [hcond', hbody']
      rfl
    · intro rest helse
      have h1 := hreadCond (back ++ rest)
      have h2 := hreadBody rest helse
      rw [List.cons_append, List.append_assoc]
      exact h1.level₂ h2 fun n h1 h2 => .whileLoop hl h1 h2

theorem doWhile (hcond : cond.Reads) (hbody : StmtReads s.loopBody body) :
    StmtReads s (.doWhile body cond) := by
  constructor
  · simp only [Stmt.words, List.forall_mem_cons, List.forall_mem_append]
    exact ⟨.keyword _, hbody.writable, .keyword _, writable_enclosed hcond.writable, .symbol _,
      by simp⟩
  · intro row hrow
    obtain ⟨l, row, rfl, hl, -, hrow⟩ := hrow.cons
    obtain ⟨front, back, rfl, hfront, hback⟩ := hrow.append
    obtain ⟨w, back, rfl, hw, -, hback⟩ := hback.cons
    obtain ⟨mid, r, rfl, hmid, hr, -⟩ := hback.concat
    obtain ⟨body', hbody', hreadBody⟩ := hbody.reads hfront
    obtain ⟨cond', hcond', hreadCond⟩ := hcond.condition hmid
    refine ⟨.doWhile body' cond', ?_, ?_⟩
    · show Stmt.doWhile body'.erase cond'.erase = _
      rw [hcond', hbody']
      rfl
    · intro rest _
      have h1 := hreadBody (w :: (mid ++ r :: rest)) fun _ => by
        rw [next?_cons, hw]
        decide
      have h2 := hreadCond (r :: rest)
      have hrow : l :: (front ++ w :: (mid ++ [r])) ++ rest
          = l :: (front ++ w :: (mid ++ r :: rest)) := by simp
      rw [hrow]
      exact h1.level₂ h2 fun n h1 h2 => .doWhile hl h1 hw h2 (Or.inl ⟨r, rfl, hr⟩)

theorem forOf {kind : DeclKind} {name : String} {iterable : Expr} (hname : Writable (.name name))
    (hof : Writable (.name "of")) (hiter : iterable.Reads) (hbody : StmtReads s.loopBody body) :
    StmtReads s (.forOf kind name iterable body) := by
  constructor
  · simp only [Stmt.words, List.forall_mem_cons, List.forall_mem_append]
    exact ⟨.keyword _, .symbol _, kind.writable_word, hname, hof, hiter.writable, .symbol _,
      hbody.writable⟩
  · intro row hrow
    obtain ⟨l, row, rfl, hl, -, hrow⟩ := hrow.cons
    obtain ⟨o, row, rfl, ho, -, hrow⟩ := hrow.cons
    obtain ⟨k, row, rfl, hk, -, hrow⟩ := hrow.cons
    obtain ⟨x, row, rfl, hx, -, hrow⟩ := hrow.cons
    obtain ⟨w, row, rfl, hw, -, hrow⟩ := hrow.cons
    obtain ⟨front, back, rfl, hfront, hback⟩ := hrow.append
    obtain ⟨r, back, rfl, hr, -, hback⟩ := hback.cons
    obtain ⟨iterable', hiter', hreadIter⟩ := hiter.stands.between hfront
    obtain ⟨body', hbody', hreadBody⟩ := hbody.reads hback
    refine ⟨.forOf kind name iterable' body', ?_, ?_⟩
    · show Stmt.forOf kind name iterable'.erase body'.erase = _
      rw [hiter', hbody']
      rfl
    · intro rest helse
      have h1 := hreadIter (p := Power.any) (back ++ rest) (Nat.zero_le _) rfl hr
      have h2 := hreadBody rest helse
      have hkind : Word.declares? k.word = some kind := by rw [hk]; exact kind.declares?_word
      have hrow : l :: o :: k :: x :: w :: (front ++ r :: back) ++ rest
          = l :: o :: k :: x :: w :: (front ++ r :: (back ++ rest)) := by simp
      rw [hrow]
      exact h1.level₂ h2 fun n h1 h2 => .forOf hl ho hkind hx hw h1 hr h2

theorem forLoop {start : Option LoopStart} {cond update : Option Expr} (hstart : StartRead start)
    (hcond : OptionalRead cond) (hupdate : OptionalRead update)
    (hbody : StmtReads s.loopBody body) : StmtReads s (.forLoop start cond update body) := by
  constructor
  · simp only [Stmt.words, List.forall_mem_cons, List.forall_mem_append]
    exact ⟨.keyword _, .symbol _, hstart.writable, .symbol _, hcond.writable, .symbol _,
      hupdate.writable, .symbol _, hbody.writable⟩
  · intro row hrow
    obtain ⟨l, row, rfl, hl, -, hrow⟩ := hrow.cons
    obtain ⟨o, row, rfl, ho, -, hrow⟩ := hrow.cons
    have hwords := hrow.words_eq
    obtain ⟨row1, row, rfl, hrow1, hrow⟩ := hrow.append
    obtain ⟨r1, row, rfl, hr1, -, hrow⟩ := hrow.cons
    obtain ⟨row2, row, rfl, hrow2, hrow⟩ := hrow.append
    obtain ⟨r2, row, rfl, hr2, -, hrow⟩ := hrow.cons
    obtain ⟨row3, row, rfl, hrow3, hrow⟩ := hrow.append
    obtain ⟨r3, row, rfl, hr3, -, hrow⟩ := hrow.cons
    obtain ⟨start', hstart', hreadStart⟩ := hstart.reads hrow1
    obtain ⟨cond', hcond', hreadCond⟩ := hcond.reads hrow2
    obtain ⟨update', hupdate', hreadUpdate⟩ := hupdate.reads hrow3
    obtain ⟨body', hbody', hreadBody⟩ := hbody.reads hrow
    refine ⟨.forLoop start' cond' update' body', ?_, ?_⟩
    · show Stmt.forLoop (start'.map _) (cond'.map _) (update'.map _) body'.erase = _
      rw [hstart', hcond', hupdate', hbody']
      rfl
    · intro rest helse
      have h1 := hreadStart (row2 ++ r2 :: (row3 ++ r3 :: (row ++ rest))) hr1
      have h2 := hreadCond (row3 ++ r3 :: (row ++ rest)) rfl hr2
      have h3 := hreadUpdate (row ++ rest) rfl hr3
      have h4 := hreadBody rest helse
      have hsplit : row1 ++ r1 :: (row2 ++ r2 :: (row3 ++ r3 :: row)) ++ rest
          = row1 ++ r1 :: (row2 ++ r2 :: (row3 ++ r3 :: (row ++ rest))) := by simp
      have hof : forOfHead? ((row1 ++ r1 :: (row2 ++ r2 :: (row3 ++ r3 :: (row ++ rest)))).map
          Lexeme.word) = none := by
        rw [← hsplit, List.map_append, hwords, List.append_assoc, List.cons_append]
        exact hstart.no_of _
      rw [List.cons_append, List.cons_append, hsplit]
      exact (h1.and (h2.and h3)).level₂ h4 fun n h123 h4 =>
        .forLoop hl ho (.mk hof h123.1 h123.2.1 h123.2.2) h4

theorem function {name : String} {params : List String} {body : List Stmt} (pos : Position)
    (hname : Writable (.name name)) (hparams : ∀ param ∈ params, Writable (.name param))
    (hbody : BlockReads s.functionBody body) : StmtReads s (.function pos name params body) := by
  constructor
  · have hparams : ∀ w ∈ commas (params.map fun param => [Word.name param]), Writable w := by
      refine writable_commas fun item hitem => ?_
      obtain ⟨param, hparam, rfl⟩ := List.mem_map.mp hitem
      exact List.forall_mem_singleton.mpr (hparams param hparam)
    simp only [Stmt.words, List.forall_mem_cons]
    refine ⟨.keyword _, hname, .symbol _, ?_⟩
    rw [List.forall_mem_append, List.forall_mem_cons, List.forall_mem_cons]
    exact ⟨hparams, .symbol _, .symbol _, hbody.writable_closed⟩
  · intro row hrow
    obtain ⟨l, row, rfl, hl, -, hrow⟩ := hrow.cons
    obtain ⟨x, row, rfl, hx, -, hrow⟩ := hrow.cons
    obtain ⟨o, row, rfl, ho, -, hrow⟩ := hrow.cons
    obtain ⟨front, back, rfl, hfront, hback⟩ := hrow.append
    obtain ⟨r, back, rfl, hr, -, hback⟩ := hback.cons
    obtain ⟨b, back, rfl, hb, -, hback⟩ := hback.cons
    obtain ⟨body', hbody', hreadBody⟩ := hbody.closed hback
    refine ⟨.function l.pos name params body', ?_, ?_⟩
    · show Stmt.function .start name params (Stmt.mapPosList _ body') = _
      rw [hbody']
      rfl
    · intro rest _
      have hrow : l :: x :: o :: (front ++ r :: b :: back) ++ rest
          = l :: x :: o :: (front ++ r :: b :: (back ++ rest)) := by simp
      rw [hrow]
      exact (hreadBody rest).level fun n hbody =>
        .function hl hx ho (params_read hfront _ hr) hb hbody

theorem block {body : List Stmt} (hbody : BlockReads s body) : StmtReads s (.block body) := by
  refine ⟨List.forall_mem_cons.mpr ⟨.symbol _, hbody.writable_closed⟩, ?_⟩
  intro row hrow
  obtain ⟨l, row, rfl, hl, -, hrow⟩ := hrow.cons
  obtain ⟨body', hbody', hread⟩ := hbody.closed hrow
  refine ⟨.block body', congrArg Stmt.block hbody', ?_⟩
  intro rest _
  exact (hread rest).level fun n hbody => .block hl hbody

/-- A statement of one reserved word. -/
theorem ofKeyword {stmt : Stmt} (k : Keyword)
    (hwords : stmt.words = [.keyword k, .symbol .semicolon])
    (hread : ∀ {n : Nat} {l : Lexeme} {row rest : List Lexeme}, l.word = .keyword k →
      EndsStmt row rest → DerivesStmt (n + 1) s (l :: row) stmt rest) : StmtReads s stmt := by
  constructor
  · rw [hwords, List.forall_mem_cons]
    exact ⟨.keyword k, List.forall_mem_singleton.mpr (.symbol _)⟩
  · intro row hrow
    rw [hwords] at hrow
    obtain ⟨l, row, rfl, hl, -, hrow⟩ := hrow.cons
    obtain ⟨r, row, rfl, hr, -, hnil⟩ := hrow.cons
    rw [hnil.eq_nil]
    refine ⟨stmt, rfl, ?_⟩
    intro rest _
    have hend : EndsStmt (r :: rest) rest := .semicolon hr
    exact .of_level fun n => hread hl hend

theorem breakLoop (hloop : s.inLoop = true) : StmtReads s .breakLoop :=
  ofKeyword .kwBreak rfl fun hl hend => .breakLoop hl hloop hend

theorem continueLoop (hloop : s.inLoop = true) : StmtReads s .continueLoop :=
  ofKeyword .kwContinue rfl fun hl hend => .continueLoop hl hloop hend

theorem retNone (hfunction : s.inFunction = true) : StmtReads s (.ret none) :=
  ofKeyword .kwReturn rfl fun hl hend => .retNone hl hfunction hend

theorem empty : StmtReads s .empty := by
  refine ⟨List.forall_mem_singleton.mpr (.symbol _), ?_⟩
  intro row hrow
  obtain ⟨l, row, rfl, hl, -, hnil⟩ := hrow.cons
  rw [hnil.eq_nil]
  refine ⟨.empty, rfl, ?_⟩
  intro rest _
  exact .of_level fun n => .empty hl

/-- A value stands on the line of its `return`, and does not begin like the end of a statement. -/
theorem atEnd_eq_false {w : Word} {ws : List Word} {row : List Lexeme} (hrow : Line ws row)
    (hw : ws.head? = some w) (hbegins : beginsOperand w = true) (rest : List Lexeme) :
    atEnd (row ++ rest) = false := by
  obtain ⟨hnext, hbreaks⟩ := hrow.next?_append (fun h => by rw [h] at hw; cases hw) rest
  have hsemicolon : w ≠ .symbol .semicolon := by
    rintro rfl
    exact absurd hbegins (by decide)
  have hbrace : w ≠ .symbol .rightBrace := by
    rintro rfl
    exact absurd hbegins (by decide)
  rw [atEnd, hnext, hw, hbreaks]
  simp [hsemicolon, hbrace]

theorem retSome {e : Expr} (he : e.Reads) (hfunction : s.inFunction = true) :
    StmtReads s (.ret (some e)) := by
  constructor
  · simp only [Stmt.words, wordsOrNone, List.forall_mem_cons, List.forall_mem_append]
    exact ⟨.keyword _, he.writable, .symbol _, by simp⟩
  · intro row hrow
    obtain ⟨l, row, rfl, hl, -, hrow⟩ := hrow.cons
    obtain ⟨front, r, rfl, hfront, hr, -⟩ := hrow.concat
    obtain ⟨e', he', hread⟩ := he.stands.between hfront
    obtain ⟨w, hw, hbegins⟩ := he.stands.begins e.words_ne_nil
    refine ⟨.ret (some e'), congrArg (Stmt.ret ∘ some) he', ?_⟩
    intro rest _
    have hvalue : atEnd (front ++ r :: rest) = false := atEnd_eq_false hfront hw hbegins _
    rw [List.cons_append, List.append_assoc]
    exact (hread rest (Nat.zero_le _) rfl hr).level fun n he =>
      .retSome hl hfunction hvalue he (.semicolon hr)

theorem declare {kind : DeclKind} {items : List Declarator} (hitems : DeclaratorsRead kind items) :
    StmtReads s (.declare kind items) := by
  constructor
  · simp only [Stmt.words, declarationWords, List.forall_mem_cons, List.forall_mem_append]
    exact ⟨⟨kind.writable_word, hitems.writable⟩, .symbol _, by simp⟩
  · intro row hrow
    obtain ⟨front, back, rfl, hfront, hback⟩ := hrow.append
    obtain ⟨l, front, rfl, hl, -, hfront⟩ := hfront.cons
    obtain ⟨r, back, rfl, hr, -, hnil⟩ := hback.cons
    obtain rfl := hnil.eq_nil
    obtain ⟨items', hitems', hread⟩ := hitems.reads hfront
    refine ⟨.declare kind items', congrArg (Stmt.declare kind) hitems', ?_⟩
    intro rest _
    have hkind : Word.declares? l.word = some kind := by rw [hl]; exact kind.declares?_word
    rw [List.append_assoc]
    exact (hread rest hr).level fun n hitems => .declare hkind hitems (.semicolon hr)

/-- A word that begins an expression begins no statement of another kind, the brace apart. -/
theorem beginsExpr_of_beginsOperand {w : Word} (h : beginsOperand w = true)
    (hbrace : w ≠ .symbol .leftBrace) : beginsExpr w := by
  refine ⟨declares?_of_beginsOperand h, hbrace, ?_, ?_⟩
  · rintro rfl
    exact absurd h (by decide)
  · intro k hk
    rintro rfl
    cases k <;> first | exact absurd h (by decide) | exact absurd hk (by decide)

theorem expr {e : Expr} (he : e.Reads) : StmtReads s (.expr e) := by
  -- with the parentheses, if there are any, it is an expression that does not begin with a brace
  have hstands : ∃ k, ReadsAt k (standingAlone e.words) e ∧ standingAlone e.words ≠ [] ∧
      (standingAlone e.words).head? ≠ some (.symbol .leftBrace) ∧
      ∀ w ∈ standingAlone e.words, Writable w := by
    unfold standingAlone
    split
    · exact ⟨.operand, he.stands.enclosed.readsAt _, by simp [enclosed], by simp [enclosed],
        writable_enclosed he.writable⟩
    · rename_i hbrace
      exact ⟨e.rank, he.stands, e.words_ne_nil, hbrace, he.writable⟩
  obtain ⟨k, hstands, hne, hbrace, hwritable⟩ := hstands
  obtain ⟨w, hw, hbegins⟩ := hstands.begins hne
  have hbeginsExpr : beginsExpr w :=
    beginsExpr_of_beginsOperand hbegins fun h => hbrace (by rw [hw, h])
  constructor
  · rw [Stmt.words, List.forall_mem_append]
    exact ⟨hwritable, List.forall_mem_singleton.mpr (.symbol _)⟩
  · intro row hrow
    obtain ⟨front, r, rfl, hfront, hr, -⟩ := hrow.concat
    obtain ⟨e', he', hread⟩ := hstands.between hfront
    refine ⟨.expr e', congrArg Stmt.expr he', ?_⟩
    intro rest _
    have hnext := (hfront.next?_append hne (r :: rest)).1
    obtain ⟨l, row, hrow⟩ : ∃ l row, front ++ r :: rest = l :: row := by cases front <;> simp
    have he := hread rest (Nat.zero_le _) rfl hr
    rw [hrow] at hnext he
    obtain rfl : l.word = w := Option.some.inj (hnext.trans hw)
    rw [List.append_assoc, List.singleton_append, hrow]
    exact he.level fun n he => .expr hbeginsExpr he (.semicolon hr)

end StmtReads

end Stencil.Script
