/-
  Reading undoes writing.

  A program that was read, written back as a text, is read as the same program up to positions,
  unless the parentheses that were written nest too deep (`parse_written`).  That the words of its
  statements are read back goes by recursion on the derivation that the program came from, which
  also shows what cannot be seen from a tree alone: that its names can be written, that its
  constants have values, and that no `else` is taken by the wrong `if`.
-/
import Stencil.Proofs.Script.Grammar.Complete
import Stencil.Proofs.Script.Print.Statements

namespace Stencil.Script

namespace Grammar

/-! ## Parts of statements -/

section

variable {n : Nat} {row rest : List Lexeme}

theorem EndsStmt.writable : EndsStmt row rest → WritableRow row → WritableRow rest
  | .semicolon _, h => h.tail
  | .missing _ _, h => h

theorem DerivesDeclarator.reads {kind : DeclKind} {x : Declarator} :
    DerivesDeclarator n kind row x rest → WritableRow row →
      WritableRow rest ∧ DeclaratorRead kind x
  | .valued hname _ he, h => by
    obtain ⟨hrest, he⟩ := he.reads h.tail.tail
    exact ⟨hrest, .valued (hname ▸ h.head) he _⟩
  | .bare hname _ hkind, h => ⟨h.tail, .bare (hname ▸ h.head) hkind _⟩

theorem DerivesDeclarators.reads {kind : DeclKind} {xs : List Declarator}
    (hxs : DerivesDeclarators n kind row xs rest) (h : WritableRow row) :
    WritableRow rest ∧ DeclaratorsRead kind xs := by
  induction hxs with
  | last hx _ =>
    obtain ⟨hrest, hx⟩ := hx.reads h
    exact ⟨hrest, .singleton hx⟩
  | cons hx _ _ ih =>
    obtain ⟨hmid, hx⟩ := hx.reads h
    obtain ⟨hrest, hothers⟩ := ih hmid.tail
    exact ⟨hrest, .cons hx hothers⟩

theorem DerivesCondition.reads {e : Expr} :
    DerivesCondition n row e rest → WritableRow row → WritableRow rest ∧ e.Reads
  | .mk _ he _, h => by
    obtain ⟨hrest, he⟩ := he.reads h.tail
    exact ⟨hrest.tail, he⟩

theorem DerivesOptional.reads {stop : Symbol} {e : Option Expr} :
    DerivesOptional n stop row e rest → WritableRow row → WritableRow rest ∧ OptionalRead e
  | .none _, h => ⟨h.tail, .none⟩
  | .some _ he _, h => by
    obtain ⟨hrest, he⟩ := he.reads h
    exact ⟨hrest.tail, .some he⟩

theorem DerivesStart.reads {start : Option LoopStart} :
    DerivesStart n row start rest → WritableRow row → WritableRow rest ∧ StartRead start
  | .none _, h => ⟨h.tail, .none⟩
  | .declare _ hitems _, h => by
    obtain ⟨hrest, hitems⟩ := hitems.reads h.tail
    exact ⟨hrest.tail, .declare hitems⟩
  | .expr _ _ he _, h => by
    obtain ⟨hrest, he⟩ := he.reads h
    exact ⟨hrest.tail, .expr he⟩

theorem DerivesParams.writable {params : List String} (hparams : DerivesParams row params rest)
    (h : WritableRow row) : WritableRow rest ∧ ∀ param ∈ params, Writable (.name param) := by
  induction hparams with
  | nil _ => exact ⟨h.tail, by simp⟩
  | last hname _ => exact ⟨h.tail.tail, List.forall_mem_singleton.mpr (hname ▸ h.head)⟩
  | cons hname _ _ ih =>
    obtain ⟨hrest, hothers⟩ := ih h.tail.tail
    exact ⟨hrest, List.forall_mem_cons.mpr ⟨hname ▸ h.head, hothers⟩⟩

end

/-! ## Statements -/

mutual

/-- What is derived from words that can be written is read back from what it is written as. -/
theorem DerivesStmt.reads {n : Nat} {s : Surroundings} {row rest : List Lexeme} {stmt : Stmt} :
    DerivesStmt n s row stmt rest → WritableRow row → WritableRow rest ∧ StmtReads s stmt
  | .branch _ hcond htrue _, h => by
    obtain ⟨hmid, hcond⟩ := hcond.reads h.tail
    obtain ⟨hrest, htrue⟩ := htrue.reads hmid
    exact ⟨hrest, .branch hcond htrue⟩
  | .branchElse _ hcond htrue helse hfalse, h => by
    -- the `else` was not taken by an `if` inside the first branch
    have hclosed := htrue.endsOpen_eq (by rw [next?_cons, helse])
    obtain ⟨hmid, hcond⟩ := hcond.reads h.tail
    obtain ⟨hmid, htrue⟩ := htrue.reads hmid
    obtain ⟨hrest, hfalse⟩ := hfalse.reads hmid.tail
    exact ⟨hrest, .branchElse hcond htrue hclosed hfalse⟩
  | .whileLoop _ hcond hbody, h => by
    obtain ⟨hmid, hcond⟩ := hcond.reads h.tail
    obtain ⟨hrest, hbody⟩ := hbody.reads hmid
    exact ⟨hrest, .whileLoop hcond hbody⟩
  | .doWhile _ hbody _ hcond hend, h => by
    obtain ⟨hmid, hbody⟩ := hbody.reads h.tail
    obtain ⟨hrest, hcond⟩ := hcond.reads hmid.tail
    refine ⟨?_, .doWhile hcond hbody⟩
    rcases hend with ⟨r, hr, -⟩ | ⟨-, hr⟩
    · rw [hr] at hrest
      exact hrest.tail
    · rwa [hr]
  | .forOf _ _ _ hname hof hiter _ hbody, h => by
    have h := h.tail.tail.tail
    obtain ⟨hmid, hiter⟩ := hiter.reads h.tail.tail
    obtain ⟨hrest, hbody⟩ := hbody.reads hmid.tail
    exact ⟨hrest, .forOf (hname ▸ h.head) (hof ▸ h.tail.head) hiter hbody⟩
  | .forLoop _ _ (.mk _ hstart hcond hupdate) hbody, h => by
    obtain ⟨hmid, hstart⟩ := hstart.reads h.tail.tail
    obtain ⟨hmid, hcond⟩ := hcond.reads hmid
    obtain ⟨hmid, hupdate⟩ := hupdate.reads hmid
    obtain ⟨hrest, hbody⟩ := hbody.reads hmid
    exact ⟨hrest, .forLoop hstart hcond hupdate hbody⟩
  | .function _ hname _ hparams _ hbody, h => by
    obtain ⟨hmid, hparams⟩ := hparams.writable h.tail.tail.tail
    obtain ⟨hrest, hbody⟩ := hbody.reads hmid.tail
    exact ⟨hrest, .function _ (hname ▸ h.tail.head) hparams hbody⟩
  | .breakLoop _ hloop hend, h => ⟨hend.writable h.tail, .breakLoop hloop⟩
  | .continueLoop _ hloop hend, h => ⟨hend.writable h.tail, .continueLoop hloop⟩
  | .retNone _ hfunction hend, h => ⟨hend.writable h.tail, .retNone hfunction⟩
  | .retSome _ hfunction _ he hend, h => by
    obtain ⟨hmid, he⟩ := he.reads h.tail
    exact ⟨hend.writable hmid, .retSome he hfunction⟩
  | .block _ hbody, h => by
    obtain ⟨hrest, hbody⟩ := hbody.reads h.tail
    exact ⟨hrest, .block hbody⟩
  | .empty _, h => ⟨h.tail, .empty⟩
  | .declare _ hitems hend, h => by
    obtain ⟨hmid, hitems⟩ := hitems.reads h.tail
    exact ⟨hend.writable hmid, .declare hitems⟩
  | .expr _ he hend, h => by
    obtain ⟨hmid, he⟩ := he.reads h
    exact ⟨hend.writable hmid, .expr he⟩

theorem DerivesBlock.reads {n : Nat} {s : Surroundings} {row rest : List Lexeme}
    {body : List Stmt} :
    DerivesBlock n s row body rest → WritableRow row → WritableRow rest ∧ BlockReads s body
  | .nil _, h => ⟨h.tail, .nil⟩
  | .cons _ hx hothers, h => by
    obtain ⟨hmid, hx⟩ := hx.reads h
    obtain ⟨hrest, hothers⟩ := hothers.reads hmid
    exact ⟨hrest, .cons hx hothers⟩

end

theorem DerivesProgram.reads {s : Surroundings} {row : List Lexeme} {body : List Stmt}
    (hbody : DerivesProgram s row body) (h : WritableRow row) :
    ∀ stmt ∈ body, StmtReads s stmt := by
  induction hbody with
  | nil => exact fun stmt hstmt => absurd hstmt List.not_mem_nil
  | cons hx _ ih =>
    obtain ⟨hrest, hx⟩ := hx.reads h
    exact List.forall_mem_cons.mpr ⟨hx, ih hrest⟩

end Grammar

open Grammar

/-! ## Programs -/

theorem writable_wordsList {s : Surroundings} {body : List Stmt}
    (hbody : ∀ stmt ∈ body, StmtReads s stmt) : ∀ w ∈ Stmt.wordsList body, Writable w := by
  induction body with
  | nil => simp [Stmt.wordsList]
  | cons x body ih =>
    rw [List.forall_mem_cons] at hbody
    exact List.forall_mem_append.mpr ⟨hbody.1.writable, ih hbody.2⟩

/-- The words of statements are read statement by statement, unless levels are short. -/
theorem untilEnd_go_yields {s : Surroundings} {body : List Stmt} {row : List Lexeme}
    (hbody : ∀ stmt ∈ body, StmtReads s stmt) (hrow : Line (Stmt.wordsList body) row) :
    next? row ≠ some (.keyword .kwElse) ∧ ∃ body', body'.map Stmt.erase = body.map Stmt.erase ∧
      ∀ last fuel, row.length ≤ fuel →
        Reader.Yields True (Reader.untilEnd.go (statement maxNesting { s with last := last }) fuel
          row) body' [] := by
  induction body generalizing row with
  | nil =>
    obtain rfl := Line.eq_nil hrow
    refine ⟨by simp, [], rfl, fun last fuel _ => ?_⟩
    cases fuel <;> exact .ok rfl
  | cons x body ih =>
    rw [List.forall_mem_cons] at hbody
    obtain ⟨front, back, rfl, hfront, hback⟩ := Line.append hrow
    obtain ⟨helse, body', hbody', hothers⟩ := ih hbody.2 hback
    obtain ⟨x', hx', hread⟩ := hbody.1.reads hfront
    obtain ⟨N, hx⟩ := (hread back fun _ => helse).some_level
    refine ⟨hx.next?_ne.1, x' :: body', by rw [List.map_cons, List.map_cons, hx', hbody'], ?_⟩
    intro last fuel hfuel
    have hlt := hx.length_lt
    obtain ⟨fuel, rfl⟩ : ∃ k, fuel = k + 1 := ⟨fuel - 1, by omega⟩
    have hfirst := (hx.yields last maxNesting).mono fun _ => True.intro
    exact Reader.untilEnd_go_cons hx.ne_nil hfirst (hothers last fuel (by omega))

/-- **Reading undoes writing.**  A program that was read can be written back, and whatever text it
    is written as is read as the same program up to positions, or nests too deep. -/
theorem parse_written {script : String} {body : List Stmt} (h : parse script = .ok body) :
    (∃ text, Written (Stmt.wordsList body) text) ∧
    ∀ text, Written (Stmt.wordsList body) text →
      (∃ body', parse (String.ofList text) = .ok body' ∧
        body'.map Stmt.erase = body.map Stmt.erase) ∨
      ∃ pos, parse (String.ofList text) = .error ⟨.nestingTooDeep maxNesting, pos⟩ := by
  obtain ⟨row, hrow, hprogram⟩ := (parse_eq_ok_iff .start).mp h
  have hbody := hprogram.reads hrow.writable
  have hwritable := writable_wordsList hbody
  refine ⟨exists_written hwritable, fun text htext => ?_⟩
  obtain ⟨row', hspells, hline⟩ := htext.spellsRow hwritable .start
  have hlexemes : lexemes (String.ofList text) = .ok row' :=
    lexemes_eq_ok_iff.mpr (by rwa [String.toList_ofList])
  obtain ⟨-, body', hbody', hread⟩ := untilEnd_go_yields hbody hline
  -- the last position of the written text is the one that messages name
  rw [parse, hlexemes]
  dsimp only
  rw [program, Reader.untilEnd]
  rcases hread ((row'.getLast?.map Lexeme.pos).getD .start) row'.length (Nat.le_refl _) with
    hok | ⟨-, pos, herror⟩
  · rw [hok]
    exact Or.inl ⟨body', rfl, hbody'⟩
  · rw [herror]
    exact Or.inr ⟨pos, rfl⟩

/-- The case of a power whose base is a sum behind a minus. -/
theorem parse_written_power :
    let body : List Stmt := [.expr (.binary ⟨0, 0⟩ .pow (.unary ⟨0, 0⟩ .negate
      (.binary ⟨0, 2⟩ .add (.name ⟨0, 2⟩ "a") (.name ⟨0, 4⟩ "b"))) (.name ⟨0, 8⟩ "c"))]
    parse "-(a+b)**c" = .ok body ∧ (∃ text, Written (Stmt.wordsList body) text) ∧
    ∀ text, Written (Stmt.wordsList body) text →
      (∃ body', parse (String.ofList text) = .ok body' ∧
        body'.map Stmt.erase = body.map Stmt.erase) ∨
      ∃ pos, parse (String.ofList text) = .error ⟨.nestingTooDeep maxNesting, pos⟩ := by
  have hlexemes : lexemes "-(a+b)**c" = .ok
      [⟨.symbol .minus, ⟨0, 0⟩, false⟩, ⟨.symbol .leftParen, ⟨0, 1⟩, false⟩,
       ⟨.name "a", ⟨0, 2⟩, false⟩, ⟨.symbol .plus, ⟨0, 3⟩, false⟩, ⟨.name "b", ⟨0, 4⟩, false⟩,
       ⟨.symbol .rightParen, ⟨0, 5⟩, false⟩, ⟨.symbol .starStar, ⟨0, 6⟩, false⟩,
       ⟨.name "c", ⟨0, 8⟩, false⟩] := by decide +kernel
  intro body
  have hparse : parse "-(a+b)**c" = .ok body := by
    rw [parse, hlexemes]
    rfl
  exact ⟨hparse, parse_written hparse⟩

/-- The sum keeps its parentheses, and the minus gets none. -/
example (p q r s t u : Position) : Stmt.wordsList [.expr (.binary p .pow (.unary q .negate
    (.binary r .add (.name s "a") (.name t "b"))) (.name u "c"))] =
    [.symbol .minus, .symbol .leftParen, .name "a", .symbol .plus, .name "b", .symbol .rightParen,
     .symbol .starStar, .name "c", .symbol .semicolon] := rfl

end Stencil.Script
