/-
  Calls of the output function, as text and as statements.

  A token that is output becomes a line with one call, and where its argument is a single word the
  call has the same five words wherever it stands (`callWords`).  So a row of such tokens spells a
  row of calls and is read as the statements of these calls, in front of anything that begins on a
  line of its own (`exists_calls`).
-/
import Stencil.Proofs.Script.Print.Written
import Stencil.Proofs.Script.Run.Output
import Stencil.Proofs.Template.Pieces

namespace Stencil

open Script Script.Grammar

namespace Script

/-- The words of a call of the output function with one word as its argument. -/
def callWords (w : Word) : List Word :=
  [.name Native.append.name, .symbol .leftParen, w, .symbol .rightParen, .symbol .semicolon]

/-! ## One call -/

/-- A call on a line of its own spells its words, in front of what stands on the next line. -/
theorem spellsRow_appendCall {argument : List Char} {w : Word}
    (hw : ∀ rest, Spells (.word w) argument (')' :: rest)) (b : Bool) (pos : Position) :
    ∃ row : List Lexeme, row.map Lexeme.word = callWords w ∧
      ∀ rest more, SpellsRow true (pos.after (appendCall argument)) rest more →
        SpellsRow b pos (appendCall argument ++ rest) (row ++ more) := by
  have htext : ∀ rest, appendCall argument ++ rest = "append".toList ++
      (Symbol.leftParen.spelling ++ (argument ++ (Symbol.rightParen.spelling ++
        (Symbol.semicolon.spelling ++ (['\n'] ++ rest))))) := by
    intro rest
    simp [appendCall, Symbol.spelling, Native.name]
  let afterName := pos.after "append".toList
  let afterOpen := afterName.after Symbol.leftParen.spelling
  let afterWord := afterOpen.after argument
  let afterClose := afterWord.after Symbol.rightParen.spelling
  have hend : pos.after (appendCall argument)
      = (afterClose.after Symbol.semicolon.spelling).after ['\n'] := by
    have := htext []
    rw [List.append_nil, List.append_nil] at this
    simp only [this, Position.after_append, afterClose, afterWord, afterOpen, afterName]
  refine ⟨[⟨.name "append", pos, b⟩, ⟨.symbol .leftParen, afterName, false⟩, ⟨w, afterOpen, false⟩,
    ⟨.symbol .rightParen, afterWord, false⟩, ⟨.symbol .semicolon, afterClose, false⟩], rfl,
    fun rest more h => ?_⟩
  rw [hend] at h
  rw [htext]
  refine .word (Token.spells_appendName _) (.word (.symbol rfl rfl rfl rfl) (.word (hw _) ?_))
  exact .word (.symbol rfl rfl rfl rfl) (.word (.symbol rfl rfl rfl rfl) (.space .lineBreak h))

/-- A literal or a name in parentheses: the closing one does not go on with it. -/
theorem derives_argument {n least : Nat} {a c : Lexeme} {more : List Lexeme} {e : Expr}
    (ha : a.word.atom? a.pos = some e) (hc : c.word = .symbol .rightParen) :
    DerivesExpr (n + 1) least (a :: c :: more) e (c :: more) := by
  -- the parenthesis is neither a suffix nor an operator, so the expression ends before it
  have hnext : next? (c :: more) = some (.symbol .rightParen) := by rw [next?_cons, hc]
  refine .mk (.primary (.atom ha) (.done ?_ (Or.inl ?_))) (.done ?_)
  · rw [hnext]
    rfl
  · rw [hnext]
    rfl
  · rw [hnext]
    rfl

/-- The words of a call are read as the call. -/
theorem derives_call {row : List Lexeme} {w : Word} (hrow : row.map Lexeme.word = callWords w)
    (hw : ∀ q, ∃ e, w.atom? q = some e) :
    ∃ stmt : Stmt, stmt.Outputs w ∧
      ∀ n s more, DerivesStmt (n + 4) s (row ++ more) stmt more := by
  obtain ⟨f, _, rfl, hf, h⟩ := List.map_eq_cons_iff.mp hrow
  obtain ⟨o, _, rfl, ho, h⟩ := List.map_eq_cons_iff.mp h
  obtain ⟨a, _, rfl, ha, h⟩ := List.map_eq_cons_iff.mp h
  obtain ⟨c, _, rfl, hc, h⟩ := List.map_eq_cons_iff.mp h
  obtain ⟨z, _, rfl, hz, h⟩ := List.map_eq_cons_iff.mp h
  obtain rfl := List.map_eq_nil_iff.mp h
  obtain ⟨e, he⟩ := hw a.pos
  refine ⟨_, ⟨f.pos, a.pos, e, he, rfl⟩, fun n s more => ?_⟩
  have hnext : next? (z :: more) = some (.symbol .semicolon) := by rw [next?_cons, hz]
  have hname : DerivesPrimary (n + 2) (f :: o :: a :: c :: z :: more)
      (.name f.pos Native.append.name) (o :: a :: c :: z :: more) := .atom (by rw [hf]; rfl)
  have hopen : next? (a :: c :: z :: more) ≠ some (.symbol .rightParen) := by
    rw [next?_cons, ha]
    intro h
    rw [Option.some.inj h] at he
    cases he
  have hitems : DerivesItems (n + 1) .rightParen (a :: c :: z :: more) [e] (z :: more) :=
    .last hopen (derives_argument (by rwa [ha]) hc) (by rw [hc]; simp) hc
  have hsuffixes : DerivesSuffixes (n + 2) (.name f.pos Native.append.name)
      (o :: a :: c :: z :: more) (.call f.pos (.name f.pos Native.append.name) [e])
      (z :: more) := by
    refine .more (s := .call) (by rw [ho]; rfl) (.call hitems) (.done ?_ (Or.inl ?_))
    · rw [hnext]
      rfl
    · rw [hnext]
      rfl
  refine .expr (by rw [hf]; exact ⟨rfl, by simp⟩) (.mk (.primary hname hsuffixes) (.done ?_))
    (.semicolon hz)
  rw [hnext]
  rfl

theorem next?_call {row more : List Lexeme} {w : Word} (h : row.map Lexeme.word = callWords w) :
    next? (row ++ more) = some (.name Native.append.name) := by
  obtain ⟨f, row, rfl, hf, -⟩ := List.map_eq_cons_iff.mp h
  rw [List.cons_append, next?_cons, hf]

end Script

/-! ## Rows of calls -/

namespace Token

/-- The token's piece is a call of the output function with the word as its argument. -/
def Outputs (t : Token) (w : Word) : Prop :=
  (∀ q, ∃ e, w.atom? q = some e) ∧
    ∃ argument, t.piece = appendCall argument ∧ ∀ rest, Spells (.word w) argument (')' :: rest)

/-- Literal text is output as a text. -/
theorem outputs_chunk (text : String) (pos : Position) :
    (Token.mk .chunk text pos).Outputs (.text text) := by
  refine ⟨fun q => ⟨_, rfl⟩, escapeString text.toList, rfl, fun rest => ?_⟩
  have := spells_escapeString text.toList (')' :: rest)
  rwa [String.ofList_toList] at this

/-- The expression that is a name is output as the value of the name. -/
theorem outputs_name {c : Char} {u : List Char} {name : String} (hc : isNameStart c = true)
    (hu : ∀ d ∈ u, isNamePart d = true) (hname : Word.ofName (String.ofList (c :: u)) = .name name)
    (pos : Position) :
    (Token.mk .expression (String.ofList (c :: u)) pos).Outputs (.name name) := by
  refine ⟨fun q => ⟨_, rfl⟩, c :: u, ?_, fun rest => ?_⟩
  · rw [piece, String.toList_ofList]
  · have hstop : isNamePart ')' = false := by decide +kernel
    have hspells : Spells (.word (.ofName (String.ofList (c :: u)))) (c :: u) (')' :: rest) :=
      .name hc hu hstop
    rwa [hname] at hspells

/-- Tokens that are output spell calls and are read as calls, in front of what begins on a line of
    its own. -/
theorem exists_calls {tokens : List Token} {words : List Word}
    (h : List.Forall₂ Outputs tokens words) (pos : Position) :
    ∃ row body, List.Forall₂ Stmt.Outputs body words ∧
      (∀ rest more, SpellsRow true (pos.after (tokens.flatMap piece)) rest more →
        SpellsRow true pos (tokens.flatMap piece ++ rest) (row ++ more)) ∧
      (∀ n s more others rest, DerivesBlock (n + 4) s more others rest →
        DerivesBlock (n + 4) s (row ++ more) (body ++ others) rest) ∧
      ∀ s more others, DerivesProgram s more others →
        DerivesProgram s (row ++ more) (body ++ others) := by
  induction h generalizing pos with
  | nil => exact ⟨[], [], .nil, fun _ _ h => h, fun _ _ _ _ _ h => h, fun _ _ _ h => h⟩
  | @cons t w tokens words ht _ ih =>
    obtain ⟨hw, argument, hpiece, hspells⟩ := ht
    obtain ⟨call, hcall, hcallSpells⟩ := spellsRow_appendCall hspells true pos
    obtain ⟨stmt, hstmt, hderives⟩ := derives_call hcall hw
    obtain ⟨row, body, hbody, hrow, hblock, hprogram⟩ := ih (pos.after t.piece)
    refine ⟨call ++ row, stmt :: body, .cons hstmt hbody, ?_, ?_, ?_⟩
    · intro rest more h
      rw [List.flatMap_cons, Position.after_append] at h
      rw [List.flatMap_cons, List.append_assoc, List.append_assoc]
      rw [hpiece] at h hrow ⊢
      exact hcallSpells _ _ (hrow rest more h)
    · intro n s more others rest h
      rw [List.append_assoc]
      exact .cons (by rw [next?_call hcall]; simp) (hderives n s _) (hblock n s more others rest h)
    · intro s more others h
      rw [List.append_assoc]
      exact .cons (hderives 60 s _) (hprogram s more others h)

end Token

/-- The script of tokens that are output is read as the calls that output them. -/
theorem Fragment.parse_outputs {tokens : List Token} {words : List Word}
    (h : List.Forall₂ Token.Outputs tokens words) :
    ∃ body, parse (ofTokens tokens).code = .ok body ∧ List.Forall₂ Stmt.Outputs body words := by
  cases h with
  | nil => exact ⟨[], (parse_eq_ok_iff .start).mpr ⟨[], .nil, .nil⟩, .nil⟩
  | @cons t w tokens words ht htokens =>
    obtain ⟨hw, argument, hpiece, hspells⟩ := ht
    obtain ⟨call, hcall, hcallSpells⟩ := spellsRow_appendCall hspells false .start
    obtain ⟨stmt, hstmt, hderives⟩ := derives_call hcall hw
    obtain ⟨row, body, hbody, hrow, -, hprogram⟩ :=
      Token.exists_calls htokens (Position.start.after t.piece)
    refine ⟨stmt :: body, (parse_eq_ok_iff .start).mpr ⟨call ++ row, ?_, ?_⟩, .cons hstmt hbody⟩
    · have hend := hrow [] [] .nil
      rw [List.append_nil, List.append_nil, hpiece] at hend
      rw [toList_code, List.flatMap_cons, hpiece]
      exact hcallSpells _ _ hend
    · have hall := hprogram ⟨.start, false, false⟩ [] [] .nil
      rw [List.append_nil, List.append_nil] at hall
      exact .cons (hderives 60 _ _) hall

end Stencil
