/-
  Brackets stand in pairs.

  Counting an opening bracket as one and a closing one as minus one, the words of an expression and
  of a statement add up to nothing, for each kind of bracket on its own; what closes a list of
  expressions or a block is the only word that its own derivation does not open.  So in every
  script that is accepted there are as many closing brackets as opening ones
  (`DerivesProgram.net_eq_zero`).
-/
import Mathlib.Tactic
import Stencil.Proofs.Script.Grammar.Derivation

namespace Stencil.Script

/-- The kinds of brackets. -/
inductive Bracket where
  | paren | square | brace
  deriving DecidableEq, Repr

namespace Bracket

def opening : Bracket → Symbol
  | paren => .leftParen
  | square => .leftBracket
  | brace => .leftBrace

def closing : Bracket → Symbol
  | paren => .rightParen
  | square => .rightBracket
  | brace => .rightBrace

/-- One for a word that opens a bracket, minus one for a word that closes one. -/
def weight (b : Bracket) (w : Word) : Int :=
  if w = .symbol b.opening then 1 else if w = .symbol b.closing then -1 else 0

/-- The opening brackets of a row less the closing ones. -/
def net (b : Bracket) (row : List Lexeme) : Int := (row.map fun l => b.weight l.word).sum

variable (b : Bracket)

@[simp] theorem net_nil : b.net [] = 0 := rfl

@[simp] theorem net_cons (l : Lexeme) (row : List Lexeme) :
    b.net (l :: row) = b.weight l.word + b.net row := by
  simp [net]

@[simp] theorem net_append (row more : List Lexeme) :
    b.net (row ++ more) = b.net row + b.net more := by
  simp [net]

/-! ## The weights of words -/

theorem weight_paren : b.weight (.symbol .leftParen) + b.weight (.symbol .rightParen) = 0 := by
  cases b <;> decide

theorem weight_square :
    b.weight (.symbol .leftBracket) + b.weight (.symbol .rightBracket) = 0 := by
  cases b <;> decide

theorem weight_brace : b.weight (.symbol .leftBrace) + b.weight (.symbol .rightBrace) = 0 := by
  cases b <;> decide

@[simp] theorem weight_keyword (k : Keyword) : b.weight (.keyword k) = 0 := by
  simp [weight]

@[simp] theorem weight_name (s : String) : b.weight (.name s) = 0 := by
  simp [weight]

@[simp] theorem weight_comma : b.weight (.symbol .comma) = 0 := by cases b <;> decide

@[simp] theorem weight_semicolon : b.weight (.symbol .semicolon) = 0 := by cases b <;> decide

@[simp] theorem weight_colon : b.weight (.symbol .colon) = 0 := by cases b <;> decide

@[simp] theorem weight_assign : b.weight (.symbol .assign) = 0 := by cases b <;> decide

/-- A word that is no bracket has no weight. -/
theorem weight_eq_zero {w : Word} (h : ∀ s : Symbol, w = .symbol s →
    s ∉ [.leftParen, .rightParen, .leftBracket, .rightBracket, .leftBrace, .rightBrace]) :
    b.weight w = 0 := by
  rw [weight, if_neg, if_neg]
  · intro hw
    exact h _ hw (by cases b <;> decide)
  · intro hw
    exact h _ hw (by cases b <;> decide)

variable {b} {w : Word}

theorem weight_atom {pos : Position} {e : Expr} (h : w.atom? pos = some e) : b.weight w = 0 :=
  b.weight_eq_zero fun s hs => by rw [hs] at h; cases h

theorem weight_property {s : String} (h : w.property? = some s) : b.weight w = 0 :=
  b.weight_eq_zero fun s hs => by rw [hs] at h; cases h

theorem weight_key {s : String} (h : w.key? = some s) : b.weight w = 0 :=
  b.weight_eq_zero fun s hs => by rw [hs] at h; cases h

theorem weight_update {op : UpdateOp} (h : w.update? = some op) : b.weight w = 0 :=
  b.weight_eq_zero fun s hs => by
    subst hs
    revert h
    cases s <;> simp [Word.update?]

theorem weight_unary {op : UnaryOp} (h : w.unary? = some op) : b.weight w = 0 :=
  b.weight_eq_zero fun s hs => by
    subst hs
    revert h
    cases s <;> simp [Word.unary?]

theorem weight_connective {least : Nat} {c : Power × Connective}
    (h : w.connective? least = some c) : b.weight w = 0 :=
  b.weight_eq_zero fun s hs => by
    subst hs
    revert h
    cases s <;> simp [Word.connective?, Symbol.connective?]

theorem weight_declares {kind : DeclKind} (h : Grammar.Word.declares? w = some kind) :
    b.weight w = 0 :=
  b.weight_eq_zero fun s hs => by
    subst hs
    cases h

/-! ## Words without weight -/

variable {l : Lexeme} {row : List Lexeme}

theorem net_word (h : b.weight l.word = 0) : b.net (l :: row) = b.net row := by
  rw [net_cons, h, zero_add]

theorem net_keyword {k : Keyword} (h : l.word = .keyword k) : b.net (l :: row) = b.net row :=
  net_word (h ▸ b.weight_keyword k)

theorem net_name {s : String} (h : l.word = .name s) : b.net (l :: row) = b.net row :=
  net_word (h ▸ b.weight_name s)

theorem net_symbol {s : Symbol} (h : l.word = .symbol s) (hs : b.weight (.symbol s) = 0) :
    b.net (l :: row) = b.net row :=
  net_word (h ▸ hs)

end Bracket

namespace Grammar

variable (b : Bracket)

/-- The symbol that a suffix begins with. -/
def Suffix.symbol : Suffix → Symbol
  | .member => .dot
  | .index => .leftBracket
  | .call => .leftParen

theorem Word.eq_of_suffix? {w : Word} {s : Suffix} (h : Word.suffix? w = some s) :
    w = .symbol s.symbol := by
  unfold Word.suffix? at h
  split at h <;> cases h <;> rfl

/-! ## Expressions -/

mutual

theorem DerivesExpr.net {n least : Nat} {row rest : List Lexeme} {e : Expr} :
    DerivesExpr n least row e rest → b.net row = b.net rest
  | .mk hlhs hops => hlhs.net.trans hops.net

theorem DerivesOperand.net {n : Nat} {row rest : List Lexeme} {e : Expr} :
    DerivesOperand n row e rest → b.net row = b.net rest
  | .update hop he _ => by rw [Bracket.net_word (Bracket.weight_update hop), he.net]
  | .unary hop he => by rw [Bracket.net_word (Bracket.weight_unary hop), he.net]
  | .primary he hsuffixes => he.net.trans hsuffixes.net

theorem DerivesPrimary.net {n : Nat} {row rest : List Lexeme} {e : Expr} :
    DerivesPrimary n row e rest → b.net row = b.net rest
  | .atom h => Bracket.net_word (Bracket.weight_atom h)
  | .group hopen he hclose => by
    have hinner := he.net
    have hpair := b.weight_paren
    rw [Bracket.net_cons, hclose] at hinner
    rw [Bracket.net_cons, hopen]
    omega
  | .array hopen hitems => by
    have hinner := hitems.net
    have hpair := b.weight_square
    rw [Bracket.net_cons, hopen]
    omega
  | .object hopen hmembers => by
    have hinner := hmembers.net
    have hpair := b.weight_brace
    rw [Bracket.net_cons, hopen]
    omega

theorem DerivesSuffixes.net {n : Nat} {row rest : List Lexeme} {e e' : Expr} :
    DerivesSuffixes n e row e' rest → b.net row = b.net rest
  | .done _ _ => rfl
  | .update hop _ _ => Bracket.net_word (Bracket.weight_update hop)
  | .more hs hone hmore => by
    rw [Bracket.net_cons, Word.eq_of_suffix? hs, hone.net, hmore.net]

/-- A suffix is balanced together with the word that begins it. -/
theorem DerivesSuffixed.net {n : Nat} {row rest : List Lexeme} {e e' : Expr} {s : Suffix} :
    DerivesSuffixed n e s row e' rest → b.weight (.symbol s.symbol) + b.net row = b.net rest
  | .member h => by
    have hdot : b.weight (.symbol .dot) = 0 := by cases b <;> decide
    rw [Bracket.net_word (Bracket.weight_property h)]
    exact (congrArg (· + _) hdot).trans (zero_add _)
  | .index hkey hclose => by
    have hinner := hkey.net
    have hpair := b.weight_square
    rw [Bracket.net_cons, hclose] at hinner
    change b.weight (.symbol .leftBracket) + _ = _
    omega
  | .call hargs => by
    have hinner := hargs.net
    have hpair := b.weight_paren
    change b.weight (.symbol .leftParen) + _ = _
    omega

theorem DerivesOperators.net {n least : Nat} {row rest : List Lexeme} {lhs e : Expr} :
    DerivesOperators n least lhs row e rest → b.net row = b.net rest
  | .done _ => rfl
  | .more hc hone hmore => by
    rw [Bracket.net_word (Bracket.weight_connective hc), hone.net, hmore.net]

theorem DerivesJoined.net {n : Nat} {row rest : List Lexeme} {lhs e : Expr} {power : Power}
    {c : Connective} : DerivesJoined n lhs power c row e rest → b.net row = b.net rest
  | .binary hrhs => hrhs.net
  | .logical hrhs => hrhs.net
  | .assign _ hrhs => hrhs.net
  | .conditional htrue hcolon hfalse => by
    rw [htrue.net, Bracket.net_symbol hcolon b.weight_colon, hfalse.net]

/-- The items of a list leave the symbol that closes them. -/
theorem DerivesItems.net {n : Nat} {close : Symbol} {row rest : List Lexeme} {xs : List Expr} :
    DerivesItems n close row xs rest → b.net row = b.weight (.symbol close) + b.net rest
  | .nil hclose => by rw [Bracket.net_cons, hclose]
  | .last _ hx _ hclose => by rw [hx.net, Bracket.net_cons, hclose]
  | .cons _ hx hcomma hothers => by
    rw [hx.net, Bracket.net_symbol hcomma b.weight_comma, hothers.net]

theorem DerivesMembers.net {n : Nat} {row rest : List Lexeme} {xs : List (String × Expr)} :
    DerivesMembers n row xs rest → b.net row = b.weight (.symbol .rightBrace) + b.net rest
  | .nil hclose => by rw [Bracket.net_cons, hclose]
  | .last hx hclose => by rw [hx.net, Bracket.net_cons, hclose]
  | .cons hx hcomma hothers => by
    rw [hx.net, Bracket.net_symbol hcomma b.weight_comma, hothers.net]

theorem DerivesMember.net {n : Nat} {row rest : List Lexeme} {x : String × Expr} :
    DerivesMember n row x rest → b.net row = b.net rest
  | .short hname _ => Bracket.net_name hname
  | .keyed hkey hcolon he => by
    rw [Bracket.net_word (Bracket.weight_key hkey), Bracket.net_symbol hcolon b.weight_colon,
      he.net]

end

/-! ## Statements -/

theorem EndsStmt.net {row rest : List Lexeme} : EndsStmt row rest → b.net row = b.net rest
  | .semicolon h => Bracket.net_symbol h b.weight_semicolon
  | .missing _ _ => rfl

theorem DerivesDeclarator.net {n : Nat} {kind : DeclKind} {row rest : List Lexeme}
    {x : Declarator} : DerivesDeclarator n kind row x rest → b.net row = b.net rest
  | .valued hname hassign he => by
    rw [Bracket.net_name hname, Bracket.net_symbol hassign b.weight_assign, he.net]
  | .bare hname _ _ => Bracket.net_name hname

theorem DerivesDeclarators.net {n : Nat} {kind : DeclKind} {row rest : List Lexeme}
    {xs : List Declarator} (h : DerivesDeclarators n kind row xs rest) :
    b.net row = b.net rest := by
  induction h with
  | last hx _ => exact hx.net b
  | cons hx hcomma _ ih =>
    rw [hx.net, Bracket.net_symbol hcomma b.weight_comma, ih]

theorem DerivesCondition.net {n : Nat} {row rest : List Lexeme} {e : Expr} :
    DerivesCondition n row e rest → b.net row = b.net rest
  | .mk hopen he hclose => (DerivesPrimary.group hopen he hclose).net b

theorem DerivesOptional.net {n : Nat} {stop : Symbol} {row rest : List Lexeme}
    {e : Option Expr} :
    DerivesOptional n stop row e rest → b.net row = b.weight (.symbol stop) + b.net rest
  | .none hstop => by rw [Bracket.net_cons, hstop]
  | .some _ he hstop => by rw [he.net, Bracket.net_cons, hstop]

theorem DerivesStart.net {n : Nat} {row rest : List Lexeme} {start : Option LoopStart} :
    DerivesStart n row start rest → b.net row = b.net rest
  | .none hstop => Bracket.net_symbol hstop b.weight_semicolon
  | .declare hkind hitems hstop => by
    rw [Bracket.net_word (Bracket.weight_declares hkind), hitems.net,
      Bracket.net_symbol hstop b.weight_semicolon]
  | .expr _ _ he hstop => by
    rw [he.net, Bracket.net_symbol hstop b.weight_semicolon]

/-- The head of a counting loop leaves its closing parenthesis. -/
theorem DerivesForHead.net {n : Nat} {row rest : List Lexeme} {start : Option LoopStart}
    {cond update : Option Expr} : DerivesForHead n row start cond update rest →
      b.net row = b.weight (.symbol .rightParen) + b.net rest
  | .mk _ hstart hcond hupdate => by
    rw [hstart.net, hcond.net, Bracket.weight_semicolon, zero_add, hupdate.net]

theorem DerivesParams.net {row rest : List Lexeme} {params : List String}
    (h : DerivesParams row params rest) :
    b.net row = b.weight (.symbol .rightParen) + b.net rest := by
  induction h with
  | nil hclose => rw [Bracket.net_cons, hclose]
  | last hname hclose =>
    rw [Bracket.net_name hname, Bracket.net_cons, hclose]
  | cons hname hcomma _ ih =>
    rw [Bracket.net_name hname, Bracket.net_symbol hcomma b.weight_comma, ih]

mutual

theorem DerivesStmt.net {n : Nat} {s : Surroundings} {row rest : List Lexeme} {stmt : Stmt} :
    DerivesStmt n s row stmt rest → b.net row = b.net rest
  | .branch hword hcond htrue _ => by
    rw [Bracket.net_keyword hword, hcond.net, htrue.net]
  | .branchElse hword hcond htrue helse hfalse => by
    rw [Bracket.net_keyword hword, hcond.net, htrue.net, Bracket.net_keyword helse, hfalse.net]
  | .whileLoop hword hcond hbody => by
    rw [Bracket.net_keyword hword, hcond.net, hbody.net]
  | .doWhile hword hbody hwhile hcond hend => by
    rw [Bracket.net_keyword hword, hbody.net, Bracket.net_keyword hwhile, hcond.net]
    rcases hend with ⟨r, rfl, hr⟩ | ⟨-, rfl⟩
    · exact Bracket.net_symbol hr b.weight_semicolon
    · rfl
  | .forOf hword hopen hkind hname hof hiter hclose hbody => by
    have hinner := hiter.net b
    have hpair := b.weight_paren
    have hrest := hbody.net
    simp only [Bracket.net_cons, hword, hopen, hname, hof, hclose, Bracket.weight_keyword,
      Bracket.weight_name, Bracket.weight_declares hkind] at hinner ⊢
    omega
  | .forLoop hword hopen hhead hbody => by
    have hinner := hhead.net b
    have hpair := b.weight_paren
    have hrest := hbody.net
    rw [Bracket.net_keyword hword, Bracket.net_cons, hopen]
    omega
  | .function hword hname hopen hparams hbrace hbody => by
    have hinner := hparams.net b
    have hpair := b.weight_paren
    have hbraces := b.weight_brace
    have hrest := hbody.net
    simp only [Bracket.net_cons, hword, hname, hopen, hbrace, Bracket.weight_keyword,
      Bracket.weight_name] at hinner ⊢
    omega
  | .breakLoop hword _ hend => by
    rw [Bracket.net_keyword hword, hend.net]
  | .continueLoop hword _ hend => by
    rw [Bracket.net_keyword hword, hend.net]
  | .retNone hword _ hend => by
    rw [Bracket.net_keyword hword, hend.net]
  | .retSome hword _ _ he hend => by
    rw [Bracket.net_keyword hword, he.net, hend.net]
  | .block hword hbody => by
    have hbraces := b.weight_brace
    have hrest := hbody.net
    rw [Bracket.net_cons, hword]
    omega
  | .empty hword => Bracket.net_symbol hword b.weight_semicolon
  | .declare hkind hitems hend => by
    rw [Bracket.net_word (Bracket.weight_declares hkind), hitems.net, hend.net]
  | .expr _ he hend => by rw [he.net, hend.net]

/-- The statements of a block leave its closing brace. -/
theorem DerivesBlock.net {n : Nat} {s : Surroundings} {row rest : List Lexeme}
    {body : List Stmt} :
    DerivesBlock n s row body rest → b.net row = b.weight (.symbol .rightBrace) + b.net rest
  | .nil hclose => by rw [Bracket.net_cons, hclose]
  | .cons _ hx hothers => by rw [hx.net, hothers.net]

end

/-- **Brackets stand in pairs.** -/
theorem DerivesProgram.net_eq_zero {s : Surroundings} {row : List Lexeme} {body : List Stmt}
    (h : DerivesProgram s row body) : b.net row = 0 := by
  induction h with
  | nil => rfl
  | cons hx _ ih => rw [hx.net, ih]

end Grammar

end Stencil.Script
