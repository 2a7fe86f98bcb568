/-
  The grammar as a relation.

  `DerivesStmt levels s row stmt rest` says that a statement `stmt` stands at the front of `row`
  and leaves `rest`, where `levels` nesting levels are left; the relations for the parts of
  statements and expressions say the same of these.  Each rule names the lexemes that it takes and
  what it sees ahead where it stops, so that nothing about a finished reading has to be looked up
  in the readers again: properties of what is read go by recursion on derivations.

  What the readers accept is derived (`Stencil.Proofs.Script.Grammar.Sound`), what is derived they
  accept (`Stencil.Proofs.Script.Grammar.Complete`), and a derivation also stands in front of a
  longer row (`Stencil.Proofs.Script.Grammar.Extend`).
-/
import Stencil.Script.Grammar.Statement

namespace Stencil.Script

/-! ## What a word is at a place -/

/-- The literal or name that a word is as an operand at `pos`. -/
def Word.atom? (pos : Position) : Word → Option Expr
  | .number x => some (.number pos x)
  | .text s => some (.text pos s)
  | .name s => some (.name pos s)
  | .keyword .kwTrue => some (.bool pos true)
  | .keyword .kwFalse => some (.bool pos false)
  | .keyword .kwNull => some (.null pos)
  | .keyword .kwUndefined => some (.undefined pos)
  | _ => none

/-- The property that a word names behind a point. -/
def Word.property? : Word → Option String
  | .name s => some s
  | .keyword k => some k.spelling
  | _ => none

/-- The key that a word is in front of the colon of a member. -/
def Word.key? : Word → Option String
  | .name s => some s
  | .text s => some s
  | .keyword k => some k.spelling
  | .number x => some (numberText x)
  | .symbol _ => none

namespace Grammar

/-- The word that comes next in a row. -/
def next? (row : List Lexeme) : Option Word := row.head?.map Lexeme.word

@[simp] theorem next?_nil : next? [] = none := rfl

@[simp] theorem next?_cons (l : Lexeme) (row : List Lexeme) : next? (l :: row) = some l.word := rfl

/-- Whether the next word of a row stands on a later line than the one before. -/
def breaks (row : List Lexeme) : Bool := row.head?.any Lexeme.afterBreak

/-- Whether the next word of a row cannot continue a statement. -/
def atEnd (row : List Lexeme) : Bool :=
  match next? row with
  | none => true
  | some w => breaks row || w = .symbol .semicolon || w = .symbol .rightBrace

/-! ## Expressions -/

mutual

/-- An expression where a place asks for `least`: an operand and the operators behind it. -/
inductive DerivesExpr : Nat → Nat → List Lexeme → Expr → List Lexeme → Prop where
  | mk {n least : Nat} {row mid rest : List Lexeme} {lhs e : Expr}
      (hlhs : DerivesOperand n row lhs mid) (hops : DerivesOperators n least lhs mid e rest) :
      DerivesExpr (n + 1) least row e rest

/-- An operand with the operators before and behind it. -/
inductive DerivesOperand : Nat → List Lexeme → Expr → List Lexeme → Prop where
  | update {n : Nat} {l : Lexeme} {row rest : List Lexeme} {op : UpdateOp} {e : Expr}
      {target : Place} (hop : l.word.update? = some op)
      (he : DerivesExpr n Power.operand row e rest) (htarget : e.toPlace? = some target) :
      DerivesOperand n (l :: row) (.update l.pos op true target) rest
  | unary {n : Nat} {l : Lexeme} {row rest : List Lexeme} {op : UnaryOp} {e : Expr}
      (hop : l.word.unary? = some op) (he : DerivesExpr n Power.operand row e rest) :
      DerivesOperand n (l :: row) (.unary l.pos op e) rest
  | primary {n : Nat} {row mid rest : List Lexeme} {e e' : Expr}
      (he : DerivesPrimary n row e mid) (hsuffixes : DerivesSuffixes n e mid e' rest) :
      DerivesOperand n row e' rest

/-- A literal, a name, or something in brackets. -/
inductive DerivesPrimary : Nat → List Lexeme → Expr → List Lexeme → Prop where
  | atom {n : Nat} {l : Lexeme} {row : List Lexeme} {e : Expr}
      (h : l.word.atom? l.pos = some e) : DerivesPrimary n (l :: row) e row
  | group {n : Nat} {l r : Lexeme} {row rest : List Lexeme} {e : Expr}
      (hopen : l.word = .symbol .leftParen) (he : DerivesExpr n Power.any row e (r :: rest))
      (hclose : r.word = .symbol .rightParen) : DerivesPrimary n (l :: row) e rest
  | array {n : Nat} {l : Lexeme} {row rest : List Lexeme} {items : List Expr}
      (hopen : l.word = .symbol .leftBracket)
      (hitems : DerivesItems n .rightBracket row items rest) :
      DerivesPrimary n (l :: row) (.array l.pos items) rest
  | object {n : Nat} {l : Lexeme} {row rest : List Lexeme} {members : List (String × Expr)}
      (hopen : l.word = .symbol .leftBrace) (hmembers : DerivesMembers n row members rest) :
      DerivesPrimary n (l :: row) (.object l.pos members) rest

/-- The members, indices and calls behind the operand `e`, and an increment or decrement. -/
inductive DerivesSuffixes : Nat → Expr → List Lexeme → Expr → List Lexeme → Prop where
  | done {n : Nat} {e : Expr} {row : List Lexeme} (hsuffix : (next? row).bind Word.suffix? = none)
      (hupdate : (next? row).bind Word.update? = none ∨ breaks row = true) :
      DerivesSuffixes n e row e row
  | update {n : Nat} {e : Expr} {l : Lexeme} {row : List Lexeme} {op : UpdateOp} {target : Place}
      (hop : l.word.update? = some op) (hline : l.afterBreak = false)
      (htarget : e.toPlace? = some target) :
      DerivesSuffixes n e (l :: row) (.update e.pos op false target) row
  | more {n : Nat} {e e' e'' : Expr} {l : Lexeme} {row mid rest : List Lexeme} {s : Suffix}
      (hs : Word.suffix? l.word = some s) (hone : DerivesSuffixed n e s row e' mid)
      (hmore : DerivesSuffixes n e' mid e'' rest) :
      DerivesSuffixes (n + 1) e (l :: row) e'' rest

/-- The operand `e` with one suffix, behind the suffix's first word. -/
inductive DerivesSuffixed : Nat → Expr → Suffix → List Lexeme → Expr → List Lexeme → Prop where
  | member {n : Nat} {e : Expr} {l : Lexeme} {row : List Lexeme} {s : String}
      (h : l.word.property? = some s) :
      DerivesSuffixed n e .member (l :: row) (.member e.pos e s) row
  | index {n : Nat} {e key : Expr} {r : Lexeme} {row rest : List Lexeme}
      (hkey : DerivesExpr n Power.any row key (r :: rest))
      (hclose : r.word = .symbol .rightBracket) :
      DerivesSuffixed n e .index row (.index e.pos e key) rest
  | call {n : Nat} {e : Expr} {row rest : List Lexeme} {args : List Expr}
      (hargs : DerivesItems n .rightParen row args rest) :
      DerivesSuffixed n e .call row (.call e.pos e args) rest

/-- The operators behind `lhs` and their right operands. -/
inductive DerivesOperators : Nat → Nat → Expr → List Lexeme → Expr → List Lexeme → Prop where
  | done {n least : Nat} {lhs : Expr} {row : List Lexeme}
      (h : (next? row).bind (Word.connective? least) = none) :
      DerivesOperators n least lhs row lhs row
  | more {n least : Nat} {lhs e e' : Expr} {l : Lexeme} {row mid rest : List Lexeme}
      {power : Power} {c : Connective} (hc : l.word.connective? least = some (power, c))
      (hone : DerivesJoined n lhs power c row e mid)
      (hmore : DerivesOperators n least e mid e' rest) :
      DerivesOperators (n + 1) least lhs (l :: row) e' rest

/-- The expression with `lhs` on the left of a connective, behind the connective's symbol. -/
inductive DerivesJoined :
    Nat → Expr → Power → Connective → List Lexeme → Expr → List Lexeme → Prop where
  | binary {n : Nat} {lhs rhs : Expr} {power : Power} {op : BinaryOp} {row rest : List Lexeme}
      (hrhs : DerivesExpr n power.right row rhs rest) :
      DerivesJoined n lhs power (.binary op) row (.binary lhs.pos op lhs rhs) rest
  | logical {n : Nat} {lhs rhs : Expr} {power : Power} {op : LogicalOp} {row rest : List Lexeme}
      (hrhs : DerivesExpr n power.right row rhs rest) :
      DerivesJoined n lhs power (.logical op) row (.logical lhs.pos op lhs rhs) rest
  | assign {n : Nat} {lhs rhs : Expr} {power : Power} {op : Option BinaryOp} {target : Place}
      {row rest : List Lexeme} (htarget : lhs.toPlace? = some target)
      (hrhs : DerivesExpr n power.right row rhs rest) :
      DerivesJoined n lhs power (.assign op) row (.assign lhs.pos op target rhs) rest
  | conditional {n : Nat} {lhs whenTrue whenFalse : Expr} {power : Power} {l : Lexeme}
      {row mid rest : List Lexeme} (htrue : DerivesExpr n Power.item row whenTrue (l :: mid))
      (hcolon : l.word = .symbol .colon) (hfalse : DerivesExpr n power.right mid whenFalse rest) :
      DerivesJoined n lhs power .conditional row (.conditional lhs.pos lhs whenTrue whenFalse) rest

/-- Expressions with commas between them, and the symbol that closes them. -/
inductive DerivesItems : Nat → Symbol → List Lexeme → List Expr → List Lexeme → Prop where
  | nil {n : Nat} {close : Symbol} {l : Lexeme} {row : List Lexeme}
      (hclose : l.word = .symbol close) : DerivesItems n close (l :: row) [] row
  | last {n : Nat} {close : Symbol} {r : Lexeme} {row rest : List Lexeme} {x : Expr}
      (hopen : next? row ≠ some (.symbol close)) (hx : DerivesExpr n Power.item row x (r :: rest))
      (hcomma : r.word ≠ .symbol .comma) (hclose : r.word = .symbol close) :
      DerivesItems n close row [x] rest
  | cons {n : Nat} {close : Symbol} {c : Lexeme} {row mid rest : List Lexeme} {x : Expr}
      {others : List Expr} (hopen : next? row ≠ some (.symbol close))
      (hx : DerivesExpr n Power.item row x (c :: mid)) (hcomma : c.word = .symbol .comma)
      (hothers : DerivesItems n close mid others rest) :
      DerivesItems n close row (x :: others) rest

/-- The members of an object literal behind its opening brace, and the closing one. -/
inductive DerivesMembers : Nat → List Lexeme → List (String × Expr) → List Lexeme → Prop where
  | nil {n : Nat} {l : Lexeme} {row : List Lexeme} (hclose : l.word = .symbol .rightBrace) :
      DerivesMembers n (l :: row) [] row
  | last {n : Nat} {r : Lexeme} {row rest : List Lexeme} {x : String × Expr}
      (hx : DerivesMember n row x (r :: rest)) (hclose : r.word = .symbol .rightBrace) :
      DerivesMembers n row [x] rest
  | cons {n : Nat} {c : Lexeme} {row mid rest : List Lexeme} {x : String × Expr}
      {others : List (String × Expr)} (hx : DerivesMember n row x (c :: mid))
      (hcomma : c.word = .symbol .comma) (hothers : DerivesMembers n mid others rest) :
      DerivesMembers n row (x :: others) rest

/-- A key and its value, or a name that is both. -/
inductive DerivesMember : Nat → List Lexeme → String × Expr → List Lexeme → Prop where
  | short {n : Nat} {l : Lexeme} {row : List Lexeme} {s : String} (hname : l.word = .name s)
      (hcolon : next? row ≠ some (.symbol .colon)) :
      DerivesMember n (l :: row) (s, .name l.pos s) row
  | keyed {n : Nat} {l c : Lexeme} {row rest : List Lexeme} {s : String} {e : Expr}
      (hkey : l.word.key? = some s) (hcolon : c.word = .symbol .colon)
      (he : DerivesExpr n Power.item row e rest) : DerivesMember n (l :: c :: row) (s, e) rest

end

/-! ## Parts of statements -/

/-- The end of a statement: a semicolon, which is taken, or a place where it may be missing. -/
inductive EndsStmt : List Lexeme → List Lexeme → Prop where
  | semicolon {l : Lexeme} {row : List Lexeme} (h : l.word = .symbol .semicolon) :
      EndsStmt (l :: row) row
  | missing {row : List Lexeme} (hno : next? row ≠ some (.symbol .semicolon))
      (h : atEnd row = true) : EndsStmt row row

/-- One name of a declaration, which must have a value where it is a constant. -/
inductive DerivesDeclarator : Nat → DeclKind → List Lexeme → Declarator → List Lexeme → Prop where
  | valued {n : Nat} {kind : DeclKind} {l a : Lexeme} {row rest : List Lexeme} {name : String}
      {e : Expr} (hname : l.word = .name name) (hassign : a.word = .symbol .assign)
      (he : DerivesExpr n Power.item row e rest) :
      DerivesDeclarator n kind (l :: a :: row) ⟨name, l.pos, some e⟩ rest
  | bare {n : Nat} {kind : DeclKind} {l : Lexeme} {row : List Lexeme} {name : String}
      (hname : l.word = .name name) (hassign : next? row ≠ some (.symbol .assign))
      (hkind : kind ≠ .constDecl) : DerivesDeclarator n kind (l :: row) ⟨name, l.pos, none⟩ row

/-- At least one name of a declaration, with commas between them. -/
inductive DerivesDeclarators :
    Nat → DeclKind → List Lexeme → List Declarator → List Lexeme → Prop where
  | last {n : Nat} {kind : DeclKind} {row rest : List Lexeme} {x : Declarator}
      (hx : DerivesDeclarator n kind row x rest) (hcomma : next? rest ≠ some (.symbol .comma)) :
      DerivesDeclarators n kind row [x] rest
  | cons {n : Nat} {kind : DeclKind} {c : Lexeme} {row mid rest : List Lexeme} {x : Declarator}
      {others : List Declarator} (hx : DerivesDeclarator n kind row x (c :: mid))
      (hcomma : c.word = .symbol .comma) (hothers : DerivesDeclarators n kind mid others rest) :
      DerivesDeclarators n kind row (x :: others) rest

/-- An expression in parentheses. -/
inductive DerivesCondition : Nat → List Lexeme → Expr → List Lexeme → Prop where
  | mk {n : Nat} {l r : Lexeme} {row rest : List Lexeme} {e : Expr}
      (hopen : l.word = .symbol .leftParen) (he : DerivesExpr n Power.any row e (r :: rest))
      (hclose : r.word = .symbol .rightParen) : DerivesCondition n (l :: row) e rest

/-- An expression that may be missing, and the symbol behind it. -/
inductive DerivesOptional : Nat → Symbol → List Lexeme → Option Expr → List Lexeme → Prop where
  | none {n : Nat} {stop : Symbol} {l : Lexeme} {row : List Lexeme}
      (hstop : l.word = .symbol stop) : DerivesOptional n stop (l :: row) none row
  | some {n : Nat} {stop : Symbol} {r : Lexeme} {row rest : List Lexeme} {e : Expr}
      (hopen : next? row ≠ some (.symbol stop)) (he : DerivesExpr n Power.any row e (r :: rest))
      (hstop : r.word = .symbol stop) : DerivesOptional n stop row (some e) rest

/-- What a counting loop does before its first round, and the semicolon behind it. -/
inductive DerivesStart : Nat → List Lexeme → Option LoopStart → List Lexeme → Prop where
  | none {n : Nat} {l : Lexeme} {row : List Lexeme} (hstop : l.word = .symbol .semicolon) :
      DerivesStart n (l :: row) none row
  | declare {n : Nat} {kind : DeclKind} {l r : Lexeme} {row rest : List Lexeme}
      {items : List Declarator} (hkind : Word.declares? l.word = some kind)
      (hitems : DerivesDeclarators n kind row items (r :: rest))
      (hstop : r.word = .symbol .semicolon) :
      DerivesStart n (l :: row) (some (.declare kind items)) rest
  | expr {n : Nat} {r : Lexeme} {row rest : List Lexeme} {e : Expr}
      (hopen : next? row ≠ some (.symbol .semicolon))
      (hno : (next? row).bind Word.declares? = none)
      (he : DerivesExpr n Power.any row e (r :: rest)) (hstop : r.word = .symbol .semicolon) :
      DerivesStart n row (some (.expr e)) rest

/-- The head of a counting loop behind its opening parenthesis, through the closing one. -/
inductive DerivesForHead : Nat → List Lexeme →
    Option LoopStart → Option Expr → Option Expr → List Lexeme → Prop where
  | mk {n : Nat} {row mid mid' rest : List Lexeme} {start : Option LoopStart}
      {cond update : Option Expr} (hof : forOfHead? (row.map Lexeme.word) = none)
      (hstart : DerivesStart n row start mid) (hcond : DerivesOptional n .semicolon mid cond mid')
      (hupdate : DerivesOptional n .rightParen mid' update rest) :
      DerivesForHead n row start cond update rest

/-- The parameters of a function behind the opening parenthesis, and the closing one. -/
inductive DerivesParams : List Lexeme → List String → List Lexeme → Prop where
  | nil {l : Lexeme} {row : List Lexeme} (hclose : l.word = .symbol .rightParen) :
      DerivesParams (l :: row) [] row
  | last {l r : Lexeme} {row : List Lexeme} {name : String} (hname : l.word = .name name)
      (hclose : r.word = .symbol .rightParen) : DerivesParams (l :: r :: row) [name] row
  | cons {l c : Lexeme} {row rest : List Lexeme} {name : String} {others : List String}
      (hname : l.word = .name name) (hcomma : c.word = .symbol .comma)
      (hothers : DerivesParams row others rest) :
      DerivesParams (l :: c :: row) (name :: others) rest

/-! ## Statements -/

/-- The words that begin a statement of their own kind; any other word begins an expression. -/
def beginsExpr (w : Word) : Prop :=
  Word.declares? w = none ∧ w ≠ .symbol .leftBrace ∧ w ≠ .symbol .semicolon ∧
    ∀ k ∈ [Keyword.kwIf, .kwFor, .kwWhile, .kwDo, .kwFunction, .kwBreak, .kwContinue, .kwReturn],
      w ≠ .keyword k

mutual

/-- A statement, with so many nesting levels left, in the surroundings `s`. -/
inductive DerivesStmt : Nat → Surroundings → List Lexeme → Stmt → List Lexeme → Prop where
  | branch {n : Nat} {s : Surroundings} {l : Lexeme} {row mid rest : List Lexeme} {cond : Expr}
      {whenTrue : Stmt} (hword : l.word = .keyword .kwIf) (hcond : DerivesCondition n row cond mid)
      (htrue : DerivesStmt n s mid whenTrue rest) (helse : next? rest ≠ some (.keyword .kwElse)) :
      DerivesStmt (n + 1) s (l :: row) (.branch cond whenTrue none) rest
  | branchElse {n : Nat} {s : Surroundings} {l e : Lexeme} {row mid mid' rest : List Lexeme}
      {cond : Expr} {whenTrue whenFalse : Stmt} (hword : l.word = .keyword .kwIf)
      (hcond : DerivesCondition n row cond mid) (htrue : DerivesStmt n s mid whenTrue (e :: mid'))
      (helse : e.word = .keyword .kwElse) (hfalse : DerivesStmt n s mid' whenFalse rest) :
      DerivesStmt (n + 1) s (l :: row) (.branch cond whenTrue (some whenFalse)) rest
  | whileLoop {n : Nat} {s : Surroundings} {l : Lexeme} {row mid rest : List Lexeme} {cond : Expr}
      {body : Stmt} (hword : l.word = .keyword .kwWhile) (hcond : DerivesCondition n row cond mid)
      (hbody : DerivesStmt n s.loopBody mid body rest) :
      DerivesStmt (n + 1) s (l :: row) (.whileLoop cond body) rest
  | doWhile {n : Nat} {s : Surroundings} {l w : Lexeme} {row mid rest rest' : List Lexeme}
      {cond : Expr} {body : Stmt} (hword : l.word = .keyword .kwDo)
      (hbody : DerivesStmt n s.loopBody row body (w :: mid)) (hwhile : w.word = .keyword .kwWhile)
      (hcond : DerivesCondition n mid cond rest)
      (hend : (∃ r, rest = r :: rest' ∧ r.word = .symbol .semicolon) ∨
        next? rest ≠ some (.symbol .semicolon) ∧ rest' = rest) :
      DerivesStmt (n + 1) s (l :: row) (.doWhile body cond) rest'
  | forOf {n : Nat} {s : Surroundings} {l o k x w r : Lexeme} {row rest rest' : List Lexeme}
      {kind : DeclKind} {name : String} {iterable : Expr} {body : Stmt}
      (hword : l.word = .keyword .kwFor) (hopen : o.word = .symbol .leftParen)
      (hkind : Word.declares? k.word = some kind) (hname : x.word = .name name)
      (hof : w.word = .name "of") (hiter : DerivesExpr n Power.any row iterable (r :: rest))
      (hclose : r.word = .symbol .rightParen) (hbody : DerivesStmt n s.loopBody rest body rest') :
      DerivesStmt (n + 1) s (l :: o :: k :: x :: w :: row) (.forOf kind name iterable body) rest'
  | forLoop {n : Nat} {s : Surroundings} {l o : Lexeme} {row mid rest : List Lexeme}
      {start : Option LoopStart} {cond update : Option Expr} {body : Stmt}
      (hword : l.word = .keyword .kwFor) (hopen : o.word = .symbol .leftParen)
      (hhead : DerivesForHead n row start cond update mid)
      (hbody : DerivesStmt n s.loopBody mid body rest) :
      DerivesStmt (n + 1) s (l :: o :: row) (.forLoop start cond update body) rest
  | function {n : Nat} {s : Surroundings} {l x o b : Lexeme} {row mid rest : List Lexeme}
      {name : String} {params : List String} {body : List Stmt}
      (hword : l.word = .keyword .kwFunction) (hname : x.word = .name name)
      (hopen : o.word = .symbol .leftParen) (hparams : DerivesParams row params (b :: mid))
      (hbrace : b.word = .symbol .leftBrace) (hbody : DerivesBlock n s.functionBody mid body rest) :
      DerivesStmt (n + 1) s (l :: x :: o :: row) (.function l.pos name params body) rest
  | breakLoop {n : Nat} {s : Surroundings} {l : Lexeme} {row rest : List Lexeme}
      (hword : l.word = .keyword .kwBreak) (hloop : s.inLoop = true) (hend : EndsStmt row rest) :
      DerivesStmt (n + 1) s (l :: row) .breakLoop rest
  | continueLoop {n : Nat} {s : Surroundings} {l : Lexeme} {row rest : List Lexeme}
      (hword : l.word = .keyword .kwContinue) (hloop : s.inLoop = true)
      (hend : EndsStmt row rest) : DerivesStmt (n + 1) s (l :: row) .continueLoop rest
  | retNone {n : Nat} {s : Surroundings} {l : Lexeme} {row rest : List Lexeme}
      (hword : l.word = .keyword .kwReturn) (hfunction : s.inFunction = true)
      (hend : EndsStmt row rest) : DerivesStmt (n + 1) s (l :: row) (.ret none) rest
  | retSome {n : Nat} {s : Surroundings} {l : Lexeme} {row mid rest : List Lexeme} {e : Expr}
      (hword : l.word = .keyword .kwReturn) (hfunction : s.inFunction = true)
      (hvalue : atEnd row = false) (he : DerivesExpr n Power.any row e mid)
      (hend : EndsStmt mid rest) :
      DerivesStmt (n + 1) s (l :: row) (.ret (some e)) rest
  | block {n : Nat} {s : Surroundings} {l : Lexeme} {row rest : List Lexeme} {body : List Stmt}
      (hword : l.word = .symbol .leftBrace) (hbody : DerivesBlock n s row body rest) :
      DerivesStmt (n + 1) s (l :: row) (.block body) rest
  | empty {n : Nat} {s : Surroundings} {l : Lexeme} {row : List Lexeme}
      (hword : l.word = .symbol .semicolon) : DerivesStmt (n + 1) s (l :: row) .empty row
  | declare {n : Nat} {s : Surroundings} {kind : DeclKind} {l : Lexeme} {row mid rest : List Lexeme}
      {items : List Declarator} (hkind : Word.declares? l.word = some kind)
      (hitems : DerivesDeclarators n kind row items mid) (hend : EndsStmt mid rest) :
      DerivesStmt (n + 1) s (l :: row) (.declare kind items) rest
  | expr {n : Nat} {s : Surroundings} {l : Lexeme} {row mid rest : List Lexeme} {e : Expr}
      (hbegins : beginsExpr l.word) (he : DerivesExpr n Power.any (l :: row) e mid)
      (hend : EndsStmt mid rest) : DerivesStmt (n + 1) s (l :: row) (.expr e) rest

/-- Statements up to the closing brace, which is taken. -/
inductive DerivesBlock : Nat → Surroundings → List Lexeme → List Stmt → List Lexeme → Prop where
  | nil {n : Nat} {s : Surroundings} {l : Lexeme} {row : List Lexeme}
      (hclose : l.word = .symbol .rightBrace) : DerivesBlock n s (l :: row) [] row
  | cons {n : Nat} {s : Surroundings} {row mid rest : List Lexeme} {x : Stmt} {others : List Stmt}
      (hopen : next? row ≠ some (.symbol .rightBrace)) (hx : DerivesStmt n s row x mid)
      (hothers : DerivesBlock n s mid others rest) : DerivesBlock n s row (x :: others) rest

end

/-- The statements of a whole script. -/
inductive DerivesProgram (s : Surroundings) : List Lexeme → List Stmt → Prop where
  | nil : DerivesProgram s [] []
  | cons {row rest : List Lexeme} {x : Stmt} {others : List Stmt}
      (hx : DerivesStmt maxNesting s row x rest) (hothers : DerivesProgram s rest others) :
      DerivesProgram s row (x :: others)

/-! ## What is derived takes lexemes -/

mutual

theorem DerivesExpr.length_lt {n least : Nat} {row rest : List Lexeme} {e : Expr} :
    DerivesExpr n least row e rest → rest.length < row.length
  | .mk hlhs hops => Nat.lt_of_le_of_lt hops.length_le hlhs.length_lt

theorem DerivesOperand.length_lt {n : Nat} {row rest : List Lexeme} {e : Expr} :
    DerivesOperand n row e rest → rest.length < row.length
  | .update _ he _ => Nat.lt_succ_of_lt he.length_lt
  | .unary _ he => Nat.lt_succ_of_lt he.length_lt
  | .primary he hsuffixes => Nat.lt_of_le_of_lt hsuffixes.length_le he.length_lt

theorem DerivesPrimary.length_lt {n : Nat} {row rest : List Lexeme} {e : Expr} :
    DerivesPrimary n row e rest → rest.length < row.length
  | .atom _ => Nat.lt_succ_self _
  | .group _ he _ => Nat.lt_succ_of_lt (Nat.lt_of_succ_lt he.length_lt)
  | .array _ hitems => Nat.lt_succ_of_lt hitems.length_lt
  | .object _ hmembers => Nat.lt_succ_of_lt hmembers.length_lt

theorem DerivesSuffixes.length_le {n : Nat} {row rest : List Lexeme} {e e' : Expr} :
    DerivesSuffixes n e row e' rest → rest.length ≤ row.length
  | .done _ _ => Nat.le_refl _
  | .update _ _ _ => Nat.le_succ _
  | .more _ hone hmore => Nat.le_succ_of_le (Nat.le_trans hmore.length_le hone.length_le)

theorem DerivesSuffixed.length_le {n : Nat} {row rest : List Lexeme} {e e' : Expr} {s : Suffix} :
    DerivesSuffixed n e s row e' rest → rest.length ≤ row.length
  | .member _ => Nat.le_succ _
  | .index hkey _ => Nat.le_of_lt (Nat.lt_of_succ_lt hkey.length_lt)
  | .call hargs => Nat.le_of_lt hargs.length_lt

theorem DerivesOperators.length_le {n least : Nat} {row rest : List Lexeme} {lhs e : Expr} :
    DerivesOperators n least lhs row e rest → rest.length ≤ row.length
  | .done _ => Nat.le_refl _
  | .more _ hone hmore =>
    Nat.le_succ_of_le (Nat.le_trans hmore.length_le (Nat.le_of_lt hone.length_lt))

theorem DerivesJoined.length_lt {n : Nat} {row rest : List Lexeme} {lhs e : Expr} {power : Power}
    {c : Connective} : DerivesJoined n lhs power c row e rest → rest.length < row.length
  | .binary hrhs => hrhs.length_lt
  | .logical hrhs => hrhs.length_lt
  | .assign _ hrhs => hrhs.length_lt
  | .conditional htrue _ hfalse =>
    Nat.lt_trans hfalse.length_lt (Nat.lt_of_succ_lt htrue.length_lt)

theorem DerivesItems.length_lt {n : Nat} {close : Symbol} {row rest : List Lexeme}
    {xs : List Expr} : DerivesItems n close row xs rest → rest.length < row.length
  | .nil _ => Nat.lt_succ_self _
  | .last _ hx _ _ => Nat.lt_of_succ_lt hx.length_lt
  | .cons _ hx _ hothers => Nat.lt_trans hothers.length_lt (Nat.lt_of_succ_lt hx.length_lt)

theorem DerivesMembers.length_lt {n : Nat} {row rest : List Lexeme} {xs : List (String × Expr)} :
    DerivesMembers n row xs rest → rest.length < row.length
  | .nil _ => Nat.lt_succ_self _
  | .last hx _ => Nat.lt_of_succ_lt hx.length_lt
  | .cons hx _ hothers => Nat.lt_trans hothers.length_lt (Nat.lt_of_succ_lt hx.length_lt)

theorem DerivesMember.length_lt {n : Nat} {row rest : List Lexeme} {x : String × Expr} :
    DerivesMember n row x rest → rest.length < row.length
  | .short _ _ => Nat.lt_succ_self _
  | .keyed _ _ he => Nat.lt_succ_of_lt (Nat.lt_succ_of_lt he.length_lt)

end

theorem DerivesDeclarator.length_lt {n : Nat} {kind : DeclKind} {row rest : List Lexeme}
    {x : Declarator} : DerivesDeclarator n kind row x rest → rest.length < row.length
  | .valued _ _ he => Nat.lt_succ_of_lt (Nat.lt_succ_of_lt he.length_lt)
  | .bare _ _ _ => Nat.lt_succ_self _

theorem DerivesDeclarators.length_lt {n : Nat} {kind : DeclKind} {row rest : List Lexeme}
    {xs : List Declarator} (h : DerivesDeclarators n kind row xs rest) :
    rest.length < row.length := by
  induction h with
  | last hx _ => exact hx.length_lt
  | cons hx _ _ ih => exact Nat.lt_trans ih (Nat.lt_of_succ_lt hx.length_lt)

theorem DerivesCondition.length_lt {n : Nat} {row rest : List Lexeme} {e : Expr} :
    DerivesCondition n row e rest → rest.length < row.length
  | .mk _ he _ => Nat.lt_succ_of_lt (Nat.lt_of_succ_lt he.length_lt)

theorem DerivesOptional.length_lt {n : Nat} {stop : Symbol} {row rest : List Lexeme}
    {e : Option Expr} : DerivesOptional n stop row e rest → rest.length < row.length
  | .none _ => Nat.lt_succ_self _
  | .some _ he _ => Nat.lt_of_succ_lt he.length_lt

theorem DerivesStart.length_lt {n : Nat} {row rest : List Lexeme} {start : Option LoopStart} :
    DerivesStart n row start rest → rest.length < row.length
  | .none _ => Nat.lt_succ_self _
  | .declare _ hitems _ => Nat.lt_succ_of_lt (Nat.lt_of_succ_lt hitems.length_lt)
  | .expr _ _ he _ => Nat.lt_of_succ_lt he.length_lt

theorem DerivesForHead.length_lt {n : Nat} {row rest : List Lexeme} {start : Option LoopStart}
    {cond update : Option Expr} :
    DerivesForHead n row start cond update rest → rest.length + 2 < row.length
  | .mk _ hstart hcond hupdate => by
    have := hstart.length_lt
    have := hcond.length_lt
    have := hupdate.length_lt
    omega

theorem DerivesParams.length_lt {row rest : List Lexeme} {params : List String}
    (h : DerivesParams row params rest) : rest.length < row.length := by
  induction h with
  | nil _ => exact Nat.lt_succ_self _
  | last _ _ => exact Nat.lt_succ_of_lt (Nat.lt_succ_self _)
  | cons _ _ _ ih => exact Nat.lt_succ_of_lt (Nat.lt_succ_of_lt ih)

theorem EndsStmt.length_le {row rest : List Lexeme} : EndsStmt row rest → rest.length ≤ row.length
  | .semicolon _ => Nat.le_succ _
  | .missing _ _ => Nat.le_refl _

mutual

theorem DerivesStmt.length_lt {n : Nat} {s : Surroundings} {row rest : List Lexeme} {stmt : Stmt} :
    DerivesStmt n s row stmt rest → rest.length < row.length
  | .branch _ hcond htrue _ => Nat.lt_succ_of_lt (Nat.lt_trans htrue.length_lt hcond.length_lt)
  | .branchElse _ hcond htrue _ hfalse =>
    Nat.lt_succ_of_lt (Nat.lt_trans (Nat.lt_trans hfalse.length_lt
      (Nat.lt_of_succ_lt htrue.length_lt)) hcond.length_lt)
  | .whileLoop _ hcond hbody => Nat.lt_succ_of_lt (Nat.lt_trans hbody.length_lt hcond.length_lt)
  | .doWhile _ hbody _ hcond hend => by
    have := hbody.length_lt
    have := hcond.length_lt
    rcases hend with ⟨r, rfl, -⟩ | ⟨-, rfl⟩ <;> simp only [List.length_cons] at * <;> omega
  | .forOf _ _ _ _ _ hiter _ hbody => by
    have := hiter.length_lt
    have := hbody.length_lt
    simp only [List.length_cons] at *
    omega
  | .forLoop _ _ hhead hbody => by
    have := hhead.length_lt
    have := hbody.length_lt
    simp only [List.length_cons] at *
    omega
  | .function _ _ _ hparams _ hbody => by
    have := hparams.length_lt
    have := hbody.length_lt
    simp only [List.length_cons] at *
    omega
  | .breakLoop _ _ hend => Nat.lt_succ_of_le hend.length_le
  | .continueLoop _ _ hend => Nat.lt_succ_of_le hend.length_le
  | .retNone _ _ hend => Nat.lt_succ_of_le hend.length_le
  | .retSome _ _ _ he hend =>
    Nat.lt_succ_of_lt (Nat.lt_of_le_of_lt hend.length_le he.length_lt)
  | .block _ hbody => Nat.lt_succ_of_lt hbody.length_lt
  | .empty _ => Nat.lt_succ_self _
  | .declare _ hitems hend =>
    Nat.lt_succ_of_lt (Nat.lt_of_le_of_lt hend.length_le hitems.length_lt)
  | .expr _ he hend => Nat.lt_of_le_of_lt hend.length_le he.length_lt

theorem DerivesBlock.length_lt {n : Nat} {s : Surroundings} {row rest : List Lexeme}
    {body : List Stmt} : DerivesBlock n s row body rest → rest.length < row.length
  | .nil _ => Nat.lt_succ_self _
  | .cons _ hx hothers => Nat.lt_trans hothers.length_lt hx.length_lt

end

mutual

/-- The last position of a script is for messages: what is derived does not depend on it. -/
theorem DerivesStmt.withLast {n : Nat} {s : Surroundings} {row rest : List Lexeme} {stmt : Stmt}
    (last : Position) :
    DerivesStmt n s row stmt rest → DerivesStmt n { s with last := last } row stmt rest
  | .branch hword hcond htrue helse => .branch hword hcond (htrue.withLast last) helse
  | .branchElse hword hcond htrue helse hfalse =>
    .branchElse hword hcond (htrue.withLast last) helse (hfalse.withLast last)
  | .whileLoop hword hcond hbody => .whileLoop hword hcond (hbody.withLast last)
  | .doWhile hword hbody hwhile hcond hend =>
    .doWhile hword (hbody.withLast last) hwhile hcond hend
  | .forOf hword hopen hkind hname hof hiter hclose hbody =>
    .forOf hword hopen hkind hname hof hiter hclose (hbody.withLast last)
  | .forLoop hword hopen hhead hbody => .forLoop hword hopen hhead (hbody.withLast last)
  | .function hword hname hopen hparams hbrace hbody =>
    .function hword hname hopen hparams hbrace (hbody.withLast last)
  | .breakLoop hword hloop hend => .breakLoop hword hloop hend
  | .continueLoop hword hloop hend => .continueLoop hword hloop hend
  | .retNone hword hfunction hend => .retNone hword hfunction hend
  | .retSome hword hfunction hvalue he hend => .retSome hword hfunction hvalue he hend
  | .block hword hbody => .block hword (hbody.withLast last)
  | .empty hword => .empty hword
  | .declare hkind hitems hend => .declare hkind hitems hend
  | .expr hbegins he hend => .expr hbegins he hend

theorem DerivesBlock.withLast {n : Nat} {s : Surroundings} {row rest : List Lexeme}
    {body : List Stmt} (last : Position) :
    DerivesBlock n s row body rest → DerivesBlock n { s with last := last } row body rest
  | .nil hclose => .nil hclose
  | .cons hopen hx hothers => .cons hopen (hx.withLast last) (hothers.withLast last)

end

theorem DerivesProgram.withLast {s : Surroundings} {row : List Lexeme} {body : List Stmt}
    (last : Position) (h : DerivesProgram s row body) :
    DerivesProgram { s with last := last } row body := by
  induction h with
  | nil => exact .nil
  | cons hx _ ih => exact .cons (hx.withLast last) ih

theorem DerivesExpr.ne_nil {n least : Nat} {row rest : List Lexeme} {e : Expr}
    (h : DerivesExpr n least row e rest) : row ≠ [] :=
  List.ne_nil_of_length_pos (Nat.lt_of_le_of_lt (Nat.zero_le _) h.length_lt)

/-- A statement begins with a word. -/
theorem DerivesStmt.ne_nil {n : Nat} {s : Surroundings} {row rest : List Lexeme} {stmt : Stmt}
    (h : DerivesStmt n s row stmt rest) : row ≠ [] :=
  List.ne_nil_of_length_pos (Nat.lt_of_le_of_lt (Nat.zero_le _) h.length_lt)

end Grammar

end Stencil.Script
