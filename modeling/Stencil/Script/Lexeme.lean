/-
  The words of the script language: reserved words, symbols, and lexemes made of them, of names and
  of literals.
-/
import Stencil.Text.Position
import Stencil.Text.Quoted
import Stencil.Script.NumberText

namespace Stencil.Script

/-! ## Reserved words -/

/-- A reserved word. -/
inductive Keyword where
  | kwLet | kwVar | kwConst | kwIf | kwElse | kwFor | kwWhile | kwDo | kwBreak | kwContinue
  | kwFunction | kwReturn | kwTrue | kwFalse | kwNull | kwUndefined | kwTypeof
  deriving DecidableEq, Repr

namespace Keyword

def all : List Keyword :=
  [kwLet, kwVar, kwConst, kwIf, kwElse, kwFor, kwWhile, kwDo, kwBreak, kwContinue,
   kwFunction, kwReturn, kwTrue, kwFalse, kwNull, kwUndefined, kwTypeof]

def spelling : Keyword → String
  | kwLet => "let"
  | kwVar => "var"
  | kwConst => "const"
  | kwIf => "if"
  | kwElse => "else"
  | kwFor => "for"
  | kwWhile => "while"
  | kwDo => "do"
  | kwBreak => "break"
  | kwContinue => "continue"
  | kwFunction => "function"
  | kwReturn => "return"
  | kwTrue => "true"
  | kwFalse => "false"
  | kwNull => "null"
  | kwUndefined => "undefined"
  | kwTypeof => "typeof"

/-- The reserved word of this spelling. -/
def ofString? (text : String) : Option Keyword := all.find? fun k => k.spelling == text

theorem ofString?_spelling (k : Keyword) : ofString? k.spelling = some k := by
  cases k <;> decide +kernel

end Keyword

/-! ## Symbols -/

/-- Punctuation and operators. -/
inductive Symbol where
  | strictEqual | strictNotEqual
  | starStar | plusPlus | minusMinus
  | plusAssign | minusAssign | starAssign | slashAssign | percentAssign
  | equal | notEqual | lessEqual | greaterEqual | andAnd | orOr | questionQuestion
  | leftParen | rightParen | leftBrace | rightBrace | leftBracket | rightBracket
  | comma | semicolon | colon | question | dot
  | plus | minus | star | slash | percent | bang | assign | less | greater
  deriving DecidableEq, Repr

namespace Symbol

/-- Every symbol, longer spellings first, so that the first one that fits is the longest. -/
def all : List Symbol :=
  [strictEqual, strictNotEqual,
   starStar, plusPlus, minusMinus,
   plusAssign, minusAssign, starAssign, slashAssign, percentAssign,
   equal, notEqual, lessEqual, greaterEqual, andAnd, orOr, questionQuestion,
   leftParen, rightParen, leftBrace, rightBrace, leftBracket, rightBracket,
   comma, semicolon, colon, question, dot,
   plus, minus, star, slash, percent, bang, assign, less, greater]

def spelling : Symbol → List Char
  | strictEqual => ['=', '=', '=']
  | strictNotEqual => ['!', '=', '=']
  | starStar => ['*', '*']
  | plusPlus => ['+', '+']
  | minusMinus => ['-', '-']
  | plusAssign => ['+', '=']
  | minusAssign => ['-', '=']
  | starAssign => ['*', '=']
  | slashAssign => ['/', '=']
  | percentAssign => ['%', '=']
  | equal => ['=', '=']
  | notEqual => ['!', '=']
  | lessEqual => ['<', '=']
  | greaterEqual => ['>', '=']
  | andAnd => ['&', '&']
  | orOr => ['|', '|']
  | questionQuestion => ['?', '?']
  | leftParen => ['(']
  | rightParen => [')']
  | leftBrace => ['\x7b']
  | rightBrace => ['\x7d']
  | leftBracket => ['[']
  | rightBracket => [']']
  | comma => [',']
  | semicolon => [';']
  | colon => [':']
  | question => ['?']
  | dot => ['.']
  | plus => ['+']
  | minus => ['-']
  | star => ['*']
  | slash => ['/']
  | percent => ['%']
  | bang => ['!']
  | assign => ['=']
  | less => ['<']
  | greater => ['>']

theorem mem_all (s : Symbol) : s ∈ all := by cases s <;> decide

theorem spelling_ne_nil (s : Symbol) : s.spelling ≠ [] := by cases s <;> simp [spelling]

theorem all_sorted : all.Pairwise fun s t => t.spelling.length ≤ s.spelling.length := by decide

end Symbol

/-! ## Lexemes -/

/-- What a lexeme says. -/
inductive Word where
  | number (x : Float)
  | text (s : String)
  | name (s : String)
  | keyword (k : Keyword)
  | symbol (s : Symbol)
  deriving DecidableEq, Repr

/-- A word of a script, where it stands, and whether a line break separates it from the word
    before. -/
structure Lexeme where
  word : Word
  pos : Position
  afterBreak : Bool
  deriving DecidableEq, Repr

/-- A spelling in single quotes. -/
def inQuotes (spelling : String) : String := "'" ++ spelling ++ "'"

def Symbol.describe (s : Symbol) : String := inQuotes (String.ofList s.spelling)

def Keyword.describe (k : Keyword) : String := inQuotes k.spelling

/-- How messages name a word. -/
def Word.describe : Word → String
  | .number x => "number " ++ numberTextInFull x
  | .text s => "string " ++ Text.quoteText s
  | .name s => "identifier " ++ s
  | .keyword k => k.describe
  | .symbol s => s.describe

example : (Word.symbol .plusAssign).describe = "'+='" := by decide +kernel

end Stencil.Script
