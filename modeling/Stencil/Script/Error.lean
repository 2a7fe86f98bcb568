/-
  What can go wrong with a script, where it went wrong, and how it is said.

  Faults are told apart by their cause; `Fault.describe` alone puts a cause into words.
  `Fault.isSyntax` separates what is found before anything runs from what a run meets.
-/
import Stencil.Script.Lexeme

namespace Stencil.Script

/-! ## Causes -/

/-- What the grammar asks for at a place. -/
inductive Expected where
  | statement
  | expression
  | identifier
  | propertyName
  /-- The `=` of a constant, which must be given its value. -/
  | constantValue
  | symbol (s : Symbol)
  | keyword (k : Keyword)
  deriving DecidableEq, Repr

/-- An operation on a value that does not support it. -/
inductive Misuse where
  | notIterable (typeName : String)
  /-- The accumulator of the given name does not hold a string. -/
  | outputNotString (name : String)
  | appendOutsideRun
  | radix (x : Float)
  /-- A member is read of `undefined` or `null`. -/
  | readOf (member receiver : String)
  | arrayIndex (x : Float)
  | arrayLength
  | setOn (key typeName : String)
  /-- A path of members ends early. -/
  | missingMember (key : String)
  | repeatCount (x : Float)
  | stringLength
  | fixedPlaces (x : Float)
  deriving DecidableEq, Repr

/-- What went wrong. -/
inductive Fault where
  | unexpectedCharacter (c : Char)
  | unterminatedString
  | unterminatedComment
  | invalidEscape (escape : String)
  | invalidNumber (text : String)
  | unexpectedWord (expected : Expected) (found : Word)
  | unexpectedEnd (expected : Expected)
  | invalidTarget
  | undefinedVariable (name : String)
  | notCallable (what : String)
  | misuse (cause : Misuse)
  | constantAssignment (name : String)
  | redeclaration (name : String)
  | breakOutsideLoop
  | continueOutsideLoop
  | returnOutsideFunction
  | nestingTooDeep (limit : Nat)
  | callDepthExceeded (limit : Nat)
  deriving DecidableEq, Repr

/-- A fault and where in the script it was met. -/
structure ScriptError where
  fault : Fault
  pos : Position
  deriving DecidableEq, Repr

instance decidableEqExcept {ε α : Type} [DecidableEq ε] [DecidableEq α] :
    DecidableEq (Except ε α)
  | .ok a, .ok b => decidable_of_iff (a = b) (by simp)
  | .error e, .error f => decidable_of_iff (e = f) (by simp)
  | .ok _, .error _ => isFalse (by simp)
  | .error _, .ok _ => isFalse (by simp)

/-! ## Wording -/

def Expected.describe : Expected → String
  | statement => "statement"
  | expression => "expression"
  | identifier => "identifier"
  | propertyName => "property name"
  | constantValue => Symbol.assign.describe ++ " after const name"
  | symbol s => s.describe
  | keyword k => k.describe

def Misuse.describe : Misuse → String
  | notIterable typeName => typeName ++ " is not iterable"
  | outputNotString name => name ++ " is not a string"
  | appendOutsideRun => "append called outside a template run"
  | radix x => "radix must be between 2 and 36, got " ++ numberText x
  | readOf member receiver => "cannot read property " ++ member ++ " of " ++ receiver
  | arrayIndex x => "invalid array index " ++ numberText x
  | arrayLength => "invalid array length"
  | setOn key typeName => "cannot set property " ++ key ++ " on " ++ typeName
  | missingMember key => "cannot set property of undefined (" ++ key ++ ")"
  | repeatCount x => "invalid repeat count " ++ numberText x
  | stringLength => "invalid string length"
  | fixedPlaces x => "toFixed digits must be between 0 and 100, got " ++ numberText x

def Fault.describe : Fault → String
  | unexpectedCharacter c => "unexpected character: " ++ Text.quoteChar c
  | unterminatedString => "unterminated string literal"
  | unterminatedComment => "unterminated block comment"
  | invalidEscape escape => "invalid escape sequence: \\" ++ escape
  | invalidNumber text => "invalid number: " ++ text
  | unexpectedWord expected found => "expected " ++ expected.describe ++ ", got " ++ found.describe
  | unexpectedEnd expected => "unexpected end of script, expected " ++ expected.describe
  | invalidTarget => "invalid assignment target"
  | undefinedVariable name => name ++ " is not defined"
  | notCallable what => what ++ " is not a function"
  | misuse cause => "type error: " ++ cause.describe
  | constantAssignment name => "assignment to constant variable " ++ name
  | redeclaration name => "identifier " ++ name ++ " has already been declared"
  | breakOutsideLoop => "break outside of a loop"
  | continueOutsideLoop => "continue outside of a loop"
  | returnOutsideFunction => "return outside of a function"
  | nestingTooDeep limit => "nesting deeper than " ++ toString limit ++ " levels"
  | callDepthExceeded limit => "maximum call depth of " ++ toString limit ++ " exceeded"

def ScriptError.describe (e : ScriptError) : String := e.fault.describe ++ " at " ++ e.pos.describe

/-! ## Before and during a run -/

/-- Whether the fault is one that is found before any statement runs. -/
def Fault.isSyntax : Fault → Bool
  | unexpectedCharacter _ | unterminatedString | unterminatedComment | invalidEscape _
  | invalidNumber _ | unexpectedWord .. | unexpectedEnd _ | invalidTarget | breakOutsideLoop
  | continueOutsideLoop | returnOutsideFunction | nestingTooDeep _ => true
  | undefinedVariable _ | notCallable _ | misuse _ | constantAssignment _ | redeclaration _
  | callDepthExceeded _ => false

def ScriptError.isSyntax (e : ScriptError) : Bool := e.fault.isSyntax

example : (ScriptError.mk (.unexpectedEnd (.symbol .rightParen)) ⟨0, 3⟩).describe
    = "unexpected end of script, expected ')' at line 1, column 4" := by decide +kernel

end Stencil.Script
