/-
  The script that a template stands for, and the map from its rows back to the template.

  Every token becomes one piece of script that ends in a line break: literal text and expressions
  become calls of the output function, directive text is taken over and followed by a comment that
  names where it came from.  The map lists, for each token, the row where its piece begins.
-/
import Stencil.Script.Native
import Stencil.Template.Token

namespace Stencil

/-! ## Text as a string literal of the script -/

/-- Controls without an escape letter are written by their code point: C0, delete and C1. -/
def isControl (c : Char) : Bool := c.toNat < 0x20 || (0x7F ≤ c.toNat && c.toNat < 0xA0)

/-- One character of a string literal. -/
def escapeChar (c : Char) : List Char :=
  if c = '\x22' then ['\\', '\x22']
  else if c = '\\' then ['\\', '\\']
  else if c = '\n' then ['\\', 'n']
  else if c = '\r' then ['\\', 'r']
  else if c = '\t' then ['\\', 't']
  else if c = '\x00' then ['\\', '0']
  else if isControl c then ['\\', 'u', '\x7b'] ++ Nat.toDigits 16 c.toNat ++ ['\x7d']
  else [c]

/-- A text as a string literal of the script, in double quotes. -/
def escapeString (text : List Char) : List Char :=
  '\x22' :: text.flatMap escapeChar ++ ['\x22']

/-! ## The pieces -/

/-- A call of the output function with the given argument text, on a line of its own. -/
def appendCall (argument : List Char) : List Char :=
  Script.Native.append.name.toList ++ '(' :: argument ++ [')', ';', '\n']

namespace Token

/-- The script that a token stands for. -/
def piece (t : Token) : List Char :=
  let text := t.text.toList
  match t.kind with
  | .chunk => appendCall (escapeString text)
  | .expression => appendCall text
  | .line => text ++ " // ~ ".toList ++ t.pos.describe.toList ++ ['\n']
  | .block =>
    text ++ (if text.getLast? = some '\n' then [] else ['\n'])
      ++ "// ~- ".toList ++ t.pos.describe.toList ++ ['\n']

/-- The rows that a token's piece takes. -/
def rows (t : Token) : Nat := t.piece.count '\n'

end Token

/-! ## The whole script -/

/-- A script with the map from its rows to the template. -/
structure Fragment where
  code : String
  /-- For each token the first row of its piece and the token's position. -/
  origins : List (Nat × Position)
  deriving DecidableEq, Repr

namespace Fragment

/-- The map of the tokens whose pieces begin at `row`. -/
def originsFrom (row : Nat) : List Token → List (Nat × Position)
  | [] => []
  | t :: rest => (row, t.pos) :: originsFrom (row + t.rows) rest

/-- The script of a sequence of tokens. -/
def ofTokens (tokens : List Token) : Fragment :=
  ⟨String.ofList (tokens.flatMap Token.piece), originsFrom 0 tokens⟩

/-- Where in the template a row of the script comes from: the last piece that begins at or above
    the row. -/
def origin? (f : Fragment) (row : Nat) : Option Position :=
  (f.origins.takeWhile fun o => o.1 ≤ row).getLast?.map Prod.snd

example : (ofTokens [⟨.line, "x", ⟨0, 0⟩⟩, ⟨.expression, "y", ⟨1, 0⟩⟩]).code
    = "x // ~ line 1, column 1\nappend(y);\n" := by decide +kernel
example : (ofTokens [⟨.line, "x", ⟨0, 0⟩⟩, ⟨.expression, "y", ⟨1, 0⟩⟩]).origin? 7
    = some ⟨1, 0⟩ := by decide +kernel

end Fragment

end Stencil
