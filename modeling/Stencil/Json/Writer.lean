/-
  Writing JSON documents, on one line or indented.

  Numbers that are not whole get the fewest digits that read back as the same number; of two
  equally near choices the one with the even last digit is taken.  They always show a point or a
  power of ten, and places are written out from 10^-5 up to 10^16.
-/
import Stencil.Json.Tree
import Stencil.Number.Shortest

namespace Stencil.Json

/-! ## Texts -/

/-- A hexadecimal digit, in lowercase. -/
def hexDigit (n : Nat) : Char := Nat.digitChar n

/-- One character of a text: quote, backslash and the controls are escaped. -/
def escapeChar (c : Char) : List Char :=
  if c = '\x22' then ['\\', '\x22']
  else if c = '\\' then ['\\', '\\']
  else if c = '\x08' then ['\\', 'b']
  else if c = '\x0c' then ['\\', 'f']
  else if c = '\n' then ['\\', 'n']
  else if c = '\r' then ['\\', 'r']
  else if c = '\t' then ['\\', 't']
  else if c.toNat < 0x20 then
    ['\\', 'u', '0', '0', hexDigit (c.toNat / 16), hexDigit (c.toNat % 16)]
  else [c]

def quote (s : String) : String :=
  String.ofList ('\x22' :: s.toList.flatMap escapeChar ++ ['\x22'])

/-! ## Numbers -/

/-- The digits of a positive number. -/
def floatDigits (d : Decimal) : List Char :=
  if -5 ≤ d.order && d.order < 16 then
    if 0 ≤ d.exponent then d.positional ++ ['.', '0'] else d.positional
  else d.scientific

/-- What is not a number is written as `null`. -/
def floatText (x : Float) : String :=
  match Number.parts x with
  | .finite negative mantissa exponent =>
    let digits := floatDigits (Number.shortest .toEven mantissa exponent)
    String.ofList (if negative then '-' :: digits else digits)
  | _ => "null"

/-! ## Documents -/

mutual

/-- The document on one line without blanks. -/
def compact : Json → String
  | null => "null"
  | bool b => if b then "true" else "false"
  | whole n => String.ofList (Decimal.signed n)
  | float x => floatText x
  | string s => quote s
  | array items => "[" ++ compactItems items ++ "]"
  | object members => "\x7b" ++ compactMembers members ++ "\x7d"

def compactItems : List Json → String
  | [] => ""
  | [j] => compact j
  | j :: k :: rest => compact j ++ "," ++ compactItems (k :: rest)

def compactMembers : List (String × Json) → String
  | [] => ""
  | [(s, j)] => quote s ++ ":" ++ compact j
  | (s, j) :: k :: rest => quote s ++ ":" ++ compact j ++ "," ++ compactMembers (k :: rest)

end

/-- A line break and two blanks for each level. -/
def newline (level : Nat) : String := String.ofList ('\n' :: List.replicate (2 * level) ' ')

mutual

/-- The document with every item and every member on a line of its own, two blanks deeper than
    what it is in. -/
def indented (level : Nat) : Json → String
  | array [] => "[]"
  | array (j :: items) =>
    "[" ++ newline (level + 1) ++ indented (level + 1) j ++ indentedItems (level + 1) items
      ++ newline level ++ "]"
  | object [] => "\x7b\x7d"
  | object ((s, j) :: members) =>
    "\x7b" ++ newline (level + 1) ++ quote s ++ ": " ++ indented (level + 1) j
      ++ indentedMembers (level + 1) members ++ newline level ++ "\x7d"
  | null => "null"
  | bool b => if b then "true" else "false"
  | whole n => String.ofList (Decimal.signed n)
  | float x => floatText x
  | string s => quote s

def indentedItems (level : Nat) : List Json → String
  | [] => ""
  | j :: rest => "," ++ newline level ++ indented level j ++ indentedItems level rest

def indentedMembers (level : Nat) : List (String × Json) → String
  | [] => ""
  | (s, j) :: rest =>
    "," ++ newline level ++ quote s ++ ": " ++ indented level j ++ indentedMembers level rest

end

example : floatText 1.5e-7 = "1.5e-7" := by decide +kernel
example : floatText 9007199254740992.0 = "9007199254740992.0" := by decide +kernel
example : floatText 1e16 = "1e+16" := by decide +kernel
example : floatText 0.00001 = "0.00001" := by decide +kernel
example : quote "a\"\x01" = "\"a\\\"\\u0001\"" := by decide +kernel
example : compact (.array [.whole (-3), .object [("a", .null)]]) = "[-3,\x7b\"a\":null\x7d]" := by
  decide +kernel

end Stencil.Json
