/-
  Characters and texts as messages quote them.

  A quote of the enclosing kind and a backslash are written behind a backslash, four controls have
  a letter of their own, and every other character that would not be seen as itself is written by
  its code point in braces.
-/
import Stencil.Text.Printable

namespace Stencil.Text

/-- The escape for a code point: `\u`, then its lowercase hexadecimal digits in braces. -/
def codePoint (c : Char) : List Char :=
  ['\\', 'u', '\x7b'] ++ Nat.toDigits 16 c.toNat ++ ['\x7d']

/-- One character inside quotes of the kind `mark`. -/
def quotedChar (mark c : Char) : List Char :=
  if c = '\x00' then ['\\', '0']
  else if c = '\t' then ['\\', 't']
  else if c = '\r' then ['\\', 'r']
  else if c = '\n' then ['\\', 'n']
  else if c = '\\' || c = mark then ['\\', c]
  else if isShown c then [c]
  else codePoint c

/-- A character in single quotes. -/
def quoteChar (c : Char) : String :=
  String.ofList ('\x27' :: quotedChar '\x27' c ++ ['\x27'])

/-- A text in double quotes. -/
def quoteText (text : String) : String :=
  String.ofList ('\x22' :: text.toList.flatMap (quotedChar '\x22') ++ ['\x22'])

example : quoteChar (Char.ofNat 0x7F) = "'\\u\x7b7f\x7d'" := by decide +kernel
example : quoteText "a\"b\n" = "\"a\\\"b\\n\"" := by decide +kernel

end Stencil.Text
