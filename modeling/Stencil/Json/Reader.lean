/-
  Reading JSON documents.

  A document is refused for one of two reasons: the text ends too early, or it is malformed where
  it stands.  Arrays and objects may be nested up to a limit, which is what the recursion is on.

  Numbers without point and power that fit into 64 bits are whole.  Others are read from their
  first digits, as many as fit into 64 bits, scaled by the power of ten in one step where that is
  possible; the digits left out count as zeros.
-/
import Stencil.Json.Tree
import Stencil.Dict

namespace Stencil.Json

/-- Why a text is no document. -/
inductive Refusal where
  /-- The text ends in the middle of the document. -/
  | cutOff
  /-- The text is malformed, nested too deeply, or has a number out of range. -/
  | malformed
  /-- A document of another kind than the one asked for. -/
  | otherKind
  deriving DecidableEq, Repr

/-- What is read and the rest of the text. -/
abbrev Reads (α : Type) := Except Refusal (α × List Char)

/-- One more than the deepest nesting of arrays and objects. -/
def nestingLimit : Nat := 128

def isSpace (c : Char) : Bool := c == ' ' || c == '\n' || c == '\t' || c == '\r'

def skipSpace (text : List Char) : List Char := text.dropWhile isSpace

/-- The fault at a place where something else should stand. -/
def faultAt (text : List Char) : Refusal := if text.isEmpty then .cutOff else .malformed

/-- The letters of a literal, the first of which is taken already. -/
def readLetters : List Char → List Char → Except Refusal (List Char)
  | [], text => .ok text
  | _ :: _, [] => .error .cutOff
  | w :: word, c :: text => if c = w then readLetters word text else .error .malformed

/-! ## Numbers -/

def maxWord : Nat := 0xFFFFFFFFFFFFFFFF

def digitValue (c : Char) : Nat := c.toNat - '0'.toNat

/-- Digits as long as the number fits into 64 bits: the number, how many digits were taken, and the
    rest. -/
def readSignificand (n : Nat) : List Char → Nat × Nat × List Char
  | [] => (n, 0, [])
  | c :: rest =>
    if c.isDigit && n * 10 + digitValue c ≤ maxWord then
      let (m, taken, rest') := readSignificand (n * 10 + digitValue c) rest
      (m, taken + 1, rest')
    else (n, 0, c :: rest)

/-- The powers of ten that are applied in one step. -/
def powerOfTen (n : Nat) : Float := Float.ofScientific 1 false n

/-- `significand · 10 ^ exponent`, scaled down by 10^308 as often as needed; a number too large
    is out of range. -/
def scale (significand : Float) (exponent : Int) : Except Refusal Float :=
  go (exponent.natAbs / 308 + 1) significand exponent
where
  go : Nat → Float → Int → Except Refusal Float
    | 0, x, _ => .ok x
    | fuel + 1, x, e =>
      if e.natAbs ≤ 308 then
        if 0 ≤ e then
          let y := x * powerOfTen e.natAbs
          if y.isInf then .error .malformed else .ok y
        else .ok (x / powerOfTen e.natAbs)
      else if x == 0.0 then .ok x
      else if 0 ≤ e then .error .malformed
      else go fuel (x / powerOfTen 308) (e + 308)

def withSign (negative : Bool) (x : Float) : Float := if negative then -x else x

/-- A number from its parts. -/
def ofParts (negative : Bool) (significand : Nat) (exponent : Int) (rest : List Char) : Reads Json :=
  match scale (Float.ofNat significand) exponent with
  | .error e => .error e
  | .ok x => .ok (.float (withSign negative x), rest)

/-- Powers beyond 32 bits are not computed. -/
def maxPower : Nat := 0x7FFFFFFF

def natOfDigits (ds : List Char) : Nat := ds.foldl (fun n d => n * 10 + digitValue d) 0

/-- A power of ten, behind its letter. -/
def readPower (negative : Bool) (significand : Nat) (exponent : Int) (text : List Char) :
    Reads Json :=
  let (down, text) :=
    match text with
    | '+' :: rest => (false, rest)
    | '-' :: rest => (true, rest)
    | _ => (false, text)
  let ds := text.takeWhile Char.isDigit
  let rest := text.dropWhile Char.isDigit
  if ds.isEmpty then .error (faultAt text)
  else
    let power := natOfDigits ds
    if maxPower < power then
      if significand ≠ 0 ∧ !down then .error .malformed
      else .ok (.float (withSign negative 0.0), rest)
    else ofParts negative significand (if down then exponent - power else exponent + power) rest

/-- The end of a number behind its digits: a power of ten or nothing. -/
def endNumber (negative : Bool) (significand : Nat) (exponent : Int) (text : List Char) :
    Reads Json :=
  match text with
  | c :: rest =>
    if c = 'e' ∨ c = 'E' then readPower negative significand exponent rest
    else ofParts negative significand exponent text
  | [] => ofParts negative significand exponent text

/-- The digits behind a point.  Those that no longer fit are passed over. -/
def readDecimals (negative : Bool) (significand : Nat) (exponent : Int) (text : List Char) :
    Reads Json :=
  let (n, taken, rest) := readSignificand significand text
  if (text.head?.any Char.isDigit) = false then .error (faultAt text)
  else endNumber negative n (exponent - taken) (rest.dropWhile Char.isDigit)

/-- The digits before a point that no longer fit: each counts as a power of ten. -/
def readLongWhole (negative : Bool) (significand : Nat) (text : List Char) : Reads Json :=
  let exponent : Int := (text.takeWhile Char.isDigit).length
  match text.dropWhile Char.isDigit with
  | '.' :: rest => readDecimals negative significand exponent rest
  | rest => endNumber negative significand exponent rest

/-- A number, behind its sign. -/
def readNumber (negative : Bool) (text : List Char) : Reads Json :=
  match text with
  | [] => .error .cutOff
  | c :: rest =>
    if !c.isDigit then .error .malformed
    else
      let (n, taken, rest') := readSignificand (digitValue c) rest
      -- no digit may follow a leading zero
      if c = '0' ∧ 0 < taken then .error .malformed
      else
        match rest' with
        | '.' :: rest'' => readDecimals negative n 0 rest''
        | 'e' :: rest'' | 'E' :: rest'' => readPower negative n 0 rest''
        | d :: rest'' =>
          if d.isDigit then readLongWhole negative n (d :: rest'') else endWhole n (d :: rest'')
        | [] => endWhole n []
where
  /-- A whole number; the negative ones that fit into 64 bits stay whole, negative zero does not. -/
  endWhole (n : Nat) (rest : List Char) : Reads Json :=
    if !negative then .ok (.whole n, rest)
    else if 0 < n ∧ n ≤ 0x8000000000000000 then .ok (.whole (-n), rest)
    else .ok (.float (-(Float.ofNat n)), rest)

/-! ## Texts -/

def isHexDigit (c : Char) : Bool :=
  c.isDigit || ('a' ≤ c && c ≤ 'f') || ('A' ≤ c && c ≤ 'F')

def hexValue (c : Char) : Nat :=
  if c.isDigit then c.toNat - '0'.toNat
  else if 'a' ≤ c then c.toNat - 'a'.toNat + 10
  else c.toNat - 'A'.toNat + 10

/-- Four hexadecimal digits; the text is cut off when fewer than four bytes are left. -/
def readUnit (text : List Char) : Except Refusal (Nat × List Char) :=
  if (text.take 4).foldl (fun n c => n + c.utf8Size) 0 < 4 then .error .cutOff
  else
    let hex := text.take 4
    if hex.length = 4 ∧ hex.all isHexDigit then
      .ok (hex.foldl (fun n d => 16 * n + hexValue d) 0, text.drop 4)
    else .error .malformed

/-- A character by its number; two numbers of the surrogate ranges make one character, and neither
    may stand alone. -/
def readCodePoint (text : List Char) : Except Refusal (Char × List Char) :=
  match readUnit text with
  | .error e => .error e
  | .ok (n, rest) =>
    if 0xDC00 ≤ n ∧ n ≤ 0xDFFF then .error .malformed
    else if n < 0xD800 ∨ 0xDBFF < n then .ok (Char.ofNat n, rest)
    else
      match rest with
      | [] => .error .cutOff
      | '\\' :: [] => .error .cutOff
      | '\\' :: 'u' :: rest' =>
        match readUnit rest' with
        | .error e => .error e
        | .ok (m, rest'') =>
          if m < 0xDC00 ∨ 0xDFFF < m then .error .malformed
          else .ok (Char.ofNat ((n - 0xD800) * 0x400 + (m - 0xDC00) + 0x10000), rest'')
      | _ => .error .malformed

/-- The character that a letter behind a backslash stands for. -/
def escaped? : Char → Option Char
  | '\x22' => some '\x22'
  | '\\' => some '\\'
  | '/' => some '/'
  | 'b' => some '\x08'
  | 'f' => some '\x0c'
  | 'n' => some '\n'
  | 'r' => some '\r'
  | 't' => some '\t'
  | _ => none

/-- A text behind its opening quote, in at most `fuel` steps. -/
def readText (fuel : Nat) (text : List Char) : Reads (List Char) :=
  match fuel, text with
  | 0, _ => .error .cutOff
  | _, [] => .error .cutOff
  | fuel + 1, c :: rest =>
    if c = '\x22' then .ok ([], rest)
    else if c = '\\' then
      match rest with
      | [] => .error .cutOff
      | 'u' :: rest' =>
        match readCodePoint rest' with
        | .error e => .error e
        | .ok (value, rest'') => prepend value (readText fuel rest'')
      | letter :: rest' =>
        match escaped? letter with
        | some value => prepend value (readText fuel rest')
        | none => .error .malformed
    else if c.toNat < 0x20 then .error .malformed
    else prepend c (readText fuel rest)
where
  prepend (c : Char) : Reads (List Char) → Reads (List Char)
    | .error e => .error e
    | .ok (cs, rest) => .ok (c :: cs, rest)

def readString (text : List Char) : Reads String :=
  match readText (text.length + 1) text with
  | .error e => .error e
  | .ok (cs, rest) => .ok (String.ofList cs, rest)

/-! ## Documents -/

/-- The items of an array from the first or from behind a comma, up to the closing bracket. -/
def readItems (value : List Char → Reads Json) : Nat → List Char → Reads (List Json)
  | 0, _ => .error .cutOff
  | fuel + 1, text =>
    match value text with
    | .error e => .error e
    | .ok (j, rest) =>
      match skipSpace rest with
      | ']' :: rest' => .ok ([j], rest')
      | ',' :: rest' =>
        match readItems value fuel rest' with
        | .error e => .error e
        | .ok (others, rest'') => .ok (j :: others, rest'')
      | rest' => .error (faultAt rest')

/-- The members of an object from the first or from behind a comma, up to the closing brace. -/
def readMembers (value : List Char → Reads Json) : Nat → List Char → Reads (List (String × Json))
  | 0, _ => .error .cutOff
  | fuel + 1, text =>
    match skipSpace text with
    | '\x22' :: rest =>
      match readString rest with
      | .error e => .error e
      | .ok (key, rest) =>
        match skipSpace rest with
        | ':' :: rest =>
          match value rest with
          | .error e => .error e
          | .ok (j, rest) =>
            match skipSpace rest with
            | '\x7d' :: rest => .ok ([(key, j)], rest)
            | ',' :: rest =>
              match readMembers value fuel rest with
              | .error e => .error e
              | .ok (others, rest) => .ok ((key, j) :: others, rest)
            | rest => .error (faultAt rest)
        | rest => .error (faultAt rest)
    | rest => .error (faultAt rest)

/-- The members behind the opening brace; of two with one name the later counts. -/
def readObject (value : List Char → Reads Json) (text : List Char) : Reads (Dict Json) :=
  match skipSpace text with
  | '\x7d' :: rest => .ok ([], rest)
  | text =>
    match readMembers value (text.length + 1) text with
    | .error e => .error e
    | .ok (members, rest) => .ok (Dict.ofList members, rest)

/-- The items behind the opening bracket. -/
def readArray (value : List Char → Reads Json) (text : List Char) : Reads (List Json) :=
  match skipSpace text with
  | ']' :: rest => .ok ([], rest)
  | text => readItems value (text.length + 1) text

/-- A document that is neither an array nor an object, at its first character. -/
def readScalar (text : List Char) : Reads Json :=
  match text with
  | 'n' :: rest => (readLetters ['u', 'l', 'l'] rest).map fun rest => (.null, rest)
  | 't' :: rest => (readLetters ['r', 'u', 'e'] rest).map fun rest => (.bool true, rest)
  | 'f' :: rest => (readLetters ['a', 'l', 's', 'e'] rest).map fun rest => (.bool false, rest)
  | '-' :: rest => readNumber true rest
  | '\x22' :: rest => (readString rest).map fun (s, rest) => (.string s, rest)
  | c :: rest => if c.isDigit then readNumber false (c :: rest) else .error .malformed
  | [] => .error .cutOff

/-- A document, with one nesting level less than `levels` to spare. -/
def readValue : (levels : Nat) → List Char → Reads Json
  | levels, text =>
    match skipSpace text with
    | '[' :: rest =>
      match levels with
      | levels + 2 => (readArray (readValue (levels + 1)) rest).map fun (js, rest) => (.array js, rest)
      | _ => .error .malformed
    | '\x7b' :: rest =>
      match levels with
      | levels + 2 =>
        (readObject (readValue (levels + 1)) rest).map fun (ms, rest) => (.object ms, rest)
      | _ => .error .malformed
    | text => readScalar text

/-- The members of a text that is an object and nothing else. -/
def objectOfString (s : String) : Except Refusal (Dict Json) :=
  match skipSpace s.toList with
  | '\x7b' :: rest =>
    match readObject (readValue (nestingLimit - 1)) rest with
    | .error e => .error e
    | .ok (members, rest) => if (skipSpace rest).isEmpty then .ok members else .error .malformed
  | '[' :: _ => .error .otherKind
  | text =>
    match readScalar text with
    | .error e => .error e
    | .ok _ => .error .otherKind

end Stencil.Json
