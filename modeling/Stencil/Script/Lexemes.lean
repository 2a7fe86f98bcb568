/-
  How a script is cut into lexemes.

  White space and comments are passed over; a line break among them is remembered on the lexeme
  that follows.  Each reader gives back what it read and where it stops, which is where some number
  of steps leads; a word or a space takes at least the step past its first character
  (`reaches_readItem`), so the whole script is read in finitely many steps.
-/
import Stencil.Text.Blank
import Stencil.Text.Letter
import Stencil.Number.Numeral
import Stencil.Script.Error
import Stencil.Script.Lexer

namespace Stencil.Script

/-! ## Character classes -/

def isNameStart (c : Char) : Bool := Text.isAlphabetic c || c == '_' || c == '$'

def isNamePart (c : Char) : Bool := Text.isAlphanumeric c || c == '_' || c == '$'

def isHexDigit (c : Char) : Bool :=
  c.isDigit || ('a' ≤ c && c ≤ 'f') || ('A' ≤ c && c ≤ 'F')

/-- The value of a hexadecimal digit. -/
def hexValue (c : Char) : Nat :=
  if c.isDigit then c.toNat - '0'.toNat
  else if 'a' ≤ c then c.toNat - 'a'.toNat + 10
  else c.toNat - 'A'.toNat + 10

/-- The character of a code point given in hexadecimal, if there is one. -/
def charOfHex? (digits : List Char) : Option Char :=
  let n := digits.foldl (fun n d => 16 * n + hexValue d) 0
  if n.isValidChar then some (Char.ofNat n) else none

/-! ## What is read -/

/-- What stands at a place: something to pass over, which may break the line, or a word. -/
inductive Item where
  | space (breaks : Bool)
  | word (w : Word)
  deriving DecidableEq, Repr

/-- A name, or the reserved word that it spells. -/
def Word.ofName (name : String) : Word :=
  match Keyword.ofString? name with
  | some k => .keyword k
  | none => .name name

namespace Lexer

/-! ## String literals -/

/-- An escape of exactly `count` hexadecimal digits behind the letter `letter`; the lexer stands
    behind the letter, and `pos` behind the backslash. -/
def readHexEscape (letter : Char) (count : Nat) (pos : Position) (r : Lexer) :
    Except ScriptError (Char × Lexer) :=
  let (hex, stop) := r.takeUpTo isHexDigit count
  let shown := letter :: hex
  if hex.length = count then
    match charOfHex? hex with
    | some c => .ok (c, stop)
    | none => .error ⟨.invalidEscape (String.ofList shown), pos⟩
  else .error ⟨.invalidEscape (String.ofList shown), pos⟩

/-- An escape of one to six hexadecimal digits in braces; the lexer stands behind the opening
    one. -/
def readBracedEscape (pos : Position) (r : Lexer) : Except ScriptError (Char × Lexer) :=
  let (hex, r) := r.takeUpTo isHexDigit 6
  let (closing, stop) := r.advance
  let shown := 'u' :: '\x7b' :: hex
  if hex.isEmpty || closing ≠ some '\x7d' then .error ⟨.invalidEscape (String.ofList shown), pos⟩
  else
    match charOfHex? hex with
    | some c => .ok (c, stop)
    | none => .error ⟨.invalidEscape (String.ofList (shown ++ ['\x7d'])), pos⟩

/-- The character that is meant by the escape behind a backslash. -/
def readEscape (r : Lexer) : Except ScriptError (Char × Lexer) :=
  match r.advance with
  | (none, _) => .error ⟨.unterminatedString, r.pos⟩
  | (some 'n', stop) => .ok ('\n', stop)
  | (some 'r', stop) => .ok ('\r', stop)
  | (some 't', stop) => .ok ('\t', stop)
  | (some '0', stop) => .ok ('\x00', stop)
  | (some 'x', stop) => stop.readHexEscape 'x' 2 r.pos
  | (some 'u', stop) =>
    if stop.peek? = some '\x7b' then stop.advance.2.readBracedEscape r.pos
    else stop.readHexEscape 'u' 4 r.pos
  | (some c, stop) =>
    if c = '\\' ∨ c = '\x22' ∨ c = '\x27' then .ok (c, stop)
    else .error ⟨.invalidEscape (String.ofList [c]), r.pos⟩

theorem reaches_readHexEscape {letter : Char} {count : Nat} {pos : Position} {r stop : Lexer}
    {c : Char} (h : r.readHexEscape letter count pos = .ok (c, stop)) : r.Reaches stop := by
  simp only [readHexEscape] at h
  split at h
  · split at h <;> cases h
    exact reaches_takeUpTo isHexDigit r count
  · cases h

theorem reaches_readBracedEscape {pos : Position} {r stop : Lexer} {c : Char}
    (h : r.readBracedEscape pos = .ok (c, stop)) : r.Reaches stop := by
  simp only [readBracedEscape] at h
  split at h
  · cases h
  · split at h <;> cases h
    exact (reaches_takeUpTo isHexDigit r 6).trans (.step (.refl _))

theorem reaches_readEscape {r stop : Lexer} {c : Char} (h : r.readEscape = .ok (c, stop)) :
    r.Reaches stop := by
  unfold readEscape at h
  split at h
  case h_1 => cases h
  case h_2 hadvance | h_3 hadvance | h_4 hadvance | h_5 hadvance =>
    cases h
    exact .of_advance hadvance (.refl _)
  case h_6 hadvance => exact .of_advance hadvance (reaches_readHexEscape h)
  case h_7 hadvance =>
    split at h
    · exact .of_advance hadvance (.step (reaches_readBracedEscape h))
    · exact .of_advance hadvance (reaches_readHexEscape h)
  case h_8 hadvance =>
    split at h <;> cases h
    exact .of_advance hadvance (.refl _)

/-- The value of a string literal that starts at `start`; the lexer stands behind the opening
    quote. -/
def readString (quote : Char) (start : Position) (r : Lexer) :
    Except ScriptError (List Char × Lexer) :=
  match _h : r.advance with
  | (none, _) => .error ⟨.unterminatedString, start⟩
  | (some c, stop) =>
    if c = '\n' then .error ⟨.unterminatedString, start⟩
    else if c = quote then .ok ([], stop)
    else if c = '\\' then
      match _hescape : stop.readEscape with
      | .error e => .error e
      | .ok (value, behind) =>
        match readString quote start behind with
        | .error e => .error e
        | .ok (text, last) => .ok (value :: text, last)
    else
      match readString quote start stop with
      | .error e => .error e
      | .ok (text, last) => .ok (c :: text, last)
termination_by r.left
decreasing_by
  · exact left_lt_of_advance _h (reaches_readEscape _hescape)
  · exact left_lt_of_advance _h (.refl _)

theorem reaches_readString {quote : Char} {start : Position} {r stop : Lexer} {text : List Char}
    (h : r.readString quote start = .ok (text, stop)) : r.Reaches stop := by
  fun_induction readString quote start r generalizing text with
  | case3 r behind hadvance =>
    cases h
    exact .of_advance hadvance (.refl _)
  | case6 r behind value escaped hescape text last hrest hadvance _ _ ih =>
    cases h
    exact .of_advance hadvance ((reaches_readEscape hescape).trans (ih hrest))
  | case8 r c behind hadvance _ _ _ text last hrest ih =>
    cases h
    exact .of_advance hadvance (ih hrest)
  | _ => cases h

/-! ## Numbers -/

def readDigits (r : Lexer) : List Char × Lexer := r.takeWhile Char.isDigit

/-- The digits after a point, if a point followed by a digit stands here. -/
def readFraction (r : Lexer) : List Char × Lexer :=
  if r.peek? = some '.' ∧ (r.peekAt? 1).any Char.isDigit then r.advance.2.readDigits else ([], r)

/-- The sign of a power of ten, if one stands here. -/
def readSign (r : Lexer) : List Char × Lexer :=
  match r.peek? with
  | some c => if c = '+' ∨ c = '-' then ([c], r.advance.2) else ([], r)
  | none => ([], r)

/-- Neither a letter nor another digit may follow a number that reads `written`. -/
def endNumber (start : Position) (n : Numeral) (written : List Char) (r : Lexer) :
    Except ScriptError (Numeral × Lexer) :=
  match r.peek? with
  | some c =>
    if Text.isAlphanumeric c || c == '_' then
      .error ⟨.invalidNumber (String.ofList (written ++ [c])), start⟩
    else .ok (n, r)
  | none => .ok (n, r)

/-- The power of ten behind the digits of a number, if there is one; it needs digits. -/
def readPower (start : Position) (whole fraction written : List Char) (r : Lexer) :
    Except ScriptError (Numeral × Lexer) :=
  if r.peek? = some 'e' ∨ r.peek? = some 'E' then
    let (sign, r) := r.advance.2.readSign
    let (power, r) := r.readDigits
    let written := written ++ 'e' :: sign
    if power.isEmpty then .error ⟨.invalidNumber (String.ofList written), start⟩
    else r.endNumber start ⟨false, whole, fraction, sign == ['-'], power⟩ (written ++ power)
  else r.endNumber start ⟨false, whole, fraction, false, []⟩ written

/-- A number, at whose first character the lexer stands. -/
def readNumber (r : Lexer) : Except ScriptError (Numeral × Lexer) :=
  let (whole, afterWhole) := r.readDigits
  let (fraction, afterFraction) := afterWhole.readFraction
  let written := whole ++ if fraction.isEmpty then [] else '.' :: fraction
  afterFraction.readPower r.pos whole fraction written

theorem reaches_readDigits (r : Lexer) : r.Reaches r.readDigits.2 := reaches_takeWhile _ r

theorem reaches_readFraction (r : Lexer) : r.Reaches r.readFraction.2 := by
  unfold readFraction
  split
  · exact .step (reaches_readDigits _)
  · exact .refl _

theorem reaches_readSign (r : Lexer) : r.Reaches r.readSign.2 := by
  unfold readSign
  split
  · split
    · exact .step (.refl _)
    · exact .refl _
  · exact .refl _

theorem endNumber_stop {start : Position} {n n' : Numeral} {written : List Char} {r stop : Lexer}
    (h : r.endNumber start n written = .ok (n', stop)) : stop = r := by
  unfold endNumber at h
  split at h
  · split at h <;> cases h
    rfl
  · cases h
    rfl

theorem reaches_readPower {start : Position} {whole fraction written : List Char} {r stop : Lexer}
    {n : Numeral} (h : r.readPower start whole fraction written = .ok (n, stop)) :
    r.Reaches stop := by
  simp only [readPower] at h
  split at h
  · split at h
    · cases h
    · rw [endNumber_stop h]
      exact .step ((reaches_readSign _).trans (reaches_readDigits _))
  · rw [endNumber_stop h]
    exact .refl _

theorem reaches_readNumber {r stop : Lexer} {n : Numeral} {c : Char} (hpeek : r.peek? = some c)
    (hc : (c.isDigit || (c == '.' && (r.peekAt? 1).any Char.isDigit)) = true)
    (h : r.readNumber = .ok (n, stop)) : r.advance.2.Reaches stop := by
  simp only [readNumber] at h
  refine .trans ?_ (reaches_readPower h)
  by_cases hdigit : c.isDigit = true
  · exact (reaches_takeWhile_of_peek? hpeek hdigit).trans (reaches_readFraction _)
  · -- no digit stands here, so the point and the digits behind it are the fraction
    simp only [hdigit, Bool.false_or, Bool.and_eq_true, beq_iff_eq] at hc
    obtain ⟨rfl, hnext⟩ := hc
    have hdigits : r.readDigits = ([], r) := takeWhile_of_peek? hpeek hdigit
    rw [hdigits, readFraction, if_pos ⟨hpeek, hnext⟩]
    exact reaches_readDigits _

/-! ## Comments -/

/-- Past the closing mark of a comment that starts at `start`; `broken` says whether a line break
    stood in what is read of it. -/
def skipComment (start : Position) (broken : Bool) (r : Lexer) :
    Except ScriptError (Bool × Lexer) :=
  match _h : r.advance with
  | (none, _) => .error ⟨.unterminatedComment, start⟩
  | (some c, stop) =>
    if c = '*' ∧ stop.peek? = some '/' then .ok (broken, stop.advance.2)
    else skipComment start (broken || c == '\n') stop
termination_by r.left
decreasing_by exact left_lt_of_advance _h (.refl _)

theorem reaches_skipComment {start : Position} {broken breaks : Bool} {r stop : Lexer}
    (h : r.skipComment start broken = .ok (breaks, stop)) : r.Reaches stop := by
  fun_induction skipComment start broken r with
  | case1 => cases h
  | case2 broken r c behind hadvance =>
    cases h
    exact .of_advance hadvance (.step (.refl _))
  | case3 broken r c behind hadvance _ ih => exact .of_advance hadvance (ih h)

/-- A comment, at whose opening mark the lexer stands. -/
def readBlockComment (r : Lexer) : Except ScriptError (Item × Lexer) :=
  match r.advance.2.advance.2.skipComment r.pos false with
  | .error e => .error e
  | .ok (breaks, stop) => .ok (.space breaks, stop)

/-! ## One item -/

/-- The longest symbol that stands here. -/
def symbol? (r : Lexer) : Option Symbol := Symbol.all.find? fun s => r.startsWith s.spelling

/-- A word or a space, at whose first character `c` the lexer stands. -/
def readItem (r : Lexer) (c : Char) : Except ScriptError (Item × Lexer) :=
  if c = '\n' then .ok (.space true, r.advance.2)
  else if Text.isBlank c then .ok (.space false, r.advance.2)
  else if c = '/' ∧ r.peekAt? 1 = some '/' then .ok (.space false, (r.takeWhile (· != '\n')).2)
  else if c = '/' ∧ r.peekAt? 1 = some '*' then r.readBlockComment
  else if c = '\x22' ∨ c = '\x27' then
    match r.advance.2.readString c r.pos with
    | .error e => .error e
    | .ok (text, stop) => .ok (.word (.text (String.ofList text)), stop)
  -- a point begins a number only in front of a digit
  else if c.isDigit || (c == '.' && (r.peekAt? 1).any Char.isDigit) then
    match r.readNumber with
    | .error e => .error e
    | .ok (n, stop) => .ok (.word (.number n.toFloat), stop)
  else if isNameStart c then
    let (name, stop) := r.takeWhile isNamePart
    .ok (.word (.ofName (String.ofList name)), stop)
  else
    match r.symbol? with
    | some s => .ok (.word (.symbol s), r.advanceBy s.spelling.length)
    | none => .error ⟨.unexpectedCharacter c, r.pos⟩

theorem isNamePart_of_isNameStart {c : Char} (h : isNameStart c = true) : isNamePart c = true := by
  simp only [isNameStart, isNamePart, Text.isAlphanumeric, Bool.or_eq_true] at h ⊢
  rcases h with (h | h) | h <;> simp [h]

/-- Every item takes its first character. -/
theorem reaches_readItem {r stop : Lexer} {c : Char} {i : Item} (hpeek : r.peek? = some c)
    (h : r.readItem c = .ok (i, stop)) : r.advance.2.Reaches stop := by
  unfold readItem at h
  split at h
  · cases h; exact .refl _
  rename_i hnewline
  split at h
  · cases h; exact .refl _
  split at h
  · cases h; exact reaches_takeWhile_of_peek? hpeek (by simpa using hnewline)
  split at h
  · unfold readBlockComment at h
    split at h <;> cases h
    exact .step (reaches_skipComment ‹_›)
  split at h
  · split at h <;> cases h
    exact reaches_readString ‹_›
  split at h
  · split at h <;> cases h
    exact reaches_readNumber hpeek ‹_› ‹_›
  split at h
  · cases h
    exact reaches_takeWhile_of_peek? hpeek (isNamePart_of_isNameStart ‹_›)
  split at h <;> cases h
  rename_i s _
  obtain ⟨d, rest, hspelling⟩ := List.exists_cons_of_ne_nil s.spelling_ne_nil
  rw [hspelling]
  exact .advanceBy _ rest.length

/-! ## The whole script -/

/-- The lexemes from here on; `broken` says whether a line break was passed since the last one. -/
def lexemesFrom (broken : Bool) (r : Lexer) : Except ScriptError (List Lexeme) :=
  match _hpeek : r.peek? with
  | none => .ok []
  | some c =>
    match _hitem : r.readItem c with
    | .error e => .error e
    | .ok (.space breaks, stop) => lexemesFrom (broken || breaks) stop
    | .ok (.word w, stop) =>
      match lexemesFrom false stop with
      | .error e => .error e
      | .ok others => .ok (⟨w, r.pos, broken⟩ :: others)
termination_by r.left
decreasing_by all_goals exact left_lt_of_peek? _hpeek (reaches_readItem _hpeek _hitem)

end Lexer

/-- The lexemes of a script. -/
def lexemes (script : String) : Except ScriptError (List Lexeme) :=
  (Lexer.ofString script).lexemesFrom false

example : (lexemes "a+=\n.5e1 // x").map (·.map fun l => (l.word, l.pos, l.afterBreak))
    = .ok [(.name "a", ⟨0, 0⟩, false), (.symbol .plusAssign, ⟨0, 1⟩, false),
           (.number 5.0, ⟨1, 0⟩, true)] := by decide +kernel
example : lexemes "'a" = .error ⟨.unterminatedString, ⟨0, 0⟩⟩ := by decide +kernel
example : lexemes "\"\\u\x7b\x7d\"" = .error ⟨.invalidEscape "u\x7b", ⟨0, 2⟩⟩ := by
  decide +kernel

end Stencil.Script
