/-
  The readers of a script over the text that is left.

  A lexer goes by an index into an array.  What is read depends on the text behind the index and on
  the place where that stands, and on nothing else, so that a cursor holds all of it
  (`Lexer.toCursor`): one step of the index takes one character off the text, and the row and the
  column that are counted beside it are those of the cursor (`Lexer.toCursor_advance`).  Here each
  reader is given once more, as a function of a cursor, and shown to be the same; the lexemes of a
  script are those from the cursor at its start (`lexemes_eq`).
-/
import Stencil.Text.Cursor
import Stencil.Script.Lexemes

namespace Stencil.Script

/-! ## The readers over a cursor -/

/-- The character that an escape stands for and the number of characters after the backslash, or
    the part of a faulty escape that is shown. -/
inductive Escape where
  | char (c : Char) (length : Nat)
  | invalid (shown : List Char)
  | cutOff

/-- An escape of exactly `count` hexadecimal digits behind the letter `letter`. -/
def readHexEscape (letter : Char) (count : Nat) (rest : List Char) : Escape :=
  let hex := (rest.take count).takeWhile isHexDigit
  if hex.length = count then
    match charOfHex? hex with
    | some c => .char c (count + 1)
    | none => .invalid (letter :: hex)
  else .invalid (letter :: hex)

/-- An escape of one to six hexadecimal digits in braces; `rest` starts behind the opening one. -/
def readBracedEscape (rest : List Char) : Escape :=
  let hex := (rest.take 6).takeWhile isHexDigit
  let shown := 'u' :: '\x7b' :: hex
  if hex.isEmpty || (rest.drop hex.length).head? ≠ some '\x7d' then .invalid shown
  else
    match charOfHex? hex with
    | some c => .char c (hex.length + 3)
    | none => .invalid (shown ++ ['\x7d'])

/-- The escape behind a backslash. -/
def readEscape : List Char → Escape
  | [] => .cutOff
  | 'n' :: _ => .char '\n' 1
  | 'r' :: _ => .char '\r' 1
  | 't' :: _ => .char '\t' 1
  | '0' :: _ => .char '\x00' 1
  | 'x' :: rest => readHexEscape 'x' 2 rest
  | 'u' :: '\x7b' :: rest => readBracedEscape rest
  | 'u' :: rest => readHexEscape 'u' 4 rest
  | c :: _ => if c = '\\' ∨ c = '\x22' ∨ c = '\x27' then .char c 1 else .invalid [c]

theorem readEscape_of_ne {c : Char} {rest : List Char} (hn : c ≠ 'n') (hr : c ≠ 'r')
    (ht : c ≠ 't') (h0 : c ≠ '0') (hx : c ≠ 'x') (hu : c ≠ 'u') :
    readEscape (c :: rest)
      = if c = '\\' ∨ c = '\x22' ∨ c = '\x27' then .char c 1 else .invalid [c] := by
  unfold readEscape
  split <;> simp_all

/-- What the escape that stands at a cursor gives. -/
def Escape.read (cur : Cursor) : Escape → Except ScriptError (Char × Cursor)
  | .cutOff => .error ⟨.unterminatedString, cur.pos⟩
  | .invalid shown => .error ⟨.invalidEscape (String.ofList shown), cur.pos⟩
  | .char c length => .ok (c, cur.skip length)

/-- The value of a string literal that starts at `start`; the cursor stands behind the opening
    quote. -/
def readString (quote : Char) (start : Position) (cur : Cursor) :
    Except ScriptError (List Char × Cursor) :=
  match _h : cur.rest with
  | [] => .error ⟨.unterminatedString, start⟩
  | c :: rest =>
    if c = '\n' then .error ⟨.unterminatedString, start⟩
    else if c = quote then .ok ([], cur.skip 1)
    else if c = '\\' then
      match readEscape rest with
      | .cutOff => .error ⟨.unterminatedString, (cur.skip 1).pos⟩
      | .invalid shown => .error ⟨.invalidEscape (String.ofList shown), (cur.skip 1).pos⟩
      | .char value length =>
        match readString quote start (cur.skip (length + 1)) with
        | .error e => .error e
        | .ok (text, stop) => .ok (value :: text, stop)
    else
      match readString quote start (cur.skip 1) with
      | .error e => .error e
      | .ok (text, stop) => .ok (c :: text, stop)
termination_by cur.rest.length
decreasing_by all_goals simp only [Cursor.skip_rest, List.length_drop, _h, List.length_cons]; omega

theorem readString_nil (quote : Char) (start pos : Position) :
    readString quote start ⟨pos, []⟩ = .error ⟨.unterminatedString, start⟩ := by
  rw [readString.eq_def]

/-- A text literal at its next character. -/
theorem readString_cons (quote : Char) (start pos : Position) (c : Char) (rest : List Char) :
    readString quote start ⟨pos, c :: rest⟩ =
      if c = '\n' then .error ⟨.unterminatedString, start⟩
      else if c = quote then .ok ([], ⟨pos.advance c, rest⟩)
      else if c = '\\' then
        match readEscape rest with
        | .cutOff => .error ⟨.unterminatedString, pos.advance c⟩
        | .invalid shown => .error ⟨.invalidEscape (String.ofList shown), pos.advance c⟩
        | .char value length =>
          match readString quote start (Cursor.skip ⟨pos.advance c, rest⟩ length) with
          | .error e => .error e
          | .ok (text, stop) => .ok (value :: text, stop)
      else
        match readString quote start ⟨pos.advance c, rest⟩ with
        | .error e => .error e
        | .ok (text, stop) => .ok (c :: text, stop) := by
  rw [readString.eq_def]
  rfl

/-- The same at a backslash, by what the escape gives. -/
theorem readString_escape {quote : Char} (hquote : '\\' ≠ quote) (start pos : Position)
    (rest : List Char) :
    readString quote start ⟨pos, '\\' :: rest⟩ =
      match (readEscape rest).read ⟨pos.advance '\\', rest⟩ with
      | .error e => .error e
      | .ok (value, behind) =>
        match readString quote start behind with
        | .error e => .error e
        | .ok (text, stop) => .ok (value :: text, stop) := by
  rw [readString_cons, if_neg (by decide), if_neg hquote, if_pos rfl]
  cases readEscape rest <;> rfl

def readDigits (cur : Cursor) : List Char × Cursor :=
  cur.takeUntil fun _ rest => !(rest.head?.any Char.isDigit)

/-- The digits after a point, if a point followed by a digit stands here. -/
def readFraction (cur : Cursor) : List Char × Cursor :=
  match cur.rest with
  | '.' :: d :: _ => if d.isDigit then readDigits (cur.skip 1) else ([], cur)
  | _ => ([], cur)

/-- The sign of a power of ten, if one stands here. -/
def readSign (cur : Cursor) : List Char × Cursor :=
  match cur.rest with
  | c :: _ => if c = '+' ∨ c = '-' then ([c], cur.skip 1) else ([], cur)
  | [] => ([], cur)

/-- Neither a letter nor another digit may follow a number that reads `written`. -/
def endNumber (start : Position) (n : Numeral) (written : List Char) (cur : Cursor) :
    Except ScriptError (Numeral × Cursor) :=
  match cur.rest with
  | c :: _ =>
    if Text.isAlphanumeric c || c == '_' then
      .error ⟨.invalidNumber (String.ofList (written ++ [c])), start⟩
    else .ok (n, cur)
  | [] => .ok (n, cur)

/-- The power of ten behind the digits of a number, if there is one; it needs digits. -/
def readPower (start : Position) (whole fraction written : List Char) (cur : Cursor) :
    Except ScriptError (Numeral × Cursor) :=
  if cur.peek? = some 'e' ∨ cur.peek? = some 'E' then
    let (sign, cur) := readSign (cur.skip 1)
    let (power, cur) := readDigits cur
    let written := written ++ 'e' :: sign
    if power.isEmpty then .error ⟨.invalidNumber (String.ofList written), start⟩
    else endNumber start ⟨false, whole, fraction, sign == ['-'], power⟩ (written ++ power) cur
  else endNumber start ⟨false, whole, fraction, false, []⟩ written cur

/-- A number, at whose first character the cursor stands. -/
def readNumber (cur : Cursor) : Except ScriptError (Numeral × Cursor) :=
  let (whole, afterWhole) := readDigits cur
  let (fraction, afterFraction) := readFraction afterWhole
  let written := whole ++ if fraction.isEmpty then [] else '.' :: fraction
  readPower cur.pos whole fraction written afterFraction

/-- The longest symbol at the start of a text. -/
def Symbol.at? (text : List Char) : Option Symbol := all.find? fun s => s.spelling.isPrefixOf text

theorem Symbol.at?_prefix {text : List Char} {s : Symbol} (h : Symbol.at? text = some s) :
    s.spelling <+: text := by
  simpa using List.find?_some h

example : Symbol.at? ['=', '=', 'x'] = some .equal := by decide +kernel

def readName (cur : Cursor) : List Char × Cursor :=
  cur.takeUntil fun _ rest => !(rest.head?.any isNamePart)

/-- A comment up to the end of the line. -/
def readLineComment (cur : Cursor) : Item × Cursor :=
  (.space false, (cur.takeUntil fun _ rest => rest.head? == some '\n').2)

/-- A comment up to the closing mark. -/
def readBlockComment (cur : Cursor) : Except ScriptError (Item × Cursor) :=
  let (text, stop) := (cur.skip 2).takeUntil fun _ rest => ['*', '/'].isPrefixOf rest
  if stop.rest.isEmpty then .error ⟨.unterminatedComment, cur.pos⟩
  else .ok (.space (text.contains '\n'), stop.skip 2)

/-- A word or a space, at whose first character `c` the cursor stands. -/
def readItem (cur : Cursor) (c : Char) : Except ScriptError (Item × Cursor) :=
  if c = '\n' then .ok (.space true, cur.skip 1)
  else if Text.isBlank c then .ok (.space false, cur.skip 1)
  else if ['/', '/'].isPrefixOf cur.rest then .ok (readLineComment cur)
  else if ['/', '*'].isPrefixOf cur.rest then readBlockComment cur
  else if c = '\x22' ∨ c = '\x27' then
    match readString c cur.pos (cur.skip 1) with
    | .error e => .error e
    | .ok (text, stop) => .ok (.word (.text (String.ofList text)), stop)
  -- a point begins a number only in front of a digit
  else if c.isDigit || (c == '.' && (cur.rest.drop 1).head?.any Char.isDigit) then
    match readNumber cur with
    | .error e => .error e
    | .ok (n, stop) => .ok (.word (.number n.toFloat), stop)
  else if isNameStart c then
    let (name, stop) := readName cur
    .ok (.word (.ofName (String.ofList name)), stop)
  else
    match Symbol.at? cur.rest with
    | some s => .ok (.word (.symbol s), cur.skip s.spelling.length)
    | none => .error ⟨.unexpectedCharacter c, cur.pos⟩

/-! ## A lexer as a cursor -/

namespace Lexer

/-- What is left to read, and where that stands. -/
def toCursor (r : Lexer) : Cursor := ⟨r.pos, r.input.toList.drop r.index⟩

/-- What was read, and the cursor where reading it ended. -/
def atCursor {α : Type} (read : α × Lexer) : α × Cursor := (read.1, read.2.toCursor)

@[simp] theorem toCursor_pos (r : Lexer) : r.toCursor.pos = r.pos := rfl

theorem toCursor_ofString (script : String) :
    (ofString script).toCursor = Cursor.ofString script := rfl

/-- Every cursor is that of some lexer. -/
theorem exists_toCursor_eq (cur : Cursor) : ∃ r : Lexer, r.toCursor = cur :=
  ⟨⟨cur.rest.toArray, 0, cur.pos.row, cur.pos.column⟩, rfl⟩

theorem peekAt?_eq (r : Lexer) (n : Nat) : r.peekAt? n = r.toCursor.rest[n]? := by
  rw [peekAt?, toCursor, List.getElem?_drop, Array.getElem?_toList]

theorem peek?_eq (r : Lexer) : r.peek? = r.toCursor.rest.head? := by
  rw [← peekAt?_zero, peekAt?_eq, List.head?_eq_getElem?]

theorem toCursor_of_peek?_none {r : Lexer} (h : r.peek? = none) : r.toCursor = ⟨r.pos, []⟩ := by
  rw [peek?_eq, List.head?_eq_none_iff] at h
  exact congrArg (Cursor.mk r.pos) h

/-- **One step** takes the next character off what is left. -/
theorem toCursor_of_peek? {r : Lexer} {c : Char} (h : r.peek? = some c) :
    r.toCursor = ⟨r.pos, c :: r.advance.2.toCursor.rest⟩ := by
  obtain ⟨hlt, hget⟩ := Array.getElem?_eq_some_iff.mp h
  have hdrop : r.input.toList.drop r.index = c :: r.input.toList.drop (r.index + 1) := by
    rw [List.drop_eq_getElem_cons (by simpa using hlt), Array.getElem_toList, hget]
  rw [toCursor, toCursor, input_advance, index_advance h, hdrop]

/-- It moves past that character, as a cursor does. -/
theorem toCursor_advance {r : Lexer} {c : Char} (h : r.peek? = some c) :
    r.advance.2.toCursor = ⟨r.pos.advance c, r.advance.2.toCursor.rest⟩ :=
  congrArg (Cursor.mk · _) (pos_advance h)

theorem toCursor_advance_eq_skip (r : Lexer) : r.advance.2.toCursor = r.toCursor.skip 1 := by
  cases h : r.peek? with
  | none => rw [advance_of_none h, toCursor_of_peek?_none h]; rfl
  | some c => rw [toCursor_of_peek? h, toCursor_advance h]; rfl

theorem toCursor_advanceBy (r : Lexer) (n : Nat) :
    (r.advanceBy n).toCursor = r.toCursor.skip n := by
  induction n generalizing r with
  | zero => rfl
  | succ n ih => rw [advanceBy, ih, toCursor_advance_eq_skip, Nat.add_comm, Cursor.skip_add]

theorem length_rest_toCursor (r : Lexer) : r.toCursor.rest.length = r.left := by
  rw [toCursor, List.length_drop, Array.length_toList, left]

/-! ## Characters of a class, and texts that stand here -/

theorem atCursor_takeWhile (p : Char → Bool) (r : Lexer) :
    atCursor (r.takeWhile p) = r.toCursor.takeUntil fun _ rest => !(rest.head?.any p) := by
  fun_induction takeWhile p r with
  | case1 r h => rw [toCursor_of_peek?_none h, Cursor.takeUntil_nil, ← toCursor_of_peek?_none h]; rfl
  | case2 r c h hp text stop hread ih =>
    rw [hread] at ih
    rw [toCursor_of_peek? h, Cursor.takeUntil_cons (by simp [hp]), ← toCursor_advance h, ← ih]
    rfl
  | case3 r c h hp =>
    rw [toCursor_of_peek? h, Cursor.takeUntil_of_stop (by simp [hp]), ← toCursor_of_peek? h]
    rfl

/-- At most so many characters of a class are a first part of what is left. -/
theorem takeUpTo_eq (p : Char → Bool) (r : Lexer) (n : Nat) :
    (r.takeUpTo p n).1 = (r.toCursor.rest.take n).takeWhile p ∧
      (r.takeUpTo p n).2.toCursor = r.toCursor.skip (r.takeUpTo p n).1.length := by
  fun_induction takeUpTo p r n with
  | case1 r => exact ⟨by simp, rfl⟩
  | case2 r n h => rw [toCursor_of_peek?_none h]; exact ⟨by simp, rfl⟩
  | case3 r n c h hp text stop hread ih =>
    rw [hread] at ih
    obtain ⟨htext, hstop⟩ := ih
    refine ⟨?_, ?_⟩
    · rw [toCursor_of_peek? h, List.take_succ_cons, List.takeWhile_cons_of_pos hp, ← htext]
    · rw [hstop, toCursor_advance_eq_skip, ← Cursor.skip_add, List.length_cons, Nat.add_comm]
  | case4 r n c h hp =>
    rw [toCursor_of_peek? h, List.take_succ_cons, List.takeWhile_cons_of_neg hp]
    exact ⟨rfl, rfl⟩

theorem startsWith_eq (r : Lexer) (text : List Char) :
    r.startsWith text = text.isPrefixOf r.toCursor.rest := by
  -- the characters are compared each at its own distance from here
  suffices h : ∀ k, ((text.zipIdx k).all fun p => r.peekAt? p.2 == some p.1)
      = text.isPrefixOf (r.toCursor.rest.drop k) from h 0
  intro k
  induction text generalizing k with
  | nil => rfl
  | cons c text ih =>
    rw [List.zipIdx_cons, List.all_cons, ih, peekAt?_eq]
    cases hdrop : r.toCursor.rest.drop k with
    | nil =>
      rw [List.drop_eq_nil_iff] at hdrop
      rw [List.getElem?_eq_none hdrop]
      rfl
    | cons d rest =>
      have hget : r.toCursor.rest[k]? = some d := by
        rw [← List.head?_drop, hdrop]
        rfl
      have htail : r.toCursor.rest.drop (k + 1) = rest := by
        rw [← List.drop_drop, hdrop]
        rfl
      rw [hget, htail, List.isPrefixOf_cons_cons]
      congr 1
      exact Bool.beq_comm.trans rfl

/-! ## String literals -/

theorem readHexEscape_eq {letter : Char} {count : Nat} {cur : Cursor} {r : Lexer}
    (h : r.toCursor = cur.skip 1) :
    (r.readHexEscape letter count cur.pos).map atCursor
      = (Script.readHexEscape letter count r.toCursor.rest).read cur := by
  obtain ⟨hhex, hstop⟩ := takeUpTo_eq isHexDigit r count
  simp only [readHexEscape, Script.readHexEscape, ← hhex]
  generalize r.takeUpTo isHexDigit count = read at hstop ⊢
  obtain ⟨hex, stop⟩ := read
  by_cases hlength : hex.length = count
  · have hskip : stop.toCursor = cur.skip (count + 1) := by
      rw [hstop, h, ← Cursor.skip_add, hlength, Nat.add_comm]
    rw [if_pos hlength, if_pos hlength]
    cases charOfHex? hex with
    | none => rfl
    | some c => exact congrArg (fun cur => Except.ok (c, cur)) hskip
  · rw [if_neg hlength, if_neg hlength]
    rfl

theorem readBracedEscape_eq {cur : Cursor} {r : Lexer} (h : r.toCursor = cur.skip 2) :
    (r.readBracedEscape cur.pos).map atCursor
      = (Script.readBracedEscape r.toCursor.rest).read cur := by
  obtain ⟨hhex, hstop⟩ := takeUpTo_eq isHexDigit r 6
  simp only [readBracedEscape, Script.readBracedEscape, ← hhex]
  generalize r.takeUpTo isHexDigit 6 = read at hstop ⊢
  obtain ⟨hex, stop⟩ := read
  have hclosing : stop.advance.1 = (r.toCursor.rest.drop hex.length).head? := by
    rw [advance_fst, peek?_eq, hstop, Cursor.skip_rest]
  have hskip : stop.advance.2.toCursor = cur.skip (hex.length + 3) := by
    have hcount : 2 + (hex.length + 1) = hex.length + 3 := by omega
    rw [toCursor_advance_eq_skip, hstop, h, ← Cursor.skip_add, ← Cursor.skip_add]
    exact congrArg cur.skip hcount
  simp only [hclosing]
  split
  · rfl
  · cases charOfHex? hex with
    | none => rfl
    | some c => exact congrArg (fun cur => Except.ok (c, cur)) hskip

/-- Where a character was read, it stood at the front of what was left. -/
theorem toCursor_of_advance {r stop : Lexer} {c : Char} (h : r.advance = (some c, stop)) :
    r.toCursor = ⟨r.pos, c :: stop.toCursor.rest⟩ ∧
      stop.toCursor = ⟨r.pos.advance c, stop.toCursor.rest⟩ := by
  obtain ⟨hpeek, rfl⟩ := advance_eq_some h
  exact ⟨toCursor_of_peek? hpeek, toCursor_advance hpeek⟩

theorem toCursor_of_advance_eq_skip {r stop : Lexer} {c : Char} (h : r.advance = (some c, stop)) :
    stop.toCursor = r.toCursor.skip 1 :=
  (advance_eq_some h).2 ▸ toCursor_advance_eq_skip r

/-- Where none was, nothing was left. -/
theorem toCursor_of_advance_none {r stop : Lexer} (h : r.advance = (none, stop)) :
    r.toCursor = ⟨r.pos, []⟩ :=
  toCursor_of_peek?_none (by rw [← advance_fst, h])

theorem readEscape_eq (r : Lexer) :
    r.readEscape.map atCursor = (Script.readEscape r.toCursor.rest).read r.toCursor := by
  unfold readEscape
  split
  case h_1 hadvance =>
    rw [toCursor_of_advance_none hadvance]
    rfl
  case h_2 hadvance | h_3 hadvance | h_4 hadvance | h_5 hadvance =>
    obtain ⟨hcur, hstop⟩ := toCursor_of_advance hadvance
    rw [Except.map, atCursor, hstop, hcur]
    rfl
  case h_6 stop hadvance =>
    obtain ⟨hcur, -⟩ := toCursor_of_advance hadvance
    have hskip := toCursor_of_advance_eq_skip hadvance
    rw [← toCursor_pos, readHexEscape_eq hskip, hcur]
    rfl
  case h_7 stop hadvance =>
    obtain ⟨hcur, -⟩ := toCursor_of_advance hadvance
    have hskip := toCursor_of_advance_eq_skip hadvance
    split
    · rename_i hbrace
      have hbehind : stop.advance.2.toCursor = r.toCursor.skip 2 := by
        rw [toCursor_advance_eq_skip, hskip, ← Cursor.skip_add]
      rw [← toCursor_pos, readBracedEscape_eq hbehind, hcur, toCursor_of_peek? hbrace]
      rfl
    · rename_i hbrace
      rw [← toCursor_pos, readHexEscape_eq hskip, hcur]
      -- the readers over a cursor tell the brace by the text itself
      rw [peek?_eq] at hbrace
      cases hrest : stop.toCursor.rest with
      | nil => rfl
      | cons d rest =>
        have hd : d ≠ '\x7b' := by simpa [hrest] using hbrace
        simp [Script.readEscape, hd]
  case h_8 c stop hn hr ht h0 hx hu hadvance =>
    obtain ⟨hcur, hstop⟩ := toCursor_of_advance hadvance
    rw [hcur, readEscape_of_ne hn hr ht h0 hx hu]
    split
    · exact congrArg (fun cur => Except.ok (c, cur)) hstop
    · rfl

theorem readString_eq (quote : Char) (start : Position) (r : Lexer) :
    (r.readString quote start).map atCursor = Script.readString quote start r.toCursor := by
  fun_induction readString quote start r with
  | case1 r stop hadvance =>
    rw [toCursor_of_advance_none hadvance, readString_nil]
    rfl
  | case2 r stop hadvance =>
    rw [(toCursor_of_advance hadvance).1, readString_cons, if_pos rfl]
    rfl
  | case3 r stop hadvance hline =>
    obtain ⟨hcur, hstop⟩ := toCursor_of_advance hadvance
    rw [hcur, readString_cons, if_neg hline, if_pos rfl, ← hstop]
    rfl
  | case4 r stop e hescape hadvance hline hquote =>
    obtain ⟨hcur, hstop⟩ := toCursor_of_advance hadvance
    rw [hcur, readString_escape hquote, ← hstop, ← readEscape_eq, hescape]
    rfl
  | case5 _ _ _ _ hescape _ hread hadvance _ hquote ih
  | case6 _ _ _ _ hescape _ _ hread hadvance _ hquote ih =>
    -- behind an escape, the rest of the text is read or fails as it does there
    obtain ⟨hcur, hstop⟩ := toCursor_of_advance hadvance
    rw [hread] at ih
    rw [hcur, readString_escape hquote, ← hstop, ← readEscape_eq, hescape]
    simp only [Except.map, atCursor] at ih ⊢
    rw [← ih]
  | case7 _ _ _ hadvance hline hquote hslash _ hread ih
  | case8 _ _ _ hadvance hline hquote hslash _ _ hread ih =>
    obtain ⟨hcur, hstop⟩ := toCursor_of_advance hadvance
    rw [hread] at ih
    rw [hcur, readString_cons, if_neg hline, if_neg hquote, if_neg hslash, ← hstop, ← ih]
    rfl

/-! ## Numbers -/

theorem readDigits_eq (r : Lexer) : atCursor r.readDigits = Script.readDigits r.toCursor :=
  atCursor_takeWhile Char.isDigit r

theorem readFraction_eq (r : Lexer) : atCursor r.readFraction = Script.readFraction r.toCursor := by
  have hdigits := readDigits_eq r.advance.2
  rw [toCursor_advance_eq_skip] at hdigits
  rw [readFraction, peek?_eq, peekAt?_eq, Script.readFraction, ← hdigits]
  rcases r.toCursor.rest with _ | ⟨c, _ | ⟨d, rest⟩⟩
  · rfl
  · simp [atCursor]
  · by_cases hpoint : c = '.'
    · by_cases hd : d.isDigit = true <;> simp [hpoint, hd, atCursor]
    · simp [hpoint, atCursor]

theorem readSign_eq (r : Lexer) : atCursor r.readSign = Script.readSign r.toCursor := by
  rw [readSign, peek?_eq, Script.readSign, ← toCursor_advance_eq_skip]
  cases r.toCursor.rest with
  | nil => rfl
  | cons c rest =>
    by_cases hsign : c = '+' ∨ c = '-' <;> simp [hsign, atCursor]

theorem endNumber_eq (start : Position) (n : Numeral) (written : List Char) (r : Lexer) :
    (r.endNumber start n written).map atCursor = Script.endNumber start n written r.toCursor := by
  rw [endNumber, peek?_eq, Script.endNumber]
  cases r.toCursor.rest with
  | nil => rfl
  | cons c rest =>
    simp only [List.head?_cons]
    split <;> rfl

theorem readPower_eq (start : Position) (whole fraction written : List Char) (r : Lexer) :
    (r.readPower start whole fraction written).map atCursor
      = Script.readPower start whole fraction written r.toCursor := by
  have hsign := readSign_eq r.advance.2
  have hpower := readDigits_eq r.advance.2.readSign.2
  rw [toCursor_advance_eq_skip] at hsign
  simp only [readPower, peek?_eq, Script.readPower, Cursor.peek?, ← hsign]
  simp only [atCursor, ← hpower]
  split
  · split
    · rfl
    · exact endNumber_eq _ _ _ _
  · exact endNumber_eq _ _ _ _

theorem readNumber_eq (r : Lexer) : r.readNumber.map atCursor = Script.readNumber r.toCursor := by
  have hfraction := readFraction_eq r.readDigits.2
  simp only [readNumber, Script.readNumber, ← readDigits_eq]
  simp only [atCursor, ← hfraction]
  exact readPower_eq _ _ _ _ _

/-! ## Items -/

theorem isPrefixOf_pair {a b c : Char} {rest : List Char} :
    [a, b].isPrefixOf (c :: rest) = true ↔ c = a ∧ rest.head? = some b := by
  rw [List.isPrefixOf_cons_cons, Bool.and_eq_true, beq_iff_eq, eq_comm (a := a)]
  cases rest with
  | nil => simp
  | cons d rest => simp [eq_comm (a := b)]

theorem skipComment_eq (start : Position) (broken : Bool) (r : Lexer) :
    (r.skipComment start broken).map atCursor =
      (let (text, stop) := r.toCursor.takeUntil fun _ rest => ['*', '/'].isPrefixOf rest
      if stop.rest.isEmpty then .error ⟨.unterminatedComment, start⟩
      else .ok (broken || text.contains '\n', stop.skip 2)) := by
  fun_induction skipComment start broken r with
  | case1 broken r stop hadvance =>
    rw [toCursor_of_advance_none hadvance, Cursor.takeUntil_nil]
    rfl
  | case2 broken r c stop hadvance hend =>
    obtain ⟨hcur, -⟩ := toCursor_of_advance hadvance
    have hbehind : stop.advance.2.toCursor = r.toCursor.skip 2 := by
      rw [toCursor_advance_eq_skip, toCursor_of_advance_eq_skip hadvance, ← Cursor.skip_add]
    rw [peek?_eq] at hend
    rw [Except.map, atCursor, hbehind, hcur, Cursor.takeUntil_of_stop (isPrefixOf_pair.mpr hend)]
    simp
  | case3 broken r c stop hadvance hend ih =>
    obtain ⟨hcur, hstop⟩ := toCursor_of_advance hadvance
    rw [peek?_eq, ← isPrefixOf_pair, Bool.not_eq_true] at hend
    rw [ih, hcur, Cursor.takeUntil_cons hend, ← hstop]
    simp only [List.contains_cons, Bool.or_assoc, BEq.comm (a := c)]

/-- A comment that starts here is read from behind its opening mark. -/
theorem readBlockComment_eq (r : Lexer) :
    r.readBlockComment.map atCursor = Script.readBlockComment r.toCursor := by
  have hcomment := skipComment_eq r.pos false r.advance.2.advance.2
  have hbehind : r.advance.2.advance.2.toCursor = r.toCursor.skip 2 := r.toCursor_advanceBy 2
  simp only [hbehind, Bool.false_or] at hcomment
  simp only [readBlockComment, Script.readBlockComment, toCursor_pos]
  split at hcomment
  · rename_i hend
    rw [if_pos hend]
    split <;> simp_all [Except.map]
  · rename_i hend
    rw [if_neg hend]
    split <;> simp_all [Except.map, atCursor]

theorem symbol?_eq (r : Lexer) : r.symbol? = Symbol.at? r.toCursor.rest := by
  simp only [symbol?, Symbol.at?, startsWith_eq]

/-- A comment up to the end of the line passes what is not a line break. -/
theorem readLineComment_eq (r : Lexer) :
    (.space false, (r.takeWhile (· != '\n')).2.toCursor) = readLineComment r.toCursor := by
  have htake : (r.takeWhile (· != '\n')).2.toCursor
      = (r.toCursor.takeUntil fun _ rest => !(rest.head?.any (· != '\n'))).2 :=
    congrArg Prod.snd (atCursor_takeWhile _ r)
  rw [htake, readLineComment]
  congr 2
  exact Cursor.takeUntil_congr (fun pos c rest => by simp [bne]) _

theorem readItem_eq {r : Lexer} {c : Char} (hpeek : r.peek? = some c) :
    (r.readItem c).map atCursor = Script.readItem r.toCursor c := by
  have hskip := toCursor_advance_eq_skip r
  have hrest : r.toCursor.rest = c :: r.advance.2.toCursor.rest := by
    rw [toCursor_of_peek? hpeek]
  have hnext : r.peekAt? 1 = r.advance.2.toCursor.rest.head? := by
    rw [peekAt?_eq, hrest, List.getElem?_cons_succ, List.head?_eq_getElem?]
  have hslash : ∀ d, ['/', d].isPrefixOf r.toCursor.rest = true ↔ c = '/' ∧ r.peekAt? 1 = some d := by
    intro d
    rw [hrest, hnext, isPrefixOf_pair]
  have hdigit : (r.toCursor.rest.drop 1).head? = r.peekAt? 1 := by
    rw [hrest, hnext]
    rfl
  simp only [readItem, Script.readItem, hslash, hdigit, apply_ite (Except.map atCursor)]
  -- both ask the same questions in the same order; what is read in each case remains
  refine ite_congr rfl (fun _ => ?newline) fun _ => ite_congr rfl (fun _ => ?blank) fun _ =>
    ite_congr rfl (fun _ => ?lineComment) fun _ => ite_congr rfl (fun _ => ?blockComment) fun _ =>
    ite_congr rfl (fun _ => ?text) fun _ => ite_congr rfl (fun _ => ?number) fun _ =>
    ite_congr rfl (fun _ => ?name) fun _ => ?symbol
  case newline | blank =>
    rw [← hskip]
    rfl
  case lineComment =>
    rw [← readLineComment_eq]
    rfl
  case blockComment => exact readBlockComment_eq r
  case text =>
    rw [← hskip, toCursor_pos, ← readString_eq]
    cases r.advance.2.readString c r.pos <;> rfl
  case number =>
    rw [← readNumber_eq]
    cases r.readNumber <;> rfl
  case name =>
    rw [readName, ← atCursor_takeWhile]
    rfl
  case symbol =>
    rw [symbol?_eq]
    cases Symbol.at? r.toCursor.rest with
    | none => rfl
    | some s =>
      exact congrArg (fun cur => Except.ok (Item.word (.symbol s), cur)) (r.toCursor_advanceBy _)

end Lexer

/-! ## The whole script -/

/-- A word or a space takes something off what is left. -/
theorem readItem_length_lt {cur stop : Cursor} {c : Char} {rest : List Char} {i : Item}
    (hrest : cur.rest = c :: rest) (h : readItem cur c = .ok (i, stop)) :
    stop.rest.length < cur.rest.length := by
  obtain ⟨r, rfl⟩ := Lexer.exists_toCursor_eq cur
  have hpeek : r.peek? = some c := by rw [r.peek?_eq, hrest, List.head?_cons]
  rw [← Lexer.readItem_eq hpeek] at h
  cases hread : r.readItem c with
  | error e => simp [hread, Except.map] at h
  | ok read =>
    obtain ⟨i', last⟩ := read
    obtain rfl : last.toCursor = stop := by
      simp only [hread, Except.map, Lexer.atCursor, Except.ok.injEq, Prod.mk.injEq] at h
      exact h.2
    rw [Lexer.length_rest_toCursor, Lexer.length_rest_toCursor]
    exact Lexer.left_lt_of_peek? hpeek (Lexer.reaches_readItem hpeek hread)

/-- The lexemes from a cursor on; `broken` says whether a line break was passed since the last
    one. -/
def lexemesFrom (broken : Bool) (cur : Cursor) : Except ScriptError (List Lexeme) :=
  match _hrest : cur.rest with
  | [] => .ok []
  | c :: _ =>
    match _hitem : readItem cur c with
    | .error e => .error e
    | .ok (.space breaks, stop) => lexemesFrom (broken || breaks) stop
    | .ok (.word w, stop) =>
      match lexemesFrom false stop with
      | .error e => .error e
      | .ok others => .ok (⟨w, cur.pos, broken⟩ :: others)
termination_by cur.rest.length
decreasing_by all_goals exact readItem_length_lt _hrest _hitem

theorem lexemesFrom_nil (b : Bool) (pos : Position) : lexemesFrom b ⟨pos, []⟩ = .ok [] := by
  rw [lexemesFrom.eq_def]

/-- A row of lexemes at its next character. -/
theorem lexemesFrom_cons (b : Bool) (pos : Position) (c : Char) (rest : List Char) :
    lexemesFrom b ⟨pos, c :: rest⟩ = match readItem ⟨pos, c :: rest⟩ c with
      | .error e => .error e
      | .ok (.space breaks, stop) => lexemesFrom (b || breaks) stop
      | .ok (.word w, stop) => match lexemesFrom false stop with
        | .error e => .error e
        | .ok others => .ok (⟨w, pos, b⟩ :: others) := by
  rw [lexemesFrom.eq_def]
  dsimp only
  split <;> rename_i hitem <;> simp only [hitem]

namespace Lexer

theorem lexemesFrom_eq (broken : Bool) (r : Lexer) :
    r.lexemesFrom broken = Script.lexemesFrom broken r.toCursor := by
  -- what stands at the cursor, as the lexer has read it
  have hitem {r : Lexer} {c : Char} (hpeek : r.peek? = some c) :
      Script.readItem ⟨r.pos, c :: r.advance.2.toCursor.rest⟩ c = (r.readItem c).map atCursor := by
    rw [readItem_eq hpeek, toCursor_of_peek? hpeek]
  fun_induction lexemesFrom broken r with
  | case1 broken r hpeek => rw [toCursor_of_peek?_none hpeek, lexemesFrom_nil]
  | case2 broken r c hpeek e hread =>
    rw [toCursor_of_peek? hpeek, lexemesFrom_cons, hitem hpeek, hread]
    rfl
  | case3 broken r c hpeek breaks stop hread ih =>
    rw [toCursor_of_peek? hpeek, lexemesFrom_cons, hitem hpeek, hread, ih]
    rfl
  | case4 broken r c hpeek w stop hread e hrest ih =>
    rw [toCursor_of_peek? hpeek, lexemesFrom_cons, hitem hpeek, hread]
    simp only [Except.map, atCursor, ← ih, hrest]
  | case5 broken r c hpeek w stop hread others hrest ih =>
    rw [toCursor_of_peek? hpeek, lexemesFrom_cons, hitem hpeek, hread]
    simp only [Except.map, atCursor, ← ih, hrest]

end Lexer

/-- **The lexemes of a script** are those from the cursor at its start. -/
theorem lexemes_eq (script : String) : lexemes script = lexemesFrom false (.ofString script) :=
  Lexer.lexemesFrom_eq false (.ofString script)

end Stencil.Script
