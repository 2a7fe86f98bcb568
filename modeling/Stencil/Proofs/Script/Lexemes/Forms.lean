/-
  Words by themselves.

  `WordForm w u` says that the characters `u` spell the word `w`, whatever stands around them:
  numbers with or without a fraction and a power of ten, quoted strings, names, and symbols.  The
  readers look ahead at what follows (`Spells`), and what comes of it is that each of them takes the
  longest text that is a word (`Spells.longest`): a number takes all its parts, a name all its
  characters, and of the symbols that fit the longest is taken.
-/
import Stencil.Proofs.Script.Lexemes.Items

namespace Stencil.Script

/-! ## The forms of literals -/

/-- What stands behind a backslash, and the character that is meant. -/
inductive EscapeForm : List Char → Char → Prop where
  | newline : EscapeForm ['n'] '\n'
  | carriageReturn : EscapeForm ['r'] '\r'
  | tab : EscapeForm ['t'] '\t'
  | null : EscapeForm ['0'] '\x00'
  | itself {c : Char} (hc : c = '\\' ∨ c = '\x22' ∨ c = '\x27') : EscapeForm [c] c
  | two {hex : List Char} {c : Char} (hhex : ∀ d ∈ hex, isHexDigit d = true)
      (hlen : hex.length = 2) (hc : charOfHex? hex = some c) : EscapeForm ('x' :: hex) c
  | four {hex : List Char} {c : Char} (hhex : ∀ d ∈ hex, isHexDigit d = true)
      (hlen : hex.length = 4) (hc : charOfHex? hex = some c) : EscapeForm ('u' :: hex) c
  | braced {hex : List Char} {c : Char} (hhex : ∀ d ∈ hex, isHexDigit d = true) (hne : hex ≠ [])
      (hlen : hex.length ≤ 6) (hc : charOfHex? hex = some c) :
      EscapeForm ('u' :: '\x7b' :: (hex ++ ['\x7d'])) c

/-- The inside of a string in quotes of the kind `quote`, and the text that it stands for. -/
inductive StringForm (quote : Char) : List Char → List Char → Prop where
  | nil : StringForm quote [] []
  | plain {c : Char} {u text : List Char} (hline : c ≠ '\n') (hquote : c ≠ quote)
      (hescape : c ≠ '\\') (h : StringForm quote u text) : StringForm quote (c :: u) (c :: text)
  | escape {c : Char} {e u text : List Char} (he : EscapeForm e c) (h : StringForm quote u text) :
      StringForm quote ('\\' :: (e ++ u)) (c :: text)

/-- A point and digits, or nothing. -/
inductive FractionForm : List Char → List Char → Prop where
  | absent : FractionForm [] []
  | present {d : Char} {digits : List Char} (hdigits : ∀ c ∈ d :: digits, c.isDigit = true) :
      FractionForm ('.' :: d :: digits) (d :: digits)

/-- The letter of a power of ten, a sign if there is one, and digits; or nothing. -/
inductive PowerForm : List Char → List Char → List Char → Prop where
  | absent : PowerForm [] [] []
  | present {e d : Char} {sign digits : List Char} (he : e = 'e' ∨ e = 'E')
      (hsign : sign = [] ∨ sign = ['+'] ∨ sign = ['-'])
      (hdigits : ∀ c ∈ d :: digits, c.isDigit = true) :
      PowerForm (e :: (sign ++ d :: digits)) sign (d :: digits)

/-- Digits with or without a fraction, or a fraction alone, and a power of ten if there is one. -/
inductive NumberForm : List Char → Numeral → Prop where
  | mk {whole fraction sign power u v : List Char} (hwhole : ∀ c ∈ whole, c.isDigit = true)
      (hfraction : FractionForm u fraction) (hpower : PowerForm v sign power)
      (hne : whole ≠ [] ∨ u ≠ []) :
      NumberForm (whole ++ u ++ v) ⟨false, whole, fraction, sign == ['-'], power⟩

/-! ## The forms of words -/

/-- The characters are a spelling of the word. -/
inductive WordForm : Word → List Char → Prop where
  | number {u : List Char} {n : Numeral} (h : NumberForm u n) : WordForm (.number n.toFloat) u
  | text {quote : Char} {u text : List Char} (hquote : quote = '\x22' ∨ quote = '\x27')
      (h : StringForm quote u text) :
      WordForm (.text (String.ofList text)) (quote :: (u ++ [quote]))
  | name {c : Char} {u : List Char} (hc : isNameStart c = true)
      (hu : ∀ d ∈ u, isNamePart d = true) :
      WordForm (.ofName (String.ofList (c :: u))) (c :: u)
  | symbol (s : Symbol) : WordForm (.symbol s) s.spelling

/-- No front part of the text that is longer than `u` spells a word. -/
def Longest (u text : List Char) : Prop :=
  ∀ w u', WordForm w u' → u' <+: text → u'.length ≤ u.length

/-- A comment begins with the text. -/
def BeginsComment (text : List Char) : Prop := ['/', '/'] <+: text ∨ ['/', '*'] <+: text

/-! ## Strings -/

theorem EscapeForm.read {e : List Char} {c : Char} (h : EscapeForm e c) (rest : List Char) :
    readEscape (e ++ rest) = .char c e.length := by
  cases h with
  | newline | carriageReturn | tab | null => rfl
  | itself hc => rcases hc with rfl | rfl | rfl <;> rfl
  | two hhex hlen hc =>
    rw [List.length_cons, hlen]
    exact readHexEscape_eq hhex hlen hc rest
  | @four hex _ hhex hlen hc =>
    obtain ⟨d, hex, rfl⟩ := List.exists_cons_of_length_eq_add_one hlen
    have hd : d ≠ '\x7b' := by
      rintro rfl
      exact absurd (hhex _ List.mem_cons_self) (by decide)
    rw [List.length_cons, hlen]
    have := @readHexEscape_eq 'u' _ _ _ hhex hlen hc rest
    simpa [readEscape, hd] using this
  | braced hhex hne hlen hc =>
    have := readBracedEscape_eq hhex hne hlen hc rest
    simpa [readEscape] using this

theorem mem_takeWhile_hex (n : Nat) (rest : List Char) :
    ∀ d ∈ (rest.take n).takeWhile isHexDigit, isHexDigit d = true :=
  fun d hd => List.all_eq_true.mp List.all_takeWhile d hd

theorem readHexEscape_form {letter c : Char} {count n : Nat} {rest : List Char}
    (h : readHexEscape letter count rest = .char c n) :
    ∃ hex, n = count + 1 ∧ hex <+: rest ∧ (∀ d ∈ hex, isHexDigit d = true) ∧
      hex.length = count ∧ charOfHex? hex = some c := by
  have hprefix := (List.takeWhile_prefix isHexDigit).trans (List.take_prefix count rest)
  simp only [readHexEscape] at h
  split at h
  · rename_i hlen
    split at h <;> cases h
    exact ⟨_, rfl, hprefix, mem_takeWhile_hex count rest, hlen, ‹_›⟩
  · cases h

theorem readBracedEscape_form {c : Char} {n : Nat} {rest : List Char}
    (h : readBracedEscape rest = .char c n) :
    ∃ hex, n = hex.length + 3 ∧ hex ++ ['\x7d'] <+: rest ∧ (∀ d ∈ hex, isHexDigit d = true) ∧
      hex ≠ [] ∧ hex.length ≤ 6 ∧ charOfHex? hex = some c := by
  have hlen : ((rest.take 6).takeWhile isHexDigit).length ≤ 6 :=
    Nat.le_trans (List.takeWhile_prefix isHexDigit).length_le (List.length_take_le 6 rest)
  obtain ⟨more, hmore⟩ := (List.takeWhile_prefix isHexDigit).trans (List.take_prefix 6 rest)
  have hall := mem_takeWhile_hex 6 rest
  simp only [readBracedEscape] at h
  generalize (rest.take 6).takeWhile isHexDigit = hex at *
  subst hmore
  rw [List.drop_left] at h
  split at h
  · cases h
  · rename_i hbrace
    simp only [Bool.or_eq_true, List.isEmpty_iff, decide_eq_true_eq, not_or, ne_eq,
      Decidable.not_not] at hbrace
    obtain ⟨more, rfl⟩ := List.head?_eq_some_iff.mp hbrace.2
    split at h <;> cases h
    exact ⟨hex, rfl, ⟨more, by simp⟩, hall, hbrace.1, hlen, ‹_›⟩

/-- What is read as an escape has the form of one. -/
theorem readEscape_form {e : List Char} {c : Char} (h : readEscape e = .char c e.length) :
    EscapeForm e c := by
  unfold readEscape at h
  split at h
  · cases h
  · rename_i rest
    obtain rfl : rest = [] := by simpa using (Escape.char.inj h).2
    cases h
    exact .newline
  · rename_i rest
    obtain rfl : rest = [] := by simpa using (Escape.char.inj h).2
    cases h
    exact .carriageReturn
  · rename_i rest
    obtain rfl : rest = [] := by simpa using (Escape.char.inj h).2
    cases h
    exact .tab
  · rename_i rest
    obtain rfl : rest = [] := by simpa using (Escape.char.inj h).2
    cases h
    exact .null
  · obtain ⟨hex, hn, hprefix, hall, hlen, hc⟩ := readHexEscape_form h
    obtain rfl := hprefix.eq_of_length (hlen.trans (Nat.succ.inj hn).symm)
    exact .two hall hlen hc
  · obtain ⟨hex, hn, hprefix, hall, hne, hlen, hc⟩ := readBracedEscape_form h
    obtain rfl := hprefix.eq_of_length (by simpa using hn.symm)
    exact .braced hall hne hlen hc
  · obtain ⟨hex, hn, hprefix, hall, hlen, hc⟩ := readHexEscape_form h
    obtain rfl := hprefix.eq_of_length (hlen.trans (Nat.succ.inj hn).symm)
    exact .four hall hlen hc
  · split at h
    · rename_i hmark
      obtain ⟨rfl, hlen⟩ := Escape.char.inj h
      obtain rfl : _ = [] := by simpa using hlen
      exact .itself hmark
    · cases h

theorem stringForm_iff {quote : Char} {u text : List Char} :
    StringForm quote u text ↔ SpellsText quote u text := by
  constructor
  · intro h
    induction h with
    | nil => exact .nil
    | plain hline hquote hescape _ ih => exact .plain hline hquote hescape ih
    | escape he _ ih => exact .escape he.read ih
  · intro h
    induction h with
    | nil => exact .nil
    | plain hline hquote hescape _ ih => exact .plain hline hquote hescape ih
    | @escape c e _ _ he _ ih =>
      have := he []
      rw [List.append_nil] at this
      exact .escape (readEscape_form this) ih

/-- A string ends at its first quote that no escape takes in, so it says itself where it ends. -/
theorem StringForm.rest_eq {quote : Char} {u u' text text' rest rest' : List Char}
    (hquote : quote = '\x22' ∨ quote = '\x27') (h : StringForm quote u text)
    (h' : StringForm quote u' text') (heq : u' ++ quote :: rest' = u ++ quote :: rest) :
    rest' = rest := by
  have hmarks : quote ≠ '\\' ∧ quote ≠ '\n' := by rcases hquote with rfl | rfl <;> decide
  have hread := (stringForm_iff.mp h).complete hmarks.1 hmarks.2 .start .start rest
  have hread' := (stringForm_iff.mp h').complete hmarks.1 hmarks.2 .start .start rest'
  rw [heq, hread] at hread'
  simp only [Except.ok.injEq, Prod.mk.injEq, Cursor.mk.injEq] at hread'
  exact hread'.2.2.symm

/-! ## Numbers -/

/-- Digits at the start of a text are all that stand there, or a digit follows them. -/
theorem digits_cases {digits digits' rest rest' : List Char}
    (hdigits' : ∀ c ∈ digits', c.isDigit = true) (hdigits : ∀ c ∈ digits, c.isDigit = true)
    (hrest : rest.head?.any Char.isDigit = false) (heq : digits' ++ rest' = digits ++ rest) :
    (digits' = digits ∧ rest' = rest) ∨
      (digits'.length < digits.length ∧ rest'.head?.any Char.isDigit = true) := by
  induction digits' generalizing digits with
  | nil =>
    cases digits with
    | nil => exact Or.inl ⟨rfl, heq⟩
    | cons d digits =>
      refine Or.inr ⟨Nat.succ_pos _, ?_⟩
      rw [List.nil_append] at heq
      simp [heq, hdigits d List.mem_cons_self]
  | cons c digits' ih =>
    cases digits with
    | nil =>
      rw [List.nil_append] at heq
      simp [← heq, hdigits' c List.mem_cons_self] at hrest
    | cons d digits =>
      obtain ⟨rfl, htail⟩ := List.cons.inj heq
      rcases ih (fun x hx => hdigits' x (List.mem_cons_of_mem _ hx))
          (fun x hx => hdigits x (List.mem_cons_of_mem _ hx)) htail with ⟨rfl, h⟩ | ⟨hlt, h⟩
      · exact Or.inl ⟨rfl, h⟩
      · exact Or.inr ⟨Nat.succ_lt_succ hlt, h⟩

/-- No power of ten begins with a digit or a point. -/
theorem PowerForm.eq_nil {v sign power : List Char} (h : PowerForm v sign power)
    (rest : List Char) (hrest : (v ++ rest).head?.any (fun c => c.isDigit || c == '.') = true) :
    v = [] := by
  cases h with
  | absent => rfl
  | present he _ _ => rcases he with rfl | rfl <;> cases hrest

theorem FractionForm.eq_nil {u fraction rest : List Char} (h : FractionForm u fraction)
    (hrest : (u ++ rest).head?.any Char.isDigit = true) : u = [] := by
  cases h with
  | absent => rfl
  | present _ => cases hrest

/-- A sign is no digit, so it is clear where the digits behind it begin. -/
theorem sign_eq {sign sign' more more' : List Char} {d d' : Char} (hd : d.isDigit = true)
    (hd' : d'.isDigit = true) (hsign : sign = [] ∨ sign = ['+'] ∨ sign = ['-'])
    (hsign' : sign' = [] ∨ sign' = ['+'] ∨ sign' = ['-'])
    (heq : sign' ++ d' :: more' = sign ++ d :: more) : sign' = sign ∧ d' :: more' = d :: more := by
  have hread := @readSign_eq sign more hsign d hd .start
  rw [← heq, readSign_eq hsign' hd'] at hread
  simp only [Prod.mk.injEq, Cursor.mk.injEq] at hread
  exact ⟨hread.1, hread.2.2⟩

theorem SpellsPower.length_le {v v' sign sign' power power' rest more : List Char}
    (h : SpellsPower v sign power rest) (h' : PowerForm v' sign' power')
    (heq : v' ++ more = v ++ rest) : v'.length ≤ v.length := by
  cases h' with
  | absent => exact Nat.zero_le _
  | @present e' d' _ digits' he' hsign' hdigits' =>
    cases h with
    | absent hno =>
      have := hno e' (by rw [← List.nil_append rest, ← heq]; rfl)
      exact absurd he' (by simp [this])
    | @present e d sign digits _ he hsign hdigits hrest =>
      simp only [List.cons_append, List.append_assoc, List.cons.injEq] at heq
      obtain ⟨rfl, htail⟩ := sign_eq (hdigits d List.mem_cons_self)
        (hdigits' d' List.mem_cons_self) hsign hsign' heq.2
      rcases digits_cases hdigits' hdigits hrest htail with ⟨hsame, -⟩ | ⟨hlt, -⟩
      · simp [hsame]
      · simp only [List.length_cons, List.length_append] at hlt ⊢
        omega

theorem SpellsFraction.length_le {u u' v v' fraction fraction' sign sign' power power' rest more :
      List Char} (hfraction : SpellsFraction u fraction (v ++ rest))
    (hpower : SpellsPower v sign power rest) (hfraction' : FractionForm u' fraction')
    (hpower' : PowerForm v' sign' power') (heq : u' ++ (v' ++ more) = u ++ (v ++ rest)) :
    u'.length + v'.length ≤ u.length + v.length := by
  cases hfraction' with
  | absent =>
    cases hfraction with
    | absent _ => simpa using hpower.length_le hpower' heq
    | present _ _ =>
      obtain rfl := hpower'.eq_nil more (by rw [← List.nil_append (v' ++ more), heq]; rfl)
      exact Nat.zero_le _
  | @present d' digits' hdigits' =>
    cases hfraction with
    | absent hno =>
      rw [List.nil_append] at heq
      simp [← heq, pointsToDigit, hdigits' d' List.mem_cons_self] at hno
    | present hdigits hrest =>
      rcases digits_cases hdigits' hdigits hrest (List.cons.inj heq).2 with
        ⟨hsame, hrest⟩ | ⟨hlt, hdigit⟩
      · have := hpower.length_le hpower' hrest
        simp only [hsame, List.length_cons]
        omega
      · obtain rfl := hpower'.eq_nil more (by
          cases hhead : (v' ++ more).head? with
          | none => rw [hhead] at hdigit; cases hdigit
          | some c => rw [hhead] at hdigit; simpa using Or.inl hdigit)
        simp only [List.length_cons, List.length_nil] at hlt ⊢
        omega

/-- **A number takes all that can belong to it.** -/
theorem SpellsNumber.length_le {u u' rest more : List Char} {n n' : Numeral} :
    SpellsNumber u n rest → NumberForm u' n' → u' ++ more = u ++ rest → u'.length ≤ u.length
  | @SpellsNumber.mk whole _ _ f p _ _ hwhole hafter hfraction hpower _ _,
    @NumberForm.mk whole' _ _ _ f' p' hwhole' hfraction' hpower' _, heq => by
    have heq' : whole' ++ (f' ++ (p' ++ more)) = whole ++ (f ++ (p ++ rest)) := by
      simpa only [List.append_assoc] using heq
    rw [List.append_assoc] at hafter
    rcases digits_cases hwhole' hwhole hafter heq' with ⟨rfl, hrest⟩ | ⟨hlt, hdigit⟩
    · have := hfraction.length_le hpower hfraction' hpower' hrest
      simp only [List.length_append]
      omega
    · obtain rfl := hfraction'.eq_nil hdigit
      rw [List.nil_append] at hdigit
      obtain rfl := hpower'.eq_nil more (by
        cases hhead : (p' ++ more).head? with
        | none => rw [hhead] at hdigit; cases hdigit
        | some c => rw [hhead] at hdigit; simpa using Or.inl hdigit)
      simp only [List.length_append, List.length_nil]
      omega

/-! ## Words -/

theorem SpellsFraction.form {u fraction rest : List Char} :
    SpellsFraction u fraction rest → FractionForm u fraction
  | .absent _ => .absent
  | .present hdigits _ => .present hdigits

theorem SpellsPower.form {v sign power rest : List Char} :
    SpellsPower v sign power rest → PowerForm v sign power
  | .absent _ => .absent
  | .present he hsign hdigits _ => .present he hsign hdigits

theorem SpellsNumber.form {u rest : List Char} {n : Numeral} :
    SpellsNumber u n rest → NumberForm u n
  | .mk hwhole _ hfraction hpower _ hne => .mk hwhole hfraction.form hpower.form hne

/-- What spells a word in front of some text spells it by itself. -/
theorem Spells.wordForm {w : Word} {u rest : List Char} (h : Spells (.word w) u rest) :
    WordForm w u := by
  generalize hi : Item.word w = i at h
  cases h with
  | lineBreak | blank | lineComment | blockComment => cases hi
  | text hquote h =>
    cases hi
    exact .text hquote (stringForm_iff.mpr h)
  | number h =>
    cases hi
    exact .number h.form
  | name hc hu _ =>
    cases hi
    exact .name hc hu
  | symbol _ _ _ _ =>
    cases hi
    exact .symbol _

theorem NumberForm.head {u : List Char} {n : Numeral} : NumberForm u n →
    ∃ c v, u = c :: v ∧ (c.isDigit = true ∨ c = '.' ∧ v.head?.any Char.isDigit = true)
  | @NumberForm.mk whole _ _ _ _ _ hwhole hfraction _ hne => by
    cases whole with
    | cons c whole => exact ⟨c, _, rfl, Or.inl (hwhole c List.mem_cons_self)⟩
    | nil =>
      cases hfraction with
      | absent => exact absurd rfl (hne.resolve_left (by simp))
      | present hdigits =>
        exact ⟨'.', _, rfl, Or.inr ⟨rfl, by simp [hdigits _ List.mem_cons_self]⟩⟩

theorem WordForm.ne_nil {w : Word} {u : List Char} (h : WordForm w u) : u ≠ [] := by
  cases h with
  | number h =>
    obtain ⟨c, v, rfl, -⟩ := h.head
    simp
  | symbol s => exact s.spelling_ne_nil
  | _ => simp

/-- What kind of word it is shows in the first character; a point needs a look at the next. -/
theorem WordForm.cons_cases {w : Word} {c : Char} {u : List Char} (h : WordForm w (c :: u)) :
    ((c = '\x22' ∨ c = '\x27') ∧ ∃ v text, StringForm c v text ∧ u = v ++ [c]) ∨
    ((c.isDigit = true ∨ c = '.' ∧ u.head?.any Char.isDigit = true) ∧
      ∃ n, NumberForm (c :: u) n) ∨
    (isNameStart c = true ∧ ∀ d ∈ u, isNamePart d = true) ∨
    ((c ≠ '\x22' ∧ c ≠ '\x27' ∧ c.isDigit = false ∧ isNameStart c = false) ∧
      ∃ s : Symbol, s.spelling = c :: u) := by
  generalize hw : c :: u = word at h
  cases h with
  | text hquote h =>
    obtain ⟨rfl, rfl⟩ := List.cons.inj hw
    exact Or.inl ⟨hquote, _, _, h, rfl⟩
  | number h =>
    subst hw
    obtain ⟨c', u', heq, hhead⟩ := h.head
    obtain ⟨rfl, rfl⟩ := List.cons.inj heq
    exact Or.inr (Or.inl ⟨hhead, _, h⟩)
  | name hc hu =>
    obtain ⟨rfl, rfl⟩ := List.cons.inj hw
    exact Or.inr (Or.inr (Or.inl ⟨hc, hu⟩))
  | symbol s =>
    obtain ⟨-, -, hmarks⟩ := s.head_spelling (c := c) (by rw [← hw]; rfl)
    exact Or.inr (Or.inr (Or.inr ⟨hmarks, s, rfl⟩))

/-- A point alone is the only symbol that begins with one. -/
theorem Symbol.length_of_point (s : Symbol) (h : s.spelling.head? = some '.') :
    s.spelling.length = 1 := by
  cases s <;> first | rfl | cases h

/-- Of all symbols that a text begins with, the longest is read. -/
theorem Symbol.length_le_of_at? {s t : Symbol} {text : List Char} (h : Symbol.at? text = some s)
    (ht : t.spelling <+: text) : t.spelling.length ≤ s.spelling.length := by
  obtain ⟨-, front, back, hall, hfront⟩ := List.find?_eq_some_iff_append.mp h
  have hmem : t ∈ front ++ s :: back := hall ▸ t.mem_all
  have hsorted : (front ++ s :: back).Pairwise fun s t => t.spelling.length ≤ s.spelling.length :=
    hall ▸ all_sorted
  rcases List.mem_append.mp hmem with hin | hin
  · have hno := hfront t hin
    rw [List.isPrefixOf_iff_prefix.mpr ht] at hno
    cases hno
  · rcases List.mem_cons.mp hin with rfl | hin
    · exact Nat.le_refl _
    · exact (List.pairwise_cons.mp (List.pairwise_append.mp hsorted).2.1).1 t hin

/-- **The longest word is read.**  No front part of the text that is longer than what spells a
    word spells another one, of whatever kind. -/
theorem Spells.longest {w : Word} {u rest : List Char} (h : Spells (.word w) u rest) :
    Longest u (u ++ rest) := by
  rintro w' u' hform ⟨more, heq⟩
  obtain ⟨c, v, rfl⟩ := List.exists_cons_of_ne_nil hform.ne_nil
  generalize hi : Item.word w = i at h
  cases h with
  | lineBreak | blank | lineComment | blockComment => cases hi
  | @text quote u text _ hquote h =>
    simp only [List.cons_append, List.append_assoc, List.cons.injEq, List.nil_append] at heq
    obtain ⟨rfl, htail⟩ := heq
    rcases hform.cons_cases with ⟨-, v', text', h', rfl⟩ | ⟨hc, -⟩ | ⟨hc, -⟩ | ⟨⟨hc, hc', -⟩, -⟩
    · -- both end at the quote that closes them
      have htail' : v' ++ c :: more = u ++ c :: rest := by simpa using htail
      obtain rfl := StringForm.rest_eq hquote (stringForm_iff.mpr h) h' htail'
      have hlen := congrArg List.length htail'
      simp only [List.length_append, List.length_cons] at hlen ⊢
      omega
    · rcases hquote with rfl | rfl <;> simp at hc
    · have := ne_of_isNameStart hc
      rcases hquote with rfl | rfl <;> simp at this
    · rcases hquote with rfl | rfl
      · exact absurd rfl hc
      · exact absurd rfl hc'
  | number h =>
    obtain ⟨c', u, rfl, hhead⟩ := h.form.head
    obtain ⟨rfl, -⟩ := List.cons.inj heq
    have hpoint : c.isDigit = false → c = '.' := fun hno =>
      (hhead.resolve_left (by simp [hno])).1
    rcases hform.cons_cases with ⟨hc, -⟩ | ⟨-, n', h'⟩ | ⟨hc, -⟩ | ⟨⟨-, -, hc, -⟩, s, hs⟩
    · rcases hhead with hdigit | ⟨rfl, -⟩
      · have := ne_of_isDigit hdigit
        exact absurd hc (by simp [this])
      · exact absurd hc (by decide)
    · exact h.length_le h' heq
    · have hdot := hpoint (not_isDigit_of_isNameStart hc)
      exact absurd hdot (ne_of_isNameStart hc).2.2.2.2
    · have := s.length_of_point (by rw [hs, hpoint hc]; rfl)
      rw [← hs, this]
      exact Nat.succ_pos _
  | @name c' u _ hc hu hrest =>
    simp only [List.cons_append, List.cons.injEq] at heq
    obtain ⟨rfl, htail⟩ := heq
    obtain ⟨-, -, hquote, hquote', hpoint⟩ := ne_of_isNameStart hc
    rcases hform.cons_cases with ⟨hc', -⟩ | ⟨hc', -⟩ | ⟨-, hv⟩ | ⟨⟨-, -, -, hc'⟩, -⟩
    · exact absurd hc' (by simp [hquote, hquote'])
    · exact absurd hc' (by simp [not_isDigit_of_isNameStart hc, hpoint])
    · -- what goes on with the name would belong to `u`
      have hu' : (u ++ rest).takeWhile isNamePart = u := takeWhile_append_stop hu hrest
      have hv' : v ++ more.takeWhile isNamePart = u := by
        rw [← List.takeWhile_append_of_pos hv, htail, hu']
      simp [← hv']
    · exact absurd hc (by simp [hc'])
  | @symbol s _ h hline hblock hpoint =>
    have hhead : s.spelling.head? = some c := by
      obtain ⟨d, u, hs⟩ := List.exists_cons_of_ne_nil s.spelling_ne_nil
      rw [hs] at heq ⊢
      rw [(List.cons.inj heq).1]
      rfl
    obtain ⟨-, -, hquote, hquote', hdigit, hname⟩ := s.head_spelling hhead
    rcases hform.cons_cases with ⟨hc, -⟩ | ⟨hc, -⟩ | ⟨hc, -⟩ | ⟨-, t, ht⟩
    · exact absurd hc (by simp [hquote, hquote'])
    · -- a point in front of a digit is no symbol
      obtain ⟨rfl, hnext⟩ := hc.resolve_left (by simp [hdigit])
      rw [← heq, pointsToDigit] at hpoint
      cases v with
      | nil => cases hnext
      | cons d v =>
        have hd : d.isDigit = true := by simpa using hnext
        simp [hd] at hpoint
    · exact absurd hc (by simp [hname])
    · rw [← ht]
      exact Symbol.length_le_of_at? h ⟨more, by rw [ht]; exact heq⟩

/-- Where a word is read no comment begins. -/
theorem Spells.not_beginsComment {w : Word} {u rest : List Char} (h : Spells (.word w) u rest) :
    ¬ BeginsComment (u ++ rest) := by
  have hslash : ∀ c v, u ++ rest = c :: v → c ≠ '/' → ¬ BeginsComment (u ++ rest) := by
    rintro c v heq hc (⟨more, hmore⟩ | ⟨more, hmore⟩)
    all_goals
      rw [heq] at hmore
      exact hc (List.cons.inj hmore).1.symm
  generalize hi : Item.word w = i at h
  cases h with
  | lineBreak | blank | lineComment | blockComment => cases hi
  | text hquote _ => exact hslash _ _ rfl (by rcases hquote with rfl | rfl <;> decide)
  | number h =>
    obtain ⟨c, v, rfl, hc⟩ := h.form.head
    refine hslash c _ rfl ?_
    rcases hc with hc | ⟨rfl, -⟩
    · exact (ne_of_isDigit hc).2.1
    · decide
  | name hc _ _ => exact hslash _ _ rfl (ne_of_isNameStart hc).2.1
  | symbol _ hline hblock _ =>
    rintro (h | h)
    · exact Bool.false_ne_true (hline.symm.trans (List.isPrefixOf_iff_prefix.mpr h))
    · exact Bool.false_ne_true (hblock.symm.trans (List.isPrefixOf_iff_prefix.mpr h))

end Stencil.Script
