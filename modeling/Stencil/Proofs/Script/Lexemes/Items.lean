/-
  Items are read as they are spelled.

  First that a cursor in front of a spelling reads its item and stands behind it
  (`Spells.complete`), then that whatever is read was spelled there (`readItem_sound`).  The
  readers try one kind of item after the other, so the first part needs that a character begins
  items of one kind only.
-/
import Stencil.Proofs.Script.Lexemes.Spelling
import Stencil.Proofs.Text.Classes

namespace Stencil.Script

/-! ## What characters begin -/

theorem isBlank_of_isNameStart {c : Char} (h : isNameStart c = true) : Text.isBlank c = false := by
  simp only [isNameStart, Bool.or_eq_true, beq_iff_eq] at h
  rcases h with (h | rfl) | rfl
  · exact Text.isBlank_of_isAlphabetic h
  · decide
  · decide

theorem not_isDigit_of_isNameStart {c : Char} (h : isNameStart c = true) : c.isDigit = false := by
  simp only [isNameStart, Bool.or_eq_true, beq_iff_eq] at h
  rcases h with (h | rfl) | rfl
  · exact Text.not_isDigit_of_isAlphabetic h
  · decide
  · decide

/-- No mark of the language begins a name. -/
theorem ne_of_isNameStart {c : Char} (h : isNameStart c = true) :
    c ≠ '\n' ∧ c ≠ '/' ∧ c ≠ '\x22' ∧ c ≠ '\x27' ∧ c ≠ '.' := by
  refine ⟨?_, ?_, ?_, ?_, ?_⟩ <;> rintro rfl <;> revert h <;> decide +kernel

theorem isNamePart_of_isNameStart {c : Char} (h : isNameStart c = true) : isNamePart c = true := by
  simp only [isNameStart, isNamePart, Text.isAlphanumeric, Bool.or_eq_true] at h ⊢
  rcases h with (h | h) | h <;> simp [h]

theorem ne_of_isDigit {c : Char} (h : c.isDigit = true) :
    c ≠ '\n' ∧ c ≠ '/' ∧ c ≠ '\x22' ∧ c ≠ '\x27' ∧ c ≠ '.' := by
  refine ⟨?_, ?_, ?_, ?_, ?_⟩ <;> rintro rfl <;> revert h <;> decide

/-- A symbol begins with a mark that begins nothing else, comments and points of numbers apart. -/
theorem Symbol.head_spelling (s : Symbol) {c : Char} (h : s.spelling.head? = some c) :
    c ≠ '\n' ∧ Text.isBlank c = false ∧ c ≠ '\x22' ∧ c ≠ '\x27' ∧ c.isDigit = false ∧
      isNameStart c = false := by
  cases s <;> cases h <;> decide +kernel

/-! ## Escapes -/

theorem takeWhile_append_stop {p : Char → Bool} {front more : List Char}
    (hall : ∀ c ∈ front, p c = true) (hmore : more.head?.any p = false) :
    (front ++ more).takeWhile p = front := by
  rw [List.takeWhile_append_of_pos hall]
  cases more with
  | nil => simp
  | cons c more =>
    rw [List.takeWhile_cons_of_neg (by simpa using hmore), List.append_nil]

theorem readHexEscape_eq {letter c : Char} {count : Nat} {hex : List Char}
    (hall : ∀ d ∈ hex, isHexDigit d = true) (hlen : hex.length = count)
    (hc : charOfHex? hex = some c) (more : List Char) :
    readHexEscape letter count (hex ++ more) = .char c (count + 1) := by
  have hhex : ((hex ++ more).take count).takeWhile isHexDigit = hex := by
    rw [List.take_left' hlen]
    have := takeWhile_append_stop hall (rfl : ([] : List Char).head?.any isHexDigit = false)
    rwa [List.append_nil] at this
  simp only [readHexEscape, hhex, hlen, if_true, hc]

theorem readHexEscape_sound {letter c : Char} {count n : Nat} {rest : List Char}
    (h : readHexEscape letter count rest = .char c n) :
    ∃ hex more, rest = hex ++ more ∧ hex.length = count ∧ n = count + 1 ∧
      ∀ more', readHexEscape letter count (hex ++ more') = .char c (count + 1) := by
  have hall : ∀ d ∈ (rest.take count).takeWhile isHexDigit, isHexDigit d = true :=
    fun d hd => List.all_eq_true.mp List.all_takeWhile d hd
  obtain ⟨more, hmore⟩ := (List.takeWhile_prefix isHexDigit).trans (List.take_prefix count rest)
  simp only [readHexEscape] at h
  generalize (rest.take count).takeWhile isHexDigit = hex at h hall hmore
  split at h
  · rename_i hlen
    split at h
    · rename_i c' hc
      obtain ⟨rfl, rfl⟩ := Escape.char.inj h
      exact ⟨hex, more, hmore.symm, hlen, rfl, readHexEscape_eq hall hlen hc⟩
    · cases h
  · cases h

theorem readBracedEscape_eq {c : Char} {hex : List Char} (hall : ∀ d ∈ hex, isHexDigit d = true)
    (hne : hex ≠ []) (hlen : hex.length ≤ 6) (hc : charOfHex? hex = some c) (more : List Char) :
    readBracedEscape (hex ++ '\x7d' :: more) = .char c (hex.length + 3) := by
  have hhex : ((hex ++ '\x7d' :: more).take 6).takeWhile isHexDigit = hex := by
    rw [List.take_append, List.take_of_length_le hlen]
    refine takeWhile_append_stop hall ?_
    cases 6 - hex.length <;> rfl
  have hempty : hex.isEmpty = false := by simpa using hne
  simp only [readBracedEscape, hhex, hempty, List.drop_left, List.head?_cons, hc]
  simp

theorem readBracedEscape_sound {c : Char} {n : Nat} {rest : List Char}
    (h : readBracedEscape rest = .char c n) :
    ∃ hex more, rest = hex ++ '\x7d' :: more ∧ n = hex.length + 3 ∧
      ∀ more', readBracedEscape (hex ++ '\x7d' :: more') = .char c (hex.length + 3) := by
  have hall : ∀ d ∈ (rest.take 6).takeWhile isHexDigit, isHexDigit d = true :=
    fun d hd => List.all_eq_true.mp List.all_takeWhile d hd
  have hlen : ((rest.take 6).takeWhile isHexDigit).length ≤ 6 :=
    Nat.le_trans (List.takeWhile_prefix isHexDigit).length_le (List.length_take_le 6 rest)
  obtain ⟨more, hmore⟩ := (List.takeWhile_prefix isHexDigit).trans (List.take_prefix 6 rest)
  simp only [readBracedEscape] at h
  generalize (rest.take 6).takeWhile isHexDigit = hex at h hall hlen hmore
  subst hmore
  rw [List.drop_left] at h
  split at h
  · cases h
  · rename_i hbrace
    simp only [Bool.or_eq_true, List.isEmpty_iff, decide_eq_true_eq, not_or, ne_eq,
      Decidable.not_not] at hbrace
    obtain ⟨hne, hhead⟩ := hbrace
    obtain ⟨more, rfl⟩ := List.head?_eq_some_iff.mp hhead
    split at h
    · rename_i c' hc
      obtain ⟨rfl, rfl⟩ := Escape.char.inj h
      exact ⟨hex, more, rfl, rfl, readBracedEscape_eq hall hne hlen hc⟩
    · cases h

/-- An escape is read by itself, whatever follows it. -/
theorem readEscape_sound {c : Char} {n : Nat} {rest : List Char}
    (h : readEscape rest = .char c n) :
    ∃ e more, rest = e ++ more ∧ n = e.length ∧
      ∀ more', readEscape (e ++ more') = .char c e.length := by
  unfold readEscape at h
  split at h
  · cases h
  · cases h; exact ⟨['n'], _, rfl, rfl, fun _ => rfl⟩
  · cases h; exact ⟨['r'], _, rfl, rfl, fun _ => rfl⟩
  · cases h; exact ⟨['t'], _, rfl, rfl, fun _ => rfl⟩
  · cases h; exact ⟨['0'], _, rfl, rfl, fun _ => rfl⟩
  · obtain ⟨hex, more, rfl, hlen, rfl, hstable⟩ := readHexEscape_sound h
    refine ⟨'x' :: hex, more, rfl, by simp [hlen], fun more' => ?_⟩
    rw [List.length_cons, hlen]
    exact hstable more'
  · obtain ⟨hex, more, rfl, rfl, hstable⟩ := readBracedEscape_sound h
    refine ⟨'u' :: '\x7b' :: (hex ++ ['\x7d']), more, by simp, by simp, fun more' => ?_⟩
    have := hstable more'
    simpa [readEscape] using this
  · rename_i rest' hbrace
    obtain ⟨hex, more, rfl, hlen, rfl, hstable⟩ := readHexEscape_sound h
    refine ⟨'u' :: hex, more, rfl, by simp [hlen], fun more' => ?_⟩
    obtain ⟨d, hex, rfl⟩ := List.exists_cons_of_length_eq_add_one hlen
    have hd : d ≠ '\x7b' := fun h => hbrace (hex ++ more) (by rw [h]; rfl)
    rw [List.length_cons, hlen]
    have := hstable more'
    simpa [readEscape, hd] using this
  · split at h
    · rename_i c' rest' _ _ _ _ _ _ _ hmark
      obtain ⟨rfl, rfl⟩ := Escape.char.inj h
      refine ⟨[c'], rest', rfl, rfl, fun more' => ?_⟩
      rcases hmark with rfl | rfl | rfl <;> rfl
    · cases h

/-! ## String literals -/

theorem SpellsText.complete {quote : Char} {u text : List Char} (hquote : quote ≠ '\\')
    (hline : quote ≠ '\n') (h : SpellsText quote u text) (start pos : Position)
    (rest : List Char) :
    readString quote start ⟨pos, u ++ quote :: rest⟩
      = .ok (text, ⟨pos.after (u ++ [quote]), rest⟩) := by
  induction h generalizing pos with
  | nil => rw [List.nil_append, readString_cons, if_neg hline, if_pos rfl]; rfl
  | @plain c u text hc hq he _ ih =>
    rw [List.cons_append, readString_cons, if_neg hc, if_neg hq, if_neg he, ih (pos.advance c)]
    rfl
  | @escape c e u text he _ ih =>
    have hskip : Cursor.skip ⟨pos.advance '\\', e ++ (u ++ quote :: rest)⟩ e.length
        = ⟨pos.after ('\\' :: e), u ++ quote :: rest⟩ := by
      simp [Cursor.skip_eq]
    rw [List.cons_append, readString_cons, if_neg (by decide), if_neg hquote.symm, if_pos rfl,
      List.append_assoc, he]
    simp only [hskip, ih (pos.after ('\\' :: e))]
    rw [← Position.after_append]
    simp

theorem readString_sound {quote : Char} {start : Position} {cur stop : Cursor} {text : List Char}
    (h : readString quote start cur = .ok (text, stop)) :
    ∃ u, cur.Passes (u ++ [quote]) stop ∧ SpellsText quote u text := by
  fun_induction readString quote start cur generalizing text with
  | case3 cur rest hrest _ =>
    simp only [Except.ok.injEq, Prod.mk.injEq] at h
    obtain ⟨rfl, rfl⟩ := h
    exact ⟨[], Cursor.Passes.skip [quote] hrest, .nil⟩
  | case7 cur rest c length hescape text' stop' hrec hrest _ _ ih =>
    simp only [Except.ok.injEq, Prod.mk.injEq] at h
    obtain ⟨rfl, rfl⟩ := h
    obtain ⟨u, hpass, hspells⟩ := ih hrec
    obtain ⟨e, more, rfl, rfl, he⟩ := readEscape_sound hescape
    refine ⟨'\\' :: (e ++ u), ?_, .escape he hspells⟩
    have := (Cursor.Passes.skip ('\\' :: e) hrest).trans hpass
    simpa using this
  | case9 cur c rest hrest hline hquote hescape text' stop' hrec ih =>
    simp only [Except.ok.injEq, Prod.mk.injEq] at h
    obtain ⟨rfl, rfl⟩ := h
    obtain ⟨u, hpass, hspells⟩ := ih hrec
    exact ⟨c :: u, (Cursor.Passes.skip [c] hrest).trans hpass, .plain hline hquote hescape hspells⟩
  | _ => simp at h

/-! ## Numbers -/

theorem readDigits_eq {digits rest : List Char} (hdigits : ∀ c ∈ digits, c.isDigit = true)
    (hrest : rest.head?.any Char.isDigit = false) (pos : Position) :
    readDigits ⟨pos, digits ++ rest⟩ = (digits, ⟨pos.after digits, rest⟩) :=
  Cursor.takeUntil_class hdigits hrest pos

theorem readDigits_sound (cur : Cursor) :
    cur.Passes (readDigits cur).1 (readDigits cur).2 ∧
      (∀ c ∈ (readDigits cur).1, c.isDigit = true) ∧
      (readDigits cur).2.rest.head?.any Char.isDigit = false :=
  ⟨Cursor.Passes.takeUntil _ cur, Cursor.of_mem_takeUntil_class cur,
    Cursor.head?_takeUntil_class cur⟩

theorem SpellsFraction.complete {u digits rest : List Char} (pos : Position) :
    SpellsFraction u digits rest →
      readFraction ⟨pos, u ++ rest⟩ = (digits, ⟨pos.after u, rest⟩)
  | .absent h => by
    match rest with
    | [] => rfl
    | [c] => simp [readFraction]
    | c :: d :: rest =>
      unfold readFraction
      split
      · rename_i d' more heq
        obtain ⟨rfl, rfl, rfl⟩ : c = '.' ∧ d = d' ∧ rest = more := by simpa using heq
        have hd : d.isDigit = false := by simpa [pointsToDigit] using h
        simp [hd]
      · rfl
  | @SpellsFraction.present d _ _ hdigits hrest => by
    have hd : d.isDigit = true := hdigits d List.mem_cons_self
    have := readDigits_eq hdigits hrest (pos.advance '.')
    simp only [readFraction, List.cons_append, hd, if_true, Cursor.skip_eq, List.take_succ_cons,
      List.take_zero, List.drop_succ_cons, List.drop_zero, Position.after_cons, Position.after_nil]
    simpa using this

theorem SpellsFraction.no_point {digits rest : List Char} :
    SpellsFraction [] digits rest → pointsToDigit rest = false
  | .absent h => h

theorem readFraction_sound (cur : Cursor) :
    ∃ u, cur.Passes u (readFraction cur).2 ∧
      SpellsFraction u (readFraction cur).1 (readFraction cur).2.rest := by
  unfold readFraction
  split
  · rename_i d rest hrest
    split
    · rename_i hd
      obtain ⟨hpass, hdigits, hafter⟩ := readDigits_sound (cur.skip 1)
      have hdot := (Cursor.Passes.skip ['.'] hrest).trans hpass
      have hne : (readDigits (cur.skip 1)).1 ≠ [] := by
        intro h
        rw [h] at hpass
        have hskip : (cur.skip 1).rest = d :: rest := by simp [hrest]
        rw [← hpass.rest_eq.trans (List.nil_append _), hskip] at hafter
        simp [hd] at hafter
      generalize (readDigits (cur.skip 1)).1 = digits at *
      cases digits with
      | nil => exact absurd rfl hne
      | cons d digits => exact ⟨_, hdot, .present hdigits hafter⟩
    · rename_i hd
      exact ⟨[], Cursor.Passes.refl cur, .absent (by simp [pointsToDigit, hrest, hd])⟩
  · rename_i hno
    refine ⟨[], Cursor.Passes.refl cur, .absent ?_⟩
    rcases hrest : cur.rest with _ | ⟨c, _ | ⟨d, rest⟩⟩
    · rfl
    · simp [pointsToDigit]
    · have hc : c ≠ '.' := fun h => hno d rest (by rw [hrest, h])
      simp [pointsToDigit, hc]

theorem endNumber_eq {n : Numeral} {written rest : List Char}
    (hrest : rest.head?.any goesOnWithNumber = false) (start pos : Position) :
    endNumber start n written ⟨pos, rest⟩ = .ok (n, ⟨pos, rest⟩) := by
  cases rest with
  | nil => rfl
  | cons c rest =>
    have hc : (Text.isAlphanumeric c || c == '_') = false := hrest
    simp only [endNumber, hc]
    rfl

theorem endNumber_sound {start : Position} {n n' : Numeral} {written : List Char}
    {cur stop : Cursor} (h : endNumber start n written cur = .ok (n', stop)) :
    n' = n ∧ stop = cur ∧ cur.rest.head?.any goesOnWithNumber = false := by
  unfold endNumber at h
  split at h
  · rename_i c rest hrest
    split at h
    · cases h
    · rename_i hc
      cases h
      exact ⟨rfl, rfl, by simpa [hrest, goesOnWithNumber] using hc⟩
  · rename_i hrest
    cases h
    exact ⟨rfl, rfl, by rw [hrest]; rfl⟩

theorem readSign_eq {sign rest : List Char} (hsign : sign = [] ∨ sign = ['+'] ∨ sign = ['-'])
    {d : Char} (hd : d.isDigit = true) (pos : Position) :
    readSign ⟨pos, sign ++ d :: rest⟩ = (sign, ⟨pos.after sign, d :: rest⟩) := by
  rcases hsign with rfl | rfl | rfl
  · have h1 : d ≠ '+' := by rintro rfl; revert hd; decide
    have h2 : d ≠ '-' := by rintro rfl; revert hd; decide
    simp [readSign, h1, h2]
  · rfl
  · rfl

theorem readSign_sound (cur : Cursor) :
    cur.Passes (readSign cur).1 (readSign cur).2 ∧
      ((readSign cur).1 = [] ∨ (readSign cur).1 = ['+'] ∨ (readSign cur).1 = ['-']) := by
  unfold readSign
  split
  · rename_i c rest hrest
    split
    · rename_i hc
      exact ⟨Cursor.Passes.skip [c] hrest, Or.inr (by rcases hc with rfl | rfl <;> simp)⟩
    · exact ⟨Cursor.Passes.refl cur, Or.inl rfl⟩
  · exact ⟨Cursor.Passes.refl cur, Or.inl rfl⟩

theorem SpellsPower.complete {u sign power rest : List Char} (start : Position)
    (whole fraction written : List Char) (pos : Position)
    (hrest : rest.head?.any goesOnWithNumber = false) : SpellsPower u sign power rest →
      readPower start whole fraction written ⟨pos, u ++ rest⟩
        = .ok (⟨false, whole, fraction, sign == ['-'], power⟩, ⟨pos.after u, rest⟩)
  | .absent h => by
    have hno :
        ¬ ((Cursor.mk pos rest).peek? = some 'e' ∨ (Cursor.mk pos rest).peek? = some 'E') := by
      rintro (he | he)
      · exact (h _ he).1 rfl
      · exact (h _ he).2 rfl
    rw [readPower, List.nil_append, if_neg hno]
    exact endNumber_eq hrest start pos
  | @SpellsPower.present e d sign digits _ he hsign hdigits hafter => by
    have hpeek : (Cursor.mk pos (e :: (sign ++ d :: digits) ++ rest)).peek? = some 'e' ∨
        (Cursor.mk pos (e :: (sign ++ d :: digits) ++ rest)).peek? = some 'E' := by
      simpa [Cursor.peek?] using he
    have hskip : (Cursor.mk pos (e :: (sign ++ d :: digits) ++ rest)).skip 1
        = ⟨pos.advance e, sign ++ d :: (digits ++ rest)⟩ := by simp [Cursor.skip_eq]
    have hread := readDigits_eq hdigits hafter ((pos.advance e).after sign)
    rw [List.cons_append] at hread
    rw [readPower, if_pos hpeek, hskip, readSign_eq hsign (hdigits d List.mem_cons_self)]
    dsimp only
    rw [hread]
    dsimp only
    rw [if_neg (by simp), endNumber_eq hrest]
    simp [Position.after_append]

theorem readPower_sound {start : Position} {whole fraction written : List Char}
    {cur stop : Cursor} {n : Numeral}
    (h : readPower start whole fraction written cur = .ok (n, stop)) :
    ∃ u sign power, cur.Passes u stop ∧ SpellsPower u sign power stop.rest ∧
      n = ⟨false, whole, fraction, sign == ['-'], power⟩ ∧
      stop.rest.head?.any goesOnWithNumber = false := by
  unfold readPower at h
  split at h
  · rename_i hpeek
    obtain ⟨e, hcur, he⟩ : ∃ e, cur.peek? = some e ∧ (e = 'e' ∨ e = 'E') := by
      rcases hpeek with hpeek | hpeek <;> exact ⟨_, hpeek, by decide⟩
    obtain ⟨rest, hrest⟩ := List.head?_eq_some_iff.mp hcur
    obtain ⟨hsign, hsigns⟩ := readSign_sound (cur.skip 1)
    obtain ⟨hpower, hdigits, hafter⟩ := readDigits_sound (readSign (cur.skip 1)).2
    have hpass := ((Cursor.Passes.skip [e] hrest).trans hsign).trans hpower
    dsimp only at h
    split at h
    · cases h
    · rename_i hempty
      obtain ⟨rfl, rfl, hend⟩ := endNumber_sound h
      generalize (readDigits (readSign (cur.skip 1)).2).1 = power at *
      cases power with
      | nil => simp at hempty
      | cons d power =>
        refine ⟨_, _, _, hpass, ?_, rfl, hend⟩
        have := SpellsPower.present (e := e) he hsigns hdigits hafter
        simpa using this
  · rename_i hpeek
    obtain ⟨rfl, rfl, hend⟩ := endNumber_sound h
    refine ⟨[], [], [], Cursor.Passes.refl _, .absent fun c hc => ?_, rfl, hend⟩
    refine ⟨?_, ?_⟩ <;> rintro rfl
    · exact hpeek (Or.inl hc)
    · exact hpeek (Or.inr hc)

theorem SpellsNumber.complete {u rest : List Char} {n : Numeral} (pos : Position) :
    SpellsNumber u n rest → readNumber ⟨pos, u ++ rest⟩ = .ok (n, ⟨pos.after u, rest⟩)
  | @SpellsNumber.mk whole _ _ u v _ _ hwhole hafter hfraction hpower hrest _ => by
    rw [List.append_assoc] at hafter
    have h1 := readDigits_eq hwhole hafter pos
    have h2 := hfraction.complete (pos.after whole)
    have h3 := fun fraction written =>
      hpower.complete pos whole fraction written ((pos.after whole).after u) hrest
    rw [readNumber, List.append_assoc, List.append_assoc, h1]
    dsimp only
    rw [h2]
    dsimp only
    rw [h3, Position.after_append, Position.after_append]

theorem readNumber_sound {cur stop : Cursor} {c : Char} {rest : List Char} {n : Numeral}
    (hrest : cur.rest = c :: rest)
    (hc : (c.isDigit || (c == '.' && rest.head?.any Char.isDigit)) = true)
    (h : readNumber cur = .ok (n, stop)) :
    ∃ u, cur.Passes u stop ∧ SpellsNumber u n stop.rest := by
  simp only [readNumber] at h
  obtain ⟨hwhole, hdigits, hafter⟩ := readDigits_sound cur
  obtain ⟨u, hu, hfraction⟩ := readFraction_sound (readDigits cur).2
  obtain ⟨v, sign, power, hv, hpower, rfl, hend⟩ := readPower_sound h
  refine ⟨_, (hwhole.trans hu).trans hv, .mk hdigits ?_ ?_ hpower hend ?_⟩
  · rw [List.append_assoc, ← hv.rest_eq, ← hu.rest_eq]
    exact hafter
  · rw [← hv.rest_eq]
    exact hfraction
  · -- without digits before it, the point stands in front of one
    by_cases hne : (readDigits cur).1 = []
    · refine Or.inr ?_
      rintro rfl
      rw [hne] at hwhole
      have hcur : (readDigits cur).2.rest = c :: rest := by
        rw [← hrest, hwhole.rest_eq, List.nil_append]
      rw [hcur] at hafter
      have hpoint : pointsToDigit (c :: rest) = true := by
        have hd : c.isDigit = false := by simpa using hafter
        simpa [hd, pointsToDigit] using hc
      have h := hfraction.no_point
      rw [← hu.rest_eq.trans (List.nil_append _), hcur, hpoint] at h
      cases h
    · exact Or.inl hne

/-! ## Items -/

theorem SpellsNumber.head {u rest : List Char} {n : Numeral} :
    SpellsNumber u n rest → ∃ c u', u = c :: u' ∧
      (c.isDigit || (c == '.' && (u' ++ rest).head?.any Char.isDigit)) = true
  | @SpellsNumber.mk whole _ _ _ _ _ _ hwhole _ hfraction _ _ hne => by
    cases whole with
    | cons c whole => exact ⟨c, _, rfl, by simp [hwhole c List.mem_cons_self]⟩
    | nil =>
      cases hfraction with
      | absent _ => exact absurd rfl (hne.resolve_left (by simp))
      | present hdigits _ => exact ⟨'.', _, rfl, by simp [hdigits _ List.mem_cons_self]⟩

theorem Spells.ne_nil {i : Item} {u rest : List Char} (h : Spells i u rest) : u ≠ [] := by
  cases h with
  | number h =>
    obtain ⟨c, u, rfl, -⟩ := h.head
    simp
  | symbol _ _ _ _ => exact Symbol.spelling_ne_nil _
  | _ => simp

theorem readLineComment_eq {text rest : List Char} (htext : '\n' ∉ text)
    (hrest : rest = [] ∨ rest.head? = some '\n') (pos : Position) :
    readLineComment ⟨pos, '/' :: '/' :: text ++ rest⟩
      = (.space false, ⟨pos.after ('/' :: '/' :: text), rest⟩) := by
  have hno : ∀ s, s ≠ [] → s <:+ '/' :: '/' :: text → ∀ pos : Position,
      (fun _ rest => rest.head? == some '\n' : Position → List Char → Bool) pos (s ++ rest)
        = false := by
    intro s hs hsuffix _
    cases s with
    | nil => exact absurd rfl hs
    | cons c s =>
      have hc : c ≠ '\n' := by
        rintro rfl
        have hmem := hsuffix.subset List.mem_cons_self
        simp [htext] at hmem
      simpa using hc
  have hstop : rest = [] ∨ ∀ pos : Position,
      (fun _ rest => rest.head? == some '\n' : Position → List Char → Bool) pos rest = true :=
    hrest.imp id fun h _ => by simp [h]
  rw [readLineComment, Cursor.takeUntil_eq hno hstop]

/-- What closes a block comment is seen before the comment ends only where it stands. -/
theorem isPrefixOf_close {s : List Char} (hs : s ≠ []) (rest : List Char) :
    ['*', '/'].isPrefixOf (s ++ '*' :: '/' :: rest) = ['*', '/'].isPrefixOf (s ++ ['*', '/']) := by
  match s with
  | [c] => rfl
  | c :: d :: s => rfl

theorem readBlockComment_eq {text : List Char}
    (htext : ∀ s, s ≠ [] → s <:+ text → ['*', '/'].isPrefixOf (s ++ ['*', '/']) = false)
    (rest : List Char) (pos : Position) :
    readBlockComment ⟨pos, '/' :: '*' :: (text ++ ['*', '/']) ++ rest⟩
      = .ok (.space (text.contains '\n'),
          ⟨pos.after ('/' :: '*' :: (text ++ ['*', '/'])), rest⟩) := by
  have hskip : (Cursor.mk pos ('/' :: '*' :: (text ++ ['*', '/']) ++ rest)).skip 2
      = ⟨pos.after ['/', '*'], text ++ '*' :: '/' :: rest⟩ := by simp [Cursor.skip_eq]
  have hno : ∀ s, s ≠ [] → s <:+ text → ∀ pos : Position,
      (fun _ rest => ['*', '/'].isPrefixOf rest : Position → List Char → Bool) pos
        (s ++ '*' :: '/' :: rest) = false :=
    fun s hs hsuffix _ => (isPrefixOf_close hs rest).trans (htext s hs hsuffix)
  have hread := Cursor.takeUntil_eq hno (Or.inr fun _ => rfl) (pos.after ['/', '*'])
  rw [readBlockComment, hskip, hread]
  simp [Cursor.skip_eq, Position.after_append]

/-- **In front of a spelling, a cursor reads the item.** -/
theorem Spells.complete {i : Item} {c : Char} {u rest : List Char} (h : Spells i (c :: u) rest)
    (pos : Position) :
    readItem ⟨pos, c :: u ++ rest⟩ c = .ok (i, ⟨pos.after (c :: u), rest⟩) := by
  generalize hw : c :: u = w at h
  cases h with
  | lineBreak =>
    obtain ⟨rfl, rfl⟩ := List.cons.inj hw
    rfl
  | blank hc hline =>
    obtain ⟨rfl, rfl⟩ := List.cons.inj hw
    rw [readItem, if_neg hline, if_pos hc]
    rfl
  | lineComment htext hrest =>
    obtain ⟨rfl, rfl⟩ := List.cons.inj hw
    rw [readItem, if_neg (by decide), if_neg (by decide), if_pos (by simp [List.isPrefixOf]),
      readLineComment_eq htext hrest]
  | blockComment htext =>
    obtain ⟨rfl, rfl⟩ := List.cons.inj hw
    rw [readItem, if_neg (by decide), if_neg (by decide), if_neg (by simp [List.isPrefixOf]),
      if_pos (by simp [List.isPrefixOf]), readBlockComment_eq htext]
  | @text quote u text rest hquote h =>
    -- a quote is none of the characters that are looked for before it
    obtain ⟨rfl, rfl⟩ := List.cons.inj hw
    have hmarks : c ≠ '\n' ∧ Text.isBlank c = false ∧ c ≠ '/' ∧ c ≠ '\\' := by
      rcases hquote with rfl | rfl <;> decide
    obtain ⟨hline, hblank, hslash, hescape⟩ := hmarks
    have hread := h.complete hescape hline pos (pos.advance c) rest
    rw [readItem, if_neg hline, if_neg (by simp [hblank]),
      if_neg (by simp [List.isPrefixOf, hslash.symm]),
      if_neg (by simp [List.isPrefixOf, hslash.symm]), if_pos hquote]
    have hskip : (Cursor.mk pos (c :: (u ++ [c]) ++ rest)).skip 1
        = ⟨pos.advance c, u ++ c :: rest⟩ := by simp [Cursor.skip_eq]
    rw [hskip, hread]
    rfl
  | number h =>
    -- a number begins with a digit or with a point, and neither begins anything else
    obtain ⟨c', u', rfl, hc⟩ := h.head
    obtain ⟨rfl, rfl⟩ := List.cons.inj hw
    have hmarks : c ≠ '\n' ∧ Text.isBlank c = false ∧ c ≠ '/' ∧ c ≠ '\x22' ∧ c ≠ '\x27' := by
      by_cases hd : c.isDigit = true
      · have := ne_of_isDigit hd
        exact ⟨this.1, Text.isBlank_of_isDigit hd, this.2.1, this.2.2.1, this.2.2.2.1⟩
      · obtain rfl : c = '.' := by simpa [hd] using (by simpa [hd] using hc : c = '.' ∧ _).1
        decide
    obtain ⟨hline, hblank, hslash, hquote, hquote'⟩ := hmarks
    rw [readItem, if_neg hline, if_neg (by simp [hblank]),
      if_neg (by simp [List.isPrefixOf, hslash.symm]),
      if_neg (by simp [List.isPrefixOf, hslash.symm]), if_neg (by simp [hquote, hquote']),
      if_pos (by simpa using hc), h.complete pos]
  | @name _ u rest hc hu hrest =>
    obtain ⟨rfl, rfl⟩ := List.cons.inj hw
    obtain ⟨hline, hslash, hquote, hquote', hpoint⟩ := ne_of_isNameStart hc
    have hread : readName ⟨pos, c :: u ++ rest⟩ = (c :: u, ⟨pos.after (c :: u), rest⟩) := by
      refine Cursor.takeUntil_class (fun d hd => ?_) hrest pos
      rcases List.mem_cons.mp hd with rfl | hd
      · exact isNamePart_of_isNameStart hc
      · exact hu d hd
    rw [readItem, if_neg hline, if_neg (by simp [isBlank_of_isNameStart hc]),
      if_neg (by simp [List.isPrefixOf, hslash.symm]),
      if_neg (by simp [List.isPrefixOf, hslash.symm]), if_neg (by simp [hquote, hquote']),
      if_neg (by simp [not_isDigit_of_isNameStart hc, hpoint]), if_pos hc, hread]
  | @symbol s rest h hline hblock hpoint =>
    obtain ⟨hnewline, hblank, hquote, hquote', hdigit, hname⟩ :=
      s.head_spelling (c := c) (by rw [← hw]; rfl)
    have hpoint' : (c == '.' && (u ++ rest).head?.any Char.isDigit) = false := by
      rw [← hw] at hpoint
      simpa [pointsToDigit] using hpoint
    have hdrop : (s.spelling ++ rest).drop 1 = u ++ rest := by rw [← hw]; rfl
    rw [readItem, if_neg hnewline, if_neg (by simp [hblank]), if_neg (by simp [hline]),
      if_neg (by simp [hblock]), if_neg (by simp [hquote, hquote'])]
    dsimp only
    rw [hdrop, hdigit, hpoint', Bool.or_false, if_neg (by simp), if_neg (by simp [hname])]
    rw [h]
    simp [Cursor.skip_eq]

theorem readLineComment_sound {cur : Cursor} {rest : List Char}
    (hrest : cur.rest = '/' :: '/' :: rest) :
    ∃ u, cur.Passes u (readLineComment cur).2 ∧
      Spells (.space false) u (readLineComment cur).2.rest := by
  have hpass := Cursor.Passes.takeUntil (fun _ rest => rest.head? == some '\n') cur
  have hno : ∀ c ∈ (cur.takeUntil fun _ rest => rest.head? == some '\n').1, (c == '\n') = false :=
    Cursor.not_stop_of_mem_takeUntil (fun _ _ _ => by simp) cur
  have hstop := Cursor.takeUntil_stops (fun _ rest => rest.head? == some '\n') cur
  refine ⟨_, hpass, ?_⟩
  rw [readLineComment]
  dsimp only
  generalize cur.takeUntil (fun _ rest => rest.head? == some '\n') = out at hpass hno hstop
  have heq := hpass.rest_eq
  rw [hrest] at heq
  have hend : out.2.rest = [] ∨ out.2.rest.head? = some '\n' := by simpa using hstop
  -- the two slashes are no line break, so both of them were taken
  rcases htext : out.1 with _ | ⟨c, _ | ⟨d, text⟩⟩
  · rw [htext, List.nil_append] at heq
    simp [← heq] at hend
  · rw [htext] at heq
    simp only [List.cons_append, List.nil_append, List.cons.injEq] at heq
    simp [← heq.2] at hend
  · rw [htext] at heq hno
    simp only [List.cons_append, List.cons.injEq] at heq
    obtain ⟨rfl, rfl, -⟩ := heq
    exact .lineComment (fun h => by simpa using hno '\n' (by simp [h])) hend

theorem readBlockComment_sound {cur stop : Cursor} {i : Item} {rest : List Char}
    (hrest : cur.rest = '/' :: '*' :: rest) (h : readBlockComment cur = .ok (i, stop)) :
    ∃ u, cur.Passes u stop ∧ Spells i u stop.rest := by
  have hmark := Cursor.Passes.skip ['/', '*'] hrest
  have hpass := Cursor.Passes.takeUntil (fun _ rest => ['*', '/'].isPrefixOf rest) (cur.skip 2)
  have hno : ∀ s, s ≠ [] →
      s <:+ ((cur.skip 2).takeUntil fun _ rest => ['*', '/'].isPrefixOf rest).1 →
        ['*', '/'].isPrefixOf
          (s ++ ((cur.skip 2).takeUntil fun _ rest => ['*', '/'].isPrefixOf rest).2.rest) = false :=
    fun s hs h => Cursor.stop_of_suffix_takeUntil (fun _ _ _ => rfl) (cur.skip 2) hs h cur.pos
  have hstop := Cursor.takeUntil_stops (fun _ rest => ['*', '/'].isPrefixOf rest) (cur.skip 2)
  simp only [readBlockComment] at h
  generalize (cur.skip 2).takeUntil (fun _ rest => ['*', '/'].isPrefixOf rest) = out at *
  obtain ⟨text, close⟩ := out
  dsimp only at *
  split at h
  · cases h
  · rename_i hend
    simp only [Except.ok.injEq, Prod.mk.injEq] at h
    obtain ⟨rfl, rfl⟩ := h
    have hclose : ['*', '/'].isPrefixOf close.rest = true :=
      hstop.resolve_left (by simpa using hend)
    obtain ⟨rest', hrest'⟩ := List.isPrefixOf_iff_prefix.mp hclose
    have hskip := Cursor.Passes.skip ['*', '/'] hrest'.symm
    refine ⟨_, (hmark.trans hpass).trans hskip, ?_⟩
    have : Spells (.space (text.contains '\n')) ('/' :: '*' :: (text ++ ['*', '/']))
        (close.skip 2).rest := by
      refine .blockComment fun s hs hsuffix => ?_
      have := hno s hs hsuffix
      rw [← hrest'] at this
      rw [← isPrefixOf_close hs rest']
      exact this
    simpa using this

theorem readName_sound {cur : Cursor} {c : Char} {rest : List Char} (hrest : cur.rest = c :: rest)
    (hname : isNameStart c = true) :
    ∃ u, cur.Passes u (readName cur).2 ∧
      Spells (.word (.ofName (String.ofList (readName cur).1))) u (readName cur).2.rest := by
  have hpass : cur.Passes (readName cur).1 (readName cur).2 := Cursor.Passes.takeUntil _ cur
  have hall : ∀ c ∈ (readName cur).1, isNamePart c = true := Cursor.of_mem_takeUntil_class cur
  have hafter : (readName cur).2.rest.head?.any isNamePart = false :=
    Cursor.head?_takeUntil_class cur
  have heq := hpass.rest_eq
  rw [hrest] at heq
  rcases htext : (readName cur).1 with _ | ⟨d, text⟩
  · rw [htext, List.nil_append] at heq
    rw [← heq] at hafter
    simp [isNamePart_of_isNameStart hname] at hafter
  · rw [htext] at heq hpass hall
    obtain ⟨rfl, -⟩ := List.cons.inj heq
    exact ⟨_, hpass, .name hname (fun e he => hall e (List.mem_cons_of_mem _ he)) hafter⟩

/-- Whatever is read as an item was spelled there. -/
theorem readItem_sound {cur stop : Cursor} {c : Char} {rest : List Char} {i : Item}
    (hrest : cur.rest = c :: rest) (h : readItem cur c = .ok (i, stop)) :
    ∃ u, cur.Passes u stop ∧ Spells i u stop.rest := by
  unfold readItem at h
  split at h
  · rename_i hc
    subst hc
    simp only [Except.ok.injEq, Prod.mk.injEq] at h
    obtain ⟨rfl, rfl⟩ := h
    exact ⟨_, Cursor.Passes.skip ['\n'] hrest, .lineBreak⟩
  rename_i hline
  split at h
  · rename_i hblank
    simp only [Except.ok.injEq, Prod.mk.injEq] at h
    obtain ⟨rfl, rfl⟩ := h
    exact ⟨_, Cursor.Passes.skip [c] hrest, .blank hblank hline⟩
  split at h
  · rename_i hprefix
    obtain ⟨rest', hrest'⟩ := List.isPrefixOf_iff_prefix.mp hprefix
    have hsound := readLineComment_sound hrest'.symm
    have hitem : (readLineComment cur).1 = .space false := rfl
    simp only [Except.ok.injEq] at h
    rw [h] at hsound hitem
    obtain rfl : i = .space false := hitem
    exact hsound
  rename_i hlineComment
  split at h
  · rename_i hprefix
    obtain ⟨rest', hrest'⟩ := List.isPrefixOf_iff_prefix.mp hprefix
    exact readBlockComment_sound hrest'.symm h
  rename_i hblockComment
  split at h
  · rename_i hquote
    split at h
    · cases h
    · rename_i text stop' hread
      simp only [Except.ok.injEq, Prod.mk.injEq] at h
      obtain ⟨rfl, rfl⟩ := h
      obtain ⟨u, hpass, hspells⟩ := readString_sound hread
      exact ⟨_, (Cursor.Passes.skip [c] hrest).trans hpass, .text hquote hspells⟩
  split at h
  · rename_i hc
    split at h
    · cases h
    · rename_i n stop' hread
      simp only [Except.ok.injEq, Prod.mk.injEq] at h
      obtain ⟨rfl, rfl⟩ := h
      obtain ⟨u, hpass, hspells⟩ := readNumber_sound hrest (by simpa [hrest] using hc) hread
      exact ⟨u, hpass, .number hspells⟩
  rename_i hnumber
  split at h
  · rename_i hname
    simp only [Except.ok.injEq, Prod.mk.injEq] at h
    obtain ⟨rfl, rfl⟩ := h
    exact readName_sound hrest hname
  split at h
  · rename_i s hs
    simp only [Except.ok.injEq, Prod.mk.injEq] at h
    obtain ⟨rfl, rfl⟩ := h
    obtain ⟨rest', hrest'⟩ := Symbol.at?_prefix hs
    have hpass := Cursor.Passes.skip s.spelling hrest'.symm
    have heq := hpass.rest_eq
    refine ⟨_, hpass, .symbol ?_ ?_ ?_ ?_⟩ <;> rw [← heq]
    · exact hs
    · exact Bool.eq_false_iff.mpr hlineComment
    · exact Bool.eq_false_iff.mpr hblockComment
    · simp only [hrest, pointsToDigit, List.head?_cons, List.drop_succ_cons, List.drop_zero]
      simpa [hrest] using fun h : c = '.' => (by simpa [h, hrest] using hnumber)
  · cases h

/-- **A cursor reads an item exactly when it passes a spelling of it.** -/
theorem readItem_eq_ok_iff {cur stop : Cursor} {c : Char} {rest : List Char} {i : Item}
    (hrest : cur.rest = c :: rest) :
    readItem cur c = .ok (i, stop) ↔ ∃ u, cur.Passes u stop ∧ Spells i u stop.rest := by
  constructor
  · exact readItem_sound hrest
  · rintro ⟨u, hpass, hspells⟩
    obtain ⟨pos, text⟩ := cur
    obtain ⟨pos', rest'⟩ := stop
    obtain ⟨htext, rfl⟩ := hpass
    dsimp only at htext hrest hspells
    cases u with
    | nil => exact absurd rfl hspells.ne_nil
    | cons d u =>
      obtain ⟨rfl, -⟩ := List.cons.inj (htext.symm.trans hrest)
      rw [htext]
      exact hspells.complete pos

end Stencil.Script
