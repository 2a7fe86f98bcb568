/-
  How items are spelled.

  `Spells i u rest` says that the characters `u` are the item `i` when `rest` follows them: what
  kinds of items there are, what they are made of, and how far each one looks ahead.  A cursor
  reads an item exactly when it passes such a spelling (`readItem_eq_ok_iff`), whatever its
  position is.  What follows an item counts for so little that one gap may take the place of
  another (`Spells.change_gap`).
-/
import Stencil.Proofs.Text.Passes
import Stencil.Proofs.Script.Lexemes.Cursors

namespace Stencil.Script

/-! ## The parts of literals -/

/-- The inside of a string literal in quotes of the kind `quote`, and the text it stands for.  An
    escape says by itself where it ends. -/
inductive SpellsText (quote : Char) : List Char → List Char → Prop where
  | nil : SpellsText quote [] []
  | plain {c : Char} {u text : List Char} (hline : c ≠ '\n') (hquote : c ≠ quote)
      (hescape : c ≠ '\\') (h : SpellsText quote u text) : SpellsText quote (c :: u) (c :: text)
  | escape {c : Char} {e u text : List Char}
      (he : ∀ rest, readEscape (e ++ rest) = .char c e.length) (h : SpellsText quote u text) :
      SpellsText quote ('\\' :: (e ++ u)) (c :: text)

/-- A point that begins the fraction of a number. -/
def pointsToDigit (rest : List Char) : Bool :=
  rest.head? == some '.' && (rest.drop 1).head?.any Char.isDigit

/-- A point and digits, or nothing, where no point with a digit stands. -/
inductive SpellsFraction : List Char → List Char → List Char → Prop where
  | absent {rest : List Char} (h : pointsToDigit rest = false) : SpellsFraction [] [] rest
  | present {d : Char} {digits rest : List Char} (hdigits : ∀ c ∈ d :: digits, c.isDigit = true)
      (hrest : rest.head?.any Char.isDigit = false) :
      SpellsFraction ('.' :: d :: digits) (d :: digits) rest

/-- The letter of a power of ten, a sign if there is one, and digits; or nothing, where no such
    letter stands. -/
inductive SpellsPower : List Char → List Char → List Char → List Char → Prop where
  | absent {rest : List Char} (h : ∀ c, rest.head? = some c → c ≠ 'e' ∧ c ≠ 'E') :
      SpellsPower [] [] [] rest
  | present {e d : Char} {sign digits rest : List Char} (he : e = 'e' ∨ e = 'E')
      (hsign : sign = [] ∨ sign = ['+'] ∨ sign = ['-'])
      (hdigits : ∀ c ∈ d :: digits, c.isDigit = true)
      (hrest : rest.head?.any Char.isDigit = false) :
      SpellsPower (e :: (sign ++ d :: digits)) sign (d :: digits) rest

/-- What may not follow a number. -/
def goesOnWithNumber (c : Char) : Bool := Text.isAlphanumeric c || c == '_'

/-- A number is made of digits, a fraction and a power of ten, and nothing that goes on with it
    follows. -/
inductive SpellsNumber : List Char → Numeral → List Char → Prop where
  | mk {whole fraction power u v sign rest : List Char}
      (hwhole : ∀ c ∈ whole, c.isDigit = true)
      (hafter : (u ++ v ++ rest).head?.any Char.isDigit = false)
      (hfraction : SpellsFraction u fraction (v ++ rest)) (hpower : SpellsPower v sign power rest)
      (hrest : rest.head?.any goesOnWithNumber = false) (hne : whole ≠ [] ∨ u ≠ []) :
      SpellsNumber (whole ++ u ++ v) ⟨false, whole, fraction, sign == ['-'], power⟩ rest

/-! ## Items -/

/-- An item, its spelling, and what follows. -/
inductive Spells : Item → List Char → List Char → Prop where
  | lineBreak {rest : List Char} : Spells (.space true) ['\n'] rest
  | blank {c : Char} {rest : List Char} (hc : Text.isBlank c = true) (hline : c ≠ '\n') :
      Spells (.space false) [c] rest
  | lineComment {text rest : List Char} (htext : '\n' ∉ text)
      (hrest : rest = [] ∨ rest.head? = some '\n') :
      Spells (.space false) ('/' :: '/' :: text) rest
  | blockComment {text rest : List Char}
      (htext : ∀ s, s ≠ [] → s <:+ text → ['*', '/'].isPrefixOf (s ++ ['*', '/']) = false) :
      Spells (.space (text.contains '\n')) ('/' :: '*' :: (text ++ ['*', '/'])) rest
  | text {quote : Char} {u text rest : List Char} (hquote : quote = '\x22' ∨ quote = '\x27')
      (h : SpellsText quote u text) :
      Spells (.word (.text (String.ofList text))) (quote :: (u ++ [quote])) rest
  | number {u rest : List Char} {n : Numeral} (h : SpellsNumber u n rest) :
      Spells (.word (.number n.toFloat)) u rest
  | name {c : Char} {u rest : List Char} (hc : isNameStart c = true)
      (hu : ∀ d ∈ u, isNamePart d = true) (hrest : rest.head?.any isNamePart = false) :
      Spells (.word (.ofName (String.ofList (c :: u)))) (c :: u) rest
  | symbol {s : Symbol} {rest : List Char} (h : Symbol.at? (s.spelling ++ rest) = some s)
      (hline : ['/', '/'].isPrefixOf (s.spelling ++ rest) = false)
      (hblock : ['/', '*'].isPrefixOf (s.spelling ++ rest) = false)
      (hpoint : pointsToDigit (s.spelling ++ rest) = false) :
      Spells (.word (.symbol s)) s.spelling rest

/-! ## Gaps -/

/-- A space, a line break, a closing parenthesis or the end: what no word goes on into. -/
inductive Gap : List Char → Prop where
  | nil : Gap []
  | space (rest : List Char) : Gap (' ' :: rest)
  | newline (rest : List Char) : Gap ('\n' :: rest)
  | closing (rest : List Char) : Gap (')' :: rest)

section

variable {z z' : List Char} (hz : Gap z) (hz' : Gap z')

theorem Gap.head?_any {p : Char → Bool} (hspace : p ' ' = false) (hline : p '\n' = false)
    (hclosing : p ')' = false) (hz : Gap z) : z.head?.any p = false := by
  cases hz with
  | nil => rfl
  | space rest => exact hspace
  | newline rest => exact hline
  | closing rest => exact hclosing

include hz hz'

/-- No class of characters that goes on with a word tells one gap from another. -/
theorem head?_any_change {p : Char → Bool} (hspace : p ' ' = false) (hline : p '\n' = false)
    (hclosing : p ')' = false) (a : List Char) :
    (a ++ z').head?.any p = (a ++ z).head?.any p := by
  cases a with
  | nil =>
    exact (hz'.head?_any hspace hline hclosing).trans (hz.head?_any hspace hline hclosing).symm
  | cons c a => rfl

theorem pointsToDigit_change (a : List Char) :
    pointsToDigit (a ++ z') = pointsToDigit (a ++ z) := by
  match a with
  | [] => cases hz <;> cases hz' <;> rfl
  | [c] =>
    have h := head?_any_change (p := Char.isDigit) hz hz' rfl rfl rfl []
    simp only [pointsToDigit, List.cons_append, List.drop_succ_cons, List.drop_zero,
      List.head?_cons] at h ⊢
    rw [List.nil_append] at h ⊢
    rw [h]
  | c :: d :: a => rfl

/-- A text that no gap can begin stands before one gap where it stands before another. -/
theorem isPrefixOf_change {p : List Char} (hspace : ' ' ∉ p) (hline : '\n' ∉ p)
    (hclosing : ')' ∉ p) (a : List Char) : p.isPrefixOf (a ++ z') = p.isPrefixOf (a ++ z) := by
  induction p generalizing a with
  | nil => rfl
  | cons c p ih =>
    have hne {d : Char} (hd : d ∉ c :: p) : (c == d) = false :=
      beq_eq_false_iff_ne.mpr fun h => hd (h ▸ List.mem_cons_self)
    cases a with
    | nil =>
      cases hz <;> cases hz' <;> simp [List.isPrefixOf, hne hspace, hne hline, hne hclosing]
    | cons d a =>
      have h := ih (fun h => hspace (List.mem_cons_of_mem c h))
        (fun h => hline (List.mem_cons_of_mem c h)) (fun h => hclosing (List.mem_cons_of_mem c h)) a
      simp only [List.cons_append, List.isPrefixOf, h]

/-- A spelling of a symbol that begins in front of a gap does not reach into it. -/
theorem at?_change (c : Char) (a : List Char) :
    Symbol.at? (c :: (a ++ z')) = Symbol.at? (c :: (a ++ z)) := by
  have h : (fun s : Symbol => s.spelling.isPrefixOf (c :: (a ++ z')))
      = fun s => s.spelling.isPrefixOf (c :: (a ++ z)) := by
    funext s
    obtain ⟨d, p, hp⟩ := List.exists_cons_of_ne_nil s.spelling_ne_nil
    have hmem : ' ' ∉ s.spelling.tail ∧ '\n' ∉ s.spelling.tail ∧ ')' ∉ s.spelling.tail := by
      cases s <;> decide
    rw [hp, List.tail_cons] at hmem
    rw [hp, List.isPrefixOf, List.isPrefixOf, isPrefixOf_change hz hz' hmem.1 hmem.2.1 hmem.2.2]
  rw [Symbol.at?, Symbol.at?, h]

end

theorem SpellsFraction.change_gap {u digits a z z' : List Char} (hz : Gap z) (hz' : Gap z') :
    SpellsFraction u digits (a ++ z) → SpellsFraction u digits (a ++ z')
  | .absent h => .absent (by rwa [pointsToDigit_change hz hz'])
  | .present hdigits hrest => .present hdigits (by rwa [head?_any_change hz hz' rfl rfl rfl])

theorem SpellsPower.change_gap {u sign digits a z z' : List Char} (hz : Gap z) (hz' : Gap z') :
    SpellsPower u sign digits (a ++ z) → SpellsPower u sign digits (a ++ z')
  | .absent h => by
    refine .absent fun c hc => ?_
    cases a with
    | nil => cases hz' <;> cases hc <;> decide
    | cons d a => exact h c hc
  | .present he hsign hdigits hrest =>
    .present he hsign hdigits (by rwa [head?_any_change hz hz' rfl rfl rfl])

theorem SpellsNumber.change_gap {u a z z' : List Char} {n : Numeral} (hz : Gap z) (hz' : Gap z') :
    SpellsNumber u n (a ++ z) → SpellsNumber u n (a ++ z')
  | .mk (u := u) (v := v) hwhole hafter hfraction hpower hrest hne => by
    refine .mk hwhole ?_ ?_ (hpower.change_gap hz hz') ?_ hne
    · rw [← List.append_assoc] at hafter ⊢
      rwa [head?_any_change hz hz' rfl rfl rfl]
    · rw [← List.append_assoc] at hfraction ⊢
      exact hfraction.change_gap hz hz'
    · rwa [head?_any_change hz hz' (by decide +kernel) (by decide +kernel) (by decide +kernel)]

/-- **An item is spelled the same before every gap.**  Only a comment up to the end of the line
    needs the line to end there, and does not stand before a closing parenthesis. -/
theorem Spells.change_gap {i : Item} {u a z z' : List Char} (hz : Gap z) (hz' : Gap z')
    (hi : (∃ w, i = .word w) ∨ z'.head? = some '\n' ∨ z.head? = some ')')
    (h : Spells i u (a ++ z)) : Spells i u (a ++ z') := by
  cases h with
  | lineBreak => exact .lineBreak
  | blank hc hline => exact .blank hc hline
  | lineComment htext hrest =>
    refine .lineComment htext ?_
    cases a with
    | nil =>
      rcases hi with ⟨w, hw⟩ | hnewline | hclosing
      · cases hw
      · exact Or.inr hnewline
      · rcases hrest with h | h
        · rw [List.nil_append] at h
          simp [h] at hclosing
        · rw [List.nil_append, hclosing] at h
          cases h
    | cons c a => exact Or.inr (hrest.resolve_left (by simp))
  | blockComment htext => exact .blockComment htext
  | text hquote h => exact .text hquote h
  | number h => exact .number (h.change_gap hz hz')
  | name hc hu hrest =>
    refine .name hc hu ?_
    rwa [head?_any_change hz hz' (by decide +kernel) (by decide +kernel) (by decide +kernel)]
  | @symbol s _ h hline hblock hpoint =>
    obtain ⟨c, t, hs⟩ := List.exists_cons_of_ne_nil s.spelling_ne_nil
    rw [← List.append_assoc] at h hline hblock hpoint
    refine .symbol ?_ ?_ ?_ ?_ <;> rw [← List.append_assoc]
    · rw [hs, List.cons_append, List.cons_append] at h ⊢
      rwa [at?_change hz hz']
    · rwa [isPrefixOf_change hz hz' (by decide) (by decide) (by decide)]
    · rwa [isPrefixOf_change hz hz' (by decide) (by decide) (by decide)]
    · rwa [pointsToDigit_change hz hz']

/-! ## How far an item looks ahead -/

theorem isPrefixOf_take {p l : List Char} {n : Nat} (hp : p.length ≤ n) :
    p.isPrefixOf (l.take n) = p.isPrefixOf l := by
  rw [Bool.eq_iff_iff, List.isPrefixOf_iff_prefix, List.isPrefixOf_iff_prefix,
    List.prefix_take_iff]
  simp [hp]

theorem pointsToDigit_take (rest : List Char) :
    pointsToDigit (rest.take 2) = pointsToDigit rest := by
  match rest with
  | [] | [_] | _ :: _ :: _ => rfl

theorem head?_take_two (rest : List Char) : (rest.take 2).head? = rest.head? := by
  cases rest <;> rfl

theorem at?_take (text : List Char) : Symbol.at? (text.take 3) = Symbol.at? text := by
  have h : (fun s : Symbol => s.spelling.isPrefixOf (text.take 3))
      = fun s => s.spelling.isPrefixOf text :=
    funext fun s => isPrefixOf_take (by cases s <;> decide)
  rw [Symbol.at?, Symbol.at?, h]

section

variable {z z' : List Char} (h : z.take 2 = z'.take 2)

include h

theorem take_append_of_take (a : List Char) {n : Nat} (hn : n ≤ a.length + 2) :
    (a ++ z).take n = (a ++ z').take n := by
  rw [List.take_append, List.take_append]
  have : (z.take 2).take (n - a.length) = (z'.take 2).take (n - a.length) := by rw [h]
  rw [List.take_take, List.take_take, Nat.min_eq_left (by omega)] at this
  rw [this]

theorem head?_eq_of_take : z.head? = z'.head? := by
  rw [← head?_take_two, h, head?_take_two]

theorem SpellsFraction.change_far {u digits : List Char} (a : List Char) :
    SpellsFraction u digits (a ++ z) → SpellsFraction u digits (a ++ z')
  | .absent hpoint => by
    rw [← pointsToDigit_take, take_append_of_take h a (by omega), pointsToDigit_take] at hpoint
    exact .absent hpoint
  | .present hdigits hrest => by
    rw [← head?_take_two, take_append_of_take h a (by omega), head?_take_two] at hrest
    exact .present hdigits hrest

theorem SpellsPower.change_far {u sign digits : List Char} :
    SpellsPower u sign digits z → SpellsPower u sign digits z'
  | .absent hno => .absent (by rwa [← head?_eq_of_take h])
  | .present he hsign hdigits hrest =>
    .present he hsign hdigits (by rwa [← head?_eq_of_take h])

theorem SpellsNumber.change_far {u : List Char} {n : Numeral} :
    SpellsNumber u n z → SpellsNumber u n z'
  | .mk (u := u) (v := v) hwhole hafter hfraction hpower hrest hne => by
    refine .mk hwhole ?_ (hfraction.change_far h v) (hpower.change_far h) ?_ hne
    · rw [← head?_take_two, take_append_of_take h _ (by omega), head?_take_two] at hafter
      exact hafter
    · rwa [← head?_eq_of_take h]

/-- **An item looks at most two characters ahead.** -/
theorem Spells.change_far {i : Item} {u : List Char} (hi : Spells i u z) : Spells i u z' := by
  cases hi with
  | lineBreak => exact .lineBreak
  | blank hc hline => exact .blank hc hline
  | lineComment htext hrest =>
    refine .lineComment htext (hrest.imp (fun hnil => ?_) fun hline => ?_)
    · rw [← List.head?_eq_none_iff, ← head?_eq_of_take h, hnil]
      rfl
    · rwa [← head?_eq_of_take h]
  | blockComment htext => exact .blockComment htext
  | text hquote h => exact .text hquote h
  | number hn => exact .number (hn.change_far h)
  | name hc hu hrest => exact .name hc hu (by rwa [← head?_eq_of_take h])
  | @symbol s _ hat hline hblock hpoint =>
    have hlength : 0 < s.spelling.length := List.length_pos_iff.mpr s.spelling_ne_nil
    refine .symbol ?_ ?_ ?_ ?_
    · rwa [← at?_take, ← take_append_of_take h _ (by omega), at?_take]
    · rwa [← isPrefixOf_take (n := 2) (by simp), ← take_append_of_take h _ (by omega),
        isPrefixOf_take (by simp)]
    · rwa [← isPrefixOf_take (n := 2) (by simp), ← take_append_of_take h _ (by omega),
        isPrefixOf_take (by simp)]
    · rwa [← pointsToDigit_take, ← take_append_of_take h _ (by omega), pointsToDigit_take]

end

/-! ## At the end of a text -/

theorem SpellsPower.alone {u sign power rest : List Char} :
    SpellsPower u sign power rest → SpellsPower u sign power []
  | .absent _ => .absent fun c hc => by cases hc
  | .present he hsign hdigits _ => .present he hsign hdigits rfl

/-- A power of ten does not begin with a point or a digit, no more than the end of a text does. -/
theorem SpellsFraction.alone {u fraction v sign power rest : List Char}
    (hpower : SpellsPower v sign power rest) :
    SpellsFraction u fraction (v ++ rest) → SpellsFraction u fraction (v ++ [])
  | .absent _ => by
    refine .absent ?_
    cases hpower with
    | absent _ => rfl
    | present he _ _ _ => rcases he with rfl | rfl <;> rfl
  | .present hdigits _ => by
    refine .present hdigits ?_
    cases hpower with
    | absent _ => rfl
    | present he _ _ _ => rcases he with rfl | rfl <;> rfl

theorem SpellsNumber.alone {u rest : List Char} {n : Numeral} :
    SpellsNumber u n rest → SpellsNumber u n []
  | .mk (u := u) (v := v) hwhole hafter hfraction hpower _ hne => by
    refine .mk hwhole ?_ (hfraction.alone hpower) hpower.alone rfl hne
    -- the whole digits end in front of the fraction or the power, or with the text
    cases h : u ++ v with
    | nil => rfl
    | cons c cs =>
      rw [h] at hafter
      exact hafter

theorem Symbol.spells (s : Symbol) : Spells (.word (.symbol s)) s.spelling [] := by
  refine .symbol ?_ ?_ ?_ ?_ <;> cases s <;> decide

/-- **A word is spelled at the end of a text as it is anywhere.** -/
theorem Spells.alone {w : Word} {u rest : List Char} (h : Spells (.word w) u rest) :
    Spells (.word w) u [] := by
  generalize hi : Item.word w = i at h
  cases h with
  | lineBreak | blank | lineComment | blockComment => cases hi
  | text hquote h => exact .text hquote h
  | number h => exact .number h.alone
  | name hc hu _ => exact .name hc hu rfl
  | symbol _ _ _ _ => exact Symbol.spells _

end Stencil.Script
