/-
  Searching, cutting and replacing find the same occurrences.

  `Cut` says how a text is cut at a separator: at the first place where it stands, and so on behind
  it.  `split` makes these pieces and `replaceAll` joins them with something else, so that what is
  known of the pieces is proved by induction on how the text was cut.
-/
import Mathlib.Tactic
import Stencil.Text.Search

namespace Stencil.Text

variable {needle new text before behind : List Char} {c : Char} {rest : List Char}

/-! ## The first occurrence -/

theorem find?_at_start (h : needle <+: text) :
    find? needle text = some ([], text.drop needle.length) := by
  unfold find?
  rw [if_pos (List.isPrefixOf_iff_prefix.mpr h)]

theorem find?_behind_start (h : ¬ needle <+: c :: rest) :
    find? needle (c :: rest) =
      (find? needle rest).map fun (before, behind) => (c :: before, behind) := by
  conv_lhs => unfold find?
  rw [if_neg (mt List.isPrefixOf_iff_prefix.mp h)]

/-- What is found is an occurrence, and none stands earlier. -/
theorem find?_sound (h : find? needle text = some (before, behind)) :
    text = before ++ needle ++ behind ∧ ∀ i < before.length, ¬ needle <+: text.drop i := by
  induction text generalizing before with
  | nil =>
    by_cases hprefix : needle <+: []
    · rw [find?_at_start hprefix] at h
      obtain ⟨rfl, rfl⟩ := by simpa using h
      simp [List.prefix_nil.mp hprefix]
    · unfold find? at h
      simp [mt List.isPrefixOf_iff_prefix.mp hprefix] at h
  | cons c rest ih =>
    by_cases hprefix : needle <+: c :: rest
    · rw [find?_at_start hprefix] at h
      obtain ⟨rfl, rfl⟩ := by simpa using h
      obtain ⟨tail, htail⟩ := hprefix
      simp [← htail]
    · rw [find?_behind_start hprefix, Option.map_eq_some_iff] at h
      obtain ⟨⟨before', behind'⟩, hfound, heq⟩ := h
      obtain ⟨rfl, rfl⟩ := by simpa using heq
      obtain ⟨htext, hleast⟩ := ih hfound
      refine ⟨by simp [htext], fun i hi => ?_⟩
      cases i with
      | zero => exact hprefix
      | succ i => exact hleast i (by simpa using hi)

theorem find?_eq_none_iff : find? needle text = none ↔ ¬ needle <:+: text := by
  induction text with
  | nil =>
    unfold find?
    simp
  | cons c rest ih =>
    by_cases hprefix : needle <+: c :: rest
    · simp [find?_at_start hprefix, hprefix.isInfix]
    · rw [find?_behind_start hprefix, Option.map_eq_none_iff, ih, List.infix_cons_iff,
        or_iff_right hprefix]

theorem contains_iff : contains needle text = true ↔ needle <:+: text := by
  induction text with
  | nil => simp [contains]
  | cons c rest ih => simp [contains, List.infix_cons_iff, ih]

/-! ## Cutting -/

/-- A text cut into pieces: at the first place where the separator stands, and so on behind it. -/
inductive Cut (needle : List Char) : List Char → List (List Char) → Prop where
  | last {text : List Char} (h : find? needle text = none) : Cut needle text [text]
  | piece {text before behind : List Char} {pieces : List (List Char)}
      (h : find? needle text = some (before, behind)) (rest : Cut needle behind pieces) :
      Cut needle text (before :: pieces)

theorem Cut.ne_nil {pieces : List (List Char)} (h : Cut needle text pieces) : pieces ≠ [] := by
  cases h <;> simp

/-- The pieces with the separator between them are the text. -/
theorem Cut.intercalate {pieces : List (List Char)} (h : Cut needle text pieces) :
    needle.intercalate pieces = text := by
  induction h with
  | last h => exact List.intercalate_singleton
  | piece h rest ih => rw [List.intercalate_cons_of_ne_nil rest.ne_nil, ih, (find?_sound h).1]

/-- The separator stands in no piece: it would stand earlier in the text. -/
theorem Cut.apart {pieces : List (List Char)} (hneedle : needle ≠ [])
    (h : Cut needle text pieces) : ∀ piece ∈ pieces, ¬ needle <:+: piece := by
  induction h with
  | last h => simpa using find?_eq_none_iff.mp h
  | @piece text before behind pieces h rest ih =>
    refine List.forall_mem_cons.mpr ⟨?_, ih⟩
    rintro ⟨front, back, rfl⟩
    obtain ⟨htext, hleast⟩ := find?_sound h
    have hlength : 0 < needle.length := List.length_pos_iff.mpr hneedle
    refine hleast front.length (by simp; omega) ?_
    rw [htext]
    simp

/-! ## What `split` and `replaceAll` do -/

theorem split_skipped (skipped : Nat) : ∀ text : List Char,
    split needle skipped text = split needle 0 (text.drop skipped) := by
  induction skipped with
  | zero => simp
  | succ skipped ih =>
    intro text
    cases text with
    | nil => simp [split]
    | cons c rest => rw [split, ih, List.drop_succ_cons]

theorem replaceAll_skipped (skipped : Nat) : ∀ text : List Char,
    replaceAll needle new skipped text = replaceAll needle new 0 (text.drop skipped) := by
  induction skipped with
  | zero => simp
  | succ skipped ih =>
    intro text
    cases text with
    | nil => simp [replaceAll]
    | cons c rest => rw [replaceAll, ih, List.drop_succ_cons]

theorem drop_cons_of_ne_nil (h : needle ≠ []) :
    rest.drop (needle.length - 1) = (c :: rest).drop needle.length := by
  obtain ⟨d, others, rfl⟩ := List.exists_cons_of_ne_nil h
  simp

/-- The text before the first occurrence is a piece. -/
theorem split_eq (hneedle : needle ≠ []) : ∀ text : List Char,
    split needle 0 text =
      match find? needle text with
      | none => [text]
      | some (before, behind) => before :: split needle 0 behind
  | [] => by
    rw [find?_eq_none_iff.mpr (by simpa using hneedle)]
    simp [split]
  | c :: rest => by
    rw [split]
    by_cases hprefix : needle <+: c :: rest
    · rw [if_pos (List.isPrefixOf_iff_prefix.mpr hprefix), find?_at_start hprefix, split_skipped,
        drop_cons_of_ne_nil hneedle]
    · rw [if_neg (mt List.isPrefixOf_iff_prefix.mp hprefix), find?_behind_start hprefix,
        split_eq hneedle rest]
      cases find? needle rest <;> rfl

/-- The text before the first occurrence is kept. -/
theorem replaceAll_eq (hneedle : needle ≠ []) : ∀ text : List Char,
    replaceAll needle new 0 text =
      match find? needle text with
      | none => text
      | some (before, behind) => before ++ new ++ replaceAll needle new 0 behind
  | [] => by
    rw [find?_eq_none_iff.mpr (by simpa using hneedle)]
    simp [replaceAll, hneedle]
  | c :: rest => by
    rw [replaceAll, if_neg (by simpa using hneedle)]
    by_cases hprefix : needle <+: c :: rest
    · rw [if_pos (List.isPrefixOf_iff_prefix.mpr hprefix), find?_at_start hprefix,
        replaceAll_skipped, drop_cons_of_ne_nil hneedle]
      rfl
    · rw [if_neg (mt List.isPrefixOf_iff_prefix.mp hprefix), find?_behind_start hprefix,
        replaceAll_eq hneedle rest]
      cases find? needle rest <;> rfl

theorem length_lt_of_find? (hneedle : needle ≠ []) (h : find? needle text = some (before, behind)) :
    behind.length < text.length := by
  have hlength : 0 < needle.length := List.length_pos_iff.mpr hneedle
  rw [(find?_sound h).1]
  simp
  omega

theorem cut_split (hneedle : needle ≠ []) (text : List Char) :
    Cut needle text (split needle 0 text) := by
  rw [split_eq hneedle]
  split
  · exact .last ‹_›
  · rename_i before behind h
    have := length_lt_of_find? hneedle h
    exact .piece h (cut_split hneedle behind)
termination_by text.length

/-- Replacing joins the pieces with the new text. -/
theorem Cut.replaceAll {pieces : List (List Char)} (hneedle : needle ≠ [])
    (h : Cut needle text pieces) : replaceAll needle new 0 text = new.intercalate pieces := by
  induction h with
  | last h => rw [replaceAll_eq hneedle, h, List.intercalate_singleton]
  | piece h rest ih =>
    rw [replaceAll_eq hneedle, h, List.intercalate_cons_of_ne_nil rest.ne_nil, ← ih]

end Stencil.Text
