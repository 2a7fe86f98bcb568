/-
  The methods of a text that search, cut and replace.

  `split` and `join` undo each other, `replaceAll` is `split` and then `join` with another text,
  and `replace`, `includes` and `indexOf` speak of the same first occurrence.
-/
import Stencil.Proofs.Number.Sign
import Stencil.Proofs.Text.Search
import Stencil.Script.Value.Method

namespace Stencil.Script.Value

/-- The offset, in characters, of the first place in `s` where `needle` stands. -/
def FirstAt (needle s : String) (i : Nat) : Prop :=
  needle.toList <+: s.toList.drop i ∧ ∀ j < i, ¬ needle.toList <+: s.toList.drop j

/-! ## Cutting and joining -/

theorem callMethod_split (s : String) (sep : Value) :
    (text s).callMethod "split" [sep] = .ok (array (splitText s sep)) := rfl

theorem callMethod_join (items : List Value) (sep : Value) :
    (array items).callMethod "join" [sep] = .ok (text (joinItems items sep)) := rfl

/-- Some texts, as values. -/
def texts (pieces : List (List Char)) : List Value :=
  pieces.map fun piece => text (String.ofList piece)

/-- What stands between the items that `join` puts together. -/
def separatorText : Value → String
  | undefined => ","
  | v => v.display

theorem joinItems_texts (pieces : List (List Char)) (sep : Value) :
    joinItems (texts pieces) sep = String.ofList (sep.separatorText.toList.intercalate pieces) := by
  have hitems : (texts pieces).map (fun v => if v.isNullish then "" else v.display) =
      pieces.map String.ofList := by
    rw [texts, List.map_map]
    rfl
  have hjoin : joinItems (texts pieces) sep =
      sep.separatorText.intercalate (pieces.map String.ofList) := by
    rw [← hitems]
    cases sep <;> rfl
  rw [hjoin]
  apply String.toList_injective
  simp [Function.comp_def]

theorem separatorText_of_ne_undefined {sep : Value} (h : sep ≠ undefined) :
    sep.separatorText = sep.display := by
  cases sep <;> first | exact absurd rfl h | rfl

theorem splitText_of_ne_undefined {sep : Value} (h : sep ≠ undefined) (s : String) :
    splitText s sep = texts (if sep.display = "" then s.toList.map fun c => [c]
      else Text.split sep.display.toList 0 s.toList) := by
  unfold splitText
  split
  · exact absurd rfl h
  split_ifs with hdisplay
  · rw [hdisplay, texts, List.map_map]
    exact List.map_congr_left fun c _ => congrArg text String.singleton_eq_ofList
  · split
    · simp_all
    · rfl

/-- The characters of a text with nothing between them. -/
theorem intercalate_chars : ∀ cs : List Char, List.intercalate [] (cs.map fun c => [c]) = cs
  | [] => rfl
  | [c] => rfl
  | c :: d :: cs => by
    rw [List.map_cons, List.intercalate_cons_of_ne_nil (by simp), intercalate_chars (d :: cs)]
    rfl

/-- How a text is cut: into pieces that make it again with the separator between them. -/
theorem splitText_pieces (s : String) (sep : Value) : ∃ pieces,
    splitText s sep = texts pieces ∧
    sep.separatorText.toList.intercalate pieces = s.toList ∧
    (sep ≠ undefined → sep.display ≠ "" → Text.Cut sep.display.toList s.toList pieces) := by
  by_cases hsep : sep = undefined
  · subst hsep
    exact ⟨[s.toList], by simp [splitText, texts], by simp, fun h => absurd rfl h⟩
  rw [separatorText_of_ne_undefined hsep, splitText_of_ne_undefined hsep]
  by_cases hdisplay : sep.display = ""
  · rw [if_pos hdisplay]
    refine ⟨_, rfl, ?_, fun _ h => absurd hdisplay h⟩
    rw [hdisplay]
    exact intercalate_chars s.toList
  · have hcut := Text.cut_split (mt String.toList_eq_nil_iff.mp hdisplay) s.toList
    rw [if_neg hdisplay]
    exact ⟨_, rfl, hcut.intercalate, fun _ _ => hcut⟩

/-- A text is its pieces with the separator between them, and no piece has it inside. -/
theorem split_join (s : String) (sep : Value) : ∃ pieces,
    (text s).callMethod "split" [sep] = .ok (array pieces) ∧
    (array pieces).callMethod "join" [sep] = .ok (text s) ∧
    (sep ≠ undefined → sep.display ≠ "" →
      ∀ piece ∈ pieces, ∃ t, piece = text t ∧ ¬ sep.display.toList <:+: t.toList) := by
  obtain ⟨pieces, hsplit, hjoin, hcut⟩ := splitText_pieces s sep
  refine ⟨texts pieces, by rw [callMethod_split, hsplit], ?_, fun hsep hdisplay piece hpiece => ?_⟩
  · rw [callMethod_join, joinItems_texts, hjoin, String.ofList_toList]
  · obtain ⟨cs, hcs, rfl⟩ := List.mem_map.mp hpiece
    have := (hcut hsep hdisplay).apart (mt String.toList_eq_nil_iff.mp hdisplay) cs hcs
    exact ⟨_, rfl, by simpa using this⟩

/-- Replacing every occurrence is cutting at them and joining with the new text. -/
theorem replaceAll_eq_join (s : String) {p : String} (hp : p ≠ "") (r : String) : ∃ pieces t,
    (text s).callMethod "split" [text p] = .ok (array pieces) ∧
    (array pieces).callMethod "join" [text r] = .ok (text t) ∧
    (text s).callMethod "replaceAll" [text p, text r] = .ok (text t) := by
  obtain ⟨pieces, hsplit, -, hcut⟩ := splitText_pieces s (text p)
  have hreplace : Text.replaceAll p.toList r.toList 0 s.toList = r.toList.intercalate pieces :=
    (hcut (by simp) hp).replaceAll (mt String.toList_eq_nil_iff.mp hp)
  refine ⟨texts pieces, _, by rw [callMethod_split, hsplit], callMethod_join _ _, ?_⟩
  change Except.ok (text (String.ofList (Text.replaceAll p.toList r.toList 0 s.toList))) = _
  rw [hreplace, joinItems_texts]
  rfl

/-! ## The first occurrence -/

theorem callMethod_indexOf (s : String) (x : Value) :
    (text s).callMethod "indexOf" [x] = .ok (positionOrMinusOne
      ((Text.find? x.display.toList s.toList).map fun found => found.1.length)) := rfl

theorem callMethod_replace (s p r : String) :
    (text s).callMethod "replace" [text p, text r] =
      .ok (text (String.ofList (Text.replaceFirst p.toList r.toList s.toList))) := rfl

theorem callMethod_includes (s : String) (x : Value) :
    (text s).callMethod "includes" [x] =
      .ok (bool (Text.contains x.display.toList s.toList)) := rfl

theorem firstAt_of_find? {needle s : String} {before behind : List Char}
    (h : Text.find? needle.toList s.toList = some (before, behind)) :
    FirstAt needle s before.length := by
  obtain ⟨htext, hleast⟩ := Text.find?_sound h
  refine ⟨?_, hleast⟩
  rw [htext]
  simp

/-- The text that `replace` changes stands where `indexOf` finds it. -/
theorem replace_at_indexOf (s p r : String) :
    (∃ before behind, s = before ++ p ++ behind ∧
      (text s).callMethod "indexOf" [text p] = .ok (number (Number.ofCount before.length)) ∧
      (text s).callMethod "replace" [text p, text r] = .ok (text (before ++ r ++ behind))) ∨
    (¬ p.toList <:+: s.toList ∧
      (text s).callMethod "indexOf" [text p] = .ok (number (-1.0)) ∧
      (text s).callMethod "replace" [text p, text r] = .ok (text s)) := by
  rw [callMethod_indexOf, callMethod_replace, Text.replaceFirst]
  cases h : Text.find? p.toList s.toList with
  | none =>
    have h' : Text.find? (text p).display.toList s.toList = none := h
    exact .inr ⟨Text.find?_eq_none_iff.mp h, by rw [h']; rfl, by rw [String.ofList_toList]⟩
  | some found =>
    obtain ⟨before, behind⟩ := found
    have h' : Text.find? (text p).display.toList s.toList = some (before, behind) := h
    refine .inl ⟨String.ofList before, String.ofList behind, ?_, ?_, ?_⟩
    · apply String.toList_injective
      simpa using (Text.find?_sound h).1
    · simp [h', positionOrMinusOne]
    · simp [String.append_assoc]

/-- A text is included exactly where it has an index, which is where it first stands. -/
theorem includes_iff_indexOf (s : String) (x : Value) : ∃ found v,
    (text s).callMethod "includes" [x] = .ok (bool found) ∧
    (text s).callMethod "indexOf" [x] = .ok v ∧
    (found = true ↔ v.strictEquals (number (-1.0)) = false) ∧
    (found = true → ∃ i, v = number (Number.ofCount i) ∧ FirstAt x.display s i) ∧
    (found = false → ¬ x.display.toList <:+: s.toList) := by
  refine ⟨_, _, callMethod_includes s x, callMethod_indexOf s x, ?_⟩
  cases h : Text.find? x.display.toList s.toList with
  | none =>
    have hnone : Text.contains x.display.toList s.toList = false := by
      rw [← Bool.not_eq_true, Text.contains_iff]
      exact Text.find?_eq_none_iff.mp h
    have hequal : (number (-1.0)).strictEquals (number (-1.0)) = true := by decide +kernel
    rw [hnone]
    exact ⟨by simpa [positionOrMinusOne] using hequal, nofun, fun _ => Text.find?_eq_none_iff.mp h⟩
  | some found =>
    have hsome : Text.contains x.display.toList s.toList = true := by
      rw [Text.contains_iff, ← not_not (a := _ <:+: _), ← Text.find?_eq_none_iff, h]
      simp
    have hunequal : (number (Number.ofCount found.1.length)).strictEquals (number (-1.0)) = false :=
      Number.ofCount_beq_neg_one _
    rw [hsome]
    exact ⟨by simpa [positionOrMinusOne] using hunequal,
      fun _ => ⟨_, rfl, firstAt_of_find? h⟩, nofun⟩

/-- **Searching, cutting and joining agree.**  A text is the pieces of `split` with the separator
    between them, which is in none of them; `replaceAll` joins the pieces with another text;
    `replace` changes the occurrence at `indexOf`; and `includes` says whether there is one, which
    is then the first. -/
theorem search_agrees (s : String) :
    (∀ sep : Value, ∃ pieces,
      (text s).callMethod "split" [sep] = .ok (array pieces) ∧
      (array pieces).callMethod "join" [sep] = .ok (text s) ∧
      (sep ≠ undefined → sep.display ≠ "" →
        ∀ piece ∈ pieces, ∃ t, piece = text t ∧ ¬ sep.display.toList <:+: t.toList)) ∧
    (∀ p r : String, p ≠ "" → ∃ pieces t,
      (text s).callMethod "split" [text p] = .ok (array pieces) ∧
      (array pieces).callMethod "join" [text r] = .ok (text t) ∧
      (text s).callMethod "replaceAll" [text p, text r] = .ok (text t)) ∧
    (∀ p r : String,
      (∃ before behind, s = before ++ p ++ behind ∧
        (text s).callMethod "indexOf" [text p] = .ok (number (Number.ofCount before.length)) ∧
        (text s).callMethod "replace" [text p, text r] = .ok (text (before ++ r ++ behind))) ∨
      (¬ p.toList <:+: s.toList ∧
        (text s).callMethod "indexOf" [text p] = .ok (number (-1.0)) ∧
        (text s).callMethod "replace" [text p, text r] = .ok (text s))) ∧
    (∀ x : Value, ∃ found v,
      (text s).callMethod "includes" [x] = .ok (bool found) ∧
      (text s).callMethod "indexOf" [x] = .ok v ∧
      (found = true ↔ v.strictEquals (number (-1.0)) = false) ∧
      (found = true → ∃ i, v = number (Number.ofCount i) ∧ FirstAt x.display s i) ∧
      (found = false → ¬ x.display.toList <:+: s.toList)) :=
  ⟨split_join s, fun _ r hp => replaceAll_eq_join s hp r, replace_at_indexOf s,
    includes_iff_indexOf s⟩

/-- Where occurrences overlap, the earlier counts. -/
theorem search_agrees_overlapping :
    (∃ pieces, (text "aaa").callMethod "split" [text "aa"] = .ok (array pieces) ∧
      ∀ piece ∈ pieces, ∃ t, piece = text t ∧ ¬ "aa".toList <:+: t.toList) ∧
    ∃ pieces t, (text "aaa").callMethod "split" [text "aa"] = .ok (array pieces) ∧
      (array pieces).callMethod "join" [text "-"] = .ok (text t) ∧
      (text "aaa").callMethod "replaceAll" [text "aa", text "-"] = .ok (text t) := by
  have hdisplay : (text "aa").display ≠ "" := by decide
  obtain ⟨pieces, hsplit, -, hpieces⟩ := (search_agrees "aaa").1 (text "aa")
  exact ⟨⟨pieces, hsplit, hpieces nofun hdisplay⟩, (search_agrees "aaa").2.1 "aa" "-" hdisplay⟩

end Stencil.Script.Value
