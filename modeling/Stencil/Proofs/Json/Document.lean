/-
  Reading back JSON documents.

  A document is read back from the line that it is written on when its numbers are, its maps are in
  order and it does not nest too deeply (`readValue_compact`).
-/
import Stencil.Proofs.Dict
import Stencil.Proofs.Json.Number
import Stencil.Proofs.Json.Text

namespace Stencil.Json

/-! ## Documents that can be read back -/

mutual

/-- How deeply arrays and objects lie in each other. -/
def nesting : Json → Nat
  | null | bool _ | whole _ | float _ | string _ => 0
  | array items => nestingItems items + 1
  | object members => nestingMembers members + 1

def nestingItems : List Json → Nat
  | [] => 0
  | j :: rest => max (nesting j) (nestingItems rest)

def nestingMembers : List (String × Json) → Nat
  | [] => 0
  | (_, j) :: rest => max (nesting j) (nestingMembers rest)

end

/-- A number that the reader makes of the text that the writer makes of it. -/
def ReadsBack (x : Float) : Prop := readScalar (floatText x).toList = .ok (.float x, [])

mutual

/-- Whole numbers fit into 64 bits, other numbers are read back, and the names in objects ascend. -/
def Readable : Json → Prop
  | null | bool _ | string _ => True
  | whole n => n.natAbs ≤ 0x8000000000000000
  | float x => ReadsBack x
  | array items => ReadableItems items
  | object members => Dict.Sorted members ∧ ReadableMembers members

def ReadableItems : List Json → Prop
  | [] => True
  | j :: rest => Readable j ∧ ReadableItems rest

def ReadableMembers : List (String × Json) → Prop
  | [] => True
  | (_, j) :: rest => Readable j ∧ ReadableMembers rest

end

/-! ## How a document begins -/

/-- Neither a blank nor a bracket. -/
def BeginsScalar (c : Char) : Prop :=
  isSpace c = false ∧ c ≠ '[' ∧ c ≠ ']' ∧ c ≠ '\x7b'

theorem beginsScalar_of_isDigit {c : Char} (h : c.isDigit = true) : BeginsScalar c := by
  unfold BeginsScalar isSpace
  refine ⟨?_, ?_, ?_, ?_⟩
  · simp only [Bool.or_eq_false_iff, beq_eq_false_iff_ne]
    refine ⟨⟨⟨?_, ?_⟩, ?_⟩, ?_⟩ <;> rintro rfl <;> revert h <;> decide
  all_goals rintro rfl; revert h; decide

theorem readScalar_begins {text : List Char} {p : Json × List Char} (h : readScalar text = .ok p) :
    ∃ c rest, text = c :: rest ∧ BeginsScalar c := by
  have hletter : ∀ c ∈ ['n', 't', 'f', '-', '\x22'], BeginsScalar c := by
    simp [BeginsScalar, isSpace]
  unfold readScalar at h
  split at h
  · exact ⟨_, _, rfl, hletter _ (by simp)⟩
  · exact ⟨_, _, rfl, hletter _ (by simp)⟩
  · exact ⟨_, _, rfl, hletter _ (by simp)⟩
  · exact ⟨_, _, rfl, hletter _ (by simp)⟩
  · exact ⟨_, _, rfl, hletter _ (by simp)⟩
  · split_ifs at h with hdigit
    exact ⟨_, _, rfl, beginsScalar_of_isDigit hdigit⟩
  · cases h

theorem skipSpace_cons {c : Char} (h : isSpace c = false) (text : List Char) :
    skipSpace (c :: text) = c :: text := by
  simp [skipSpace, h]

theorem readValue_of_readScalar {text rest : List Char} {j : Json} (levels : Nat)
    (h : readScalar text = .ok (j, rest)) : readValue levels text = .ok (j, rest) := by
  obtain ⟨c, text, rfl, hspace, hbracket, -, hbrace⟩ := readScalar_begins h
  unfold readValue
  rw [skipSpace_cons hspace]
  split
  · simp_all
  · simp_all
  · exact h

theorem toList_array (items : List Json) :
    (array items).compact.toList = '[' :: ((compactItems items).toList ++ [']']) := by
  simp [compact]

theorem toList_object (members : List (String × Json)) :
    (object members).compact.toList = '\x7b' :: ((compactMembers members).toList ++ ['\x7d']) := by
  simp [compact]

/-- The text of a document begins neither with a blank nor with a closing bracket. -/
theorem compact_begins {j : Json} (hj : j.Readable) :
    ∃ c rest, j.compact.toList = c :: rest ∧ isSpace c = false ∧ c ≠ ']' := by
  have hscalar {text : List Char} {p : Json × List Char} (h : readScalar text = .ok p) :
      ∃ c rest, text = c :: rest ∧ isSpace c = false ∧ c ≠ ']' := by
    obtain ⟨c, rest, htext, hspace, -, hbracket, -⟩ := readScalar_begins h
    exact ⟨c, rest, htext, hspace, hbracket⟩
  cases j with
  | null => exact ⟨_, _, rfl, by decide, by decide⟩
  | bool b => cases b <;> exact ⟨_, _, rfl, by decide, by decide⟩
  | whole n =>
    have hread := readScalar_signed (n := n) hj .nil
    rw [List.append_nil] at hread
    simpa [compact] using hscalar hread
  | float x => exact hscalar hj
  | string s => exact ⟨_, _, toList_quote s, by decide, by decide⟩
  | array items => exact ⟨_, _, toList_array items, by decide, by decide⟩
  | object members => exact ⟨_, _, toList_object members, by decide, by decide⟩

/-! ## Arrays and objects -/

theorem length_le_compactItems : ∀ items : List Json,
    items.length ≤ (compactItems items).toList.length + 1
  | [] => by simp
  | [_] => by simp
  | j :: k :: rest => by
    have := length_le_compactItems (k :: rest)
    simp only [compactItems, String.toList_append, List.length_append, List.length_cons] at *
    have hcomma : ",".toList.length = 1 := rfl
    omega

theorem length_le_compactMembers : ∀ members : List (String × Json),
    members.length ≤ (compactMembers members).toList.length + 1
  | [] => by simp
  | [_] => by simp
  | (_, j) :: k :: rest => by
    have := length_le_compactMembers (k :: rest)
    simp only [compactMembers, String.toList_append, List.length_append, List.length_cons] at *
    have hcomma : ",".toList.length = 1 := rfl
    omega

theorem compactItems_cons (j k : Json) (rest : List Json) (tail : List Char) :
    (compactItems (j :: k :: rest)).toList ++ tail =
      j.compact.toList ++ ',' :: ((compactItems (k :: rest)).toList ++ tail) := by
  simp [compactItems]

theorem compactMembers_single (s : String) (j : Json) (tail : List Char) :
    (compactMembers [(s, j)]).toList ++ tail =
      '\x22' :: (s.toList.flatMap escapeChar ++ '\x22' :: ':' :: (j.compact.toList ++ tail)) := by
  simp [compactMembers, toList_quote]

theorem compactMembers_cons (s : String) (j : Json) (k : String × Json)
    (rest : List (String × Json)) (tail : List Char) :
    (compactMembers ((s, j) :: k :: rest)).toList ++ tail =
      '\x22' :: (s.toList.flatMap escapeChar ++ '\x22' :: ':' ::
        (j.compact.toList ++ ',' :: ((compactMembers (k :: rest)).toList ++ tail))) := by
  simp [compactMembers, toList_quote]

/-- The items of an array, when each of them is read back. -/
theorem readItems_compact {value : List Char → Reads Json} (rest : List Char) :
    ∀ {items : List Json} {fuel : Nat}, items ≠ [] → items.length ≤ fuel →
      (∀ j ∈ items, ∀ rest, EndsNumber rest → value (j.compact.toList ++ rest) = .ok (j, rest)) →
      readItems value fuel ((compactItems items).toList ++ ']' :: rest) = .ok (items, rest)
  | [], _, hne, _, _ => absurd rfl hne
  | j :: _, 0, _, hfuel, _ => absurd hfuel (by simp)
  | [j], fuel + 1, _, _, hvalue => by
    have hread := hvalue j List.mem_cons_self (']' :: rest) (endsNumber_cons (by simp))
    simp only [compactItems, readItems, hread, skipSpace_cons (c := ']') (by decide)]
  | j :: k :: items, fuel + 1, _, hfuel, hvalue => by
    obtain ⟨hj, hothers⟩ := List.forall_mem_cons.mp hvalue
    rw [compactItems_cons, readItems, hj _ (endsNumber_cons (by simp))]
    have hrest := readItems_compact rest (List.cons_ne_nil k items) (by simpa using hfuel) hothers
    simp only [skipSpace_cons (c := ',') (by decide), hrest]

/-- The members of an object, when the value of each of them is read back. -/
theorem readMembers_compact {value : List Char → Reads Json} (rest : List Char) :
    ∀ {members : List (String × Json)} {fuel : Nat}, members ≠ [] → members.length ≤ fuel →
      (∀ p ∈ members, ∀ rest, EndsNumber rest →
        value (p.2.compact.toList ++ rest) = .ok (p.2, rest)) →
      readMembers value fuel ((compactMembers members).toList ++ '\x7d' :: rest) =
        .ok (members, rest)
  | [], _, hne, _, _ => absurd rfl hne
  | _ :: _, 0, _, hfuel, _ => absurd hfuel (by simp)
  | [(s, j)], fuel + 1, _, _, hvalue => by
    have hread := hvalue (s, j) List.mem_cons_self ('\x7d' :: rest) (endsNumber_cons (by simp))
    rw [compactMembers_single]
    simp only [readMembers, skipSpace_cons (c := '\x22') (by decide), readString_quote,
      skipSpace_cons (c := ':') (by decide), hread, skipSpace_cons (c := '\x7d') (by decide)]
  | (s, j) :: k :: members, fuel + 1, _, hfuel, hvalue => by
    obtain ⟨hj, hothers⟩ := List.forall_mem_cons.mp hvalue
    have hrest := readMembers_compact rest (List.cons_ne_nil k members) (by simpa using hfuel)
      hothers
    have hread := hj (',' :: ((compactMembers (k :: members)).toList ++ '\x7d' :: rest))
      (endsNumber_cons (by simp))
    rw [compactMembers_cons]
    simp only [readMembers, skipSpace_cons (c := '\x22') (by decide), readString_quote,
      skipSpace_cons (c := ':') (by decide), hread, skipSpace_cons (c := ',') (by decide), hrest]

theorem readArray_compact {value : List Char → Reads Json} (rest : List Char) {items : List Json}
    (hitems : ∀ j ∈ items, j.Readable)
    (hvalue : ∀ j ∈ items, ∀ rest, EndsNumber rest →
      value (j.compact.toList ++ rest) = .ok (j, rest)) :
    readArray value ((compactItems items).toList ++ ']' :: rest) = .ok (items, rest) := by
  cases items with
  | nil => simp [compactItems, readArray, skipSpace_cons (c := ']') (by decide)]
  | cons j others =>
    obtain ⟨c, text, hbegins, hspace, hbracket⟩ := compact_begins (hitems j List.mem_cons_self)
    obtain ⟨behind, htext⟩ : ∃ behind, (compactItems (j :: others)).toList = c :: behind := by
      cases others <;> simp [compactItems, hbegins]
    have hfuel : (j :: others).length ≤
        ((compactItems (j :: others)).toList ++ ']' :: rest).length + 1 := by
      have := length_le_compactItems (j :: others)
      simp only [List.length_append]
      omega
    have hread := readItems_compact rest (by simp) hfuel hvalue
    unfold readArray
    rw [htext] at hread ⊢
    rw [List.cons_append, skipSpace_cons hspace]
    split
    · simp_all
    · exact hread

theorem readObject_compact {value : List Char → Reads Json} (rest : List Char)
    {members : List (String × Json)} (hsorted : Dict.Sorted members)
    (hvalue : ∀ p ∈ members, ∀ rest, EndsNumber rest →
      value (p.2.compact.toList ++ rest) = .ok (p.2, rest)) :
    readObject value ((compactMembers members).toList ++ '\x7d' :: rest) = .ok (members, rest) := by
  cases members with
  | nil => simp [compactMembers, readObject, skipSpace_cons (c := '\x7d') (by decide)]
  | cons p others =>
    obtain ⟨behind, htext⟩ : ∃ behind, (compactMembers (p :: others)).toList = '\x22' :: behind := by
      cases others <;> simp [compactMembers, toList_quote]
    have hfuel : (p :: others).length ≤
        ((compactMembers (p :: others)).toList ++ '\x7d' :: rest).length + 1 := by
      have := length_le_compactMembers (p :: others)
      simp only [List.length_append]
      omega
    have hread := readMembers_compact rest (by simp) hfuel hvalue
    unfold readObject
    rw [htext] at hread ⊢
    rw [List.cons_append, skipSpace_cons (by decide)]
    rw [List.cons_append] at hread
    split
    · simp_all
    · rw [hread]
      exact congrArg (fun d => Except.ok (d, rest)) (Dict.ofList_of_sorted hsorted)

/-! ## Documents -/

theorem readable_of_mem_items {j : Json} : ∀ {items : List Json}, ReadableItems items → j ∈ items →
    j.Readable
  | k :: items, h, hj => by
    rcases List.mem_cons.mp hj with rfl | hj
    · exact h.1
    · exact readable_of_mem_items h.2 hj

theorem readable_of_mem_members {p : String × Json} :
    ∀ {members : List (String × Json)}, ReadableMembers members → p ∈ members → p.2.Readable
  | q :: members, h, hp => by
    rcases List.mem_cons.mp hp with rfl | hp
    · exact h.1
    · exact readable_of_mem_members h.2 hp

theorem nesting_le_items {j : Json} : ∀ {items : List Json}, j ∈ items →
    j.nesting ≤ nestingItems items
  | k :: items, hj => by
    rw [nestingItems]
    rcases List.mem_cons.mp hj with rfl | hj
    · exact le_max_left _ _
    · exact (nesting_le_items hj).trans (le_max_right _ _)

theorem nesting_le_members {p : String × Json} : ∀ {members : List (String × Json)}, p ∈ members →
    p.2.nesting ≤ nestingMembers members
  | (_, k) :: members, hp => by
    rw [nestingMembers]
    rcases List.mem_cons.mp hp with rfl | hp
    · exact le_max_left _ _
    · exact (nesting_le_members hp).trans (le_max_right _ _)

/-- **Documents.** A readable document that does not nest too deeply is read back, in front of
    anything that ends a number. -/
theorem readValue_compact {j : Json} (hj : j.Readable) {levels : Nat} (hlevels : j.nesting < levels)
    {rest : List Char} (hrest : EndsNumber rest) :
    readValue levels (j.compact.toList ++ rest) = .ok (j, rest) := by
  induction levels generalizing j rest with
  | zero => exact absurd hlevels (Nat.not_lt_zero _)
  | succ levels ih =>
    match j with
    | null => exact readValue_of_readScalar _ rfl
    | bool true => exact readValue_of_readScalar _ rfl
    | bool false => exact readValue_of_readScalar _ rfl
    | whole n =>
      apply readValue_of_readScalar
      simpa [compact] using readScalar_signed hj hrest
    | float x => exact readValue_of_readScalar _ (readScalar_append hrest hj)
    | string s =>
      apply readValue_of_readScalar
      simp [compact, toList_quote, readScalar, readString_quote, Except.map]
    | array items =>
      obtain ⟨levels, rfl⟩ : ∃ n, levels = n + 1 :=
        Nat.exists_eq_succ_of_ne_zero (by rw [nesting] at hlevels; omega)
      have hitems := fun j hj' => readable_of_mem_items (j := j) hj hj'
      have hread := readArray_compact rest hitems fun j hj' rest hrest =>
        ih (hitems j hj') (by rw [nesting] at hlevels; have := nesting_le_items hj'; omega) hrest
      rw [toList_array, List.cons_append, List.append_assoc]
      unfold readValue
      rw [skipSpace_cons (by decide)]
      simp [hread, Except.map]
    | object members =>
      obtain ⟨levels, rfl⟩ : ∃ n, levels = n + 1 :=
        Nat.exists_eq_succ_of_ne_zero (by rw [nesting] at hlevels; omega)
      have hread := readObject_compact rest hj.1 fun p hp rest hrest =>
        ih (readable_of_mem_members hj.2 hp)
          (by rw [nesting] at hlevels; have := nesting_le_members hp; omega) hrest
      rw [toList_object, List.cons_append, List.append_assoc]
      unfold readValue
      rw [skipSpace_cons (by decide)]
      simp [hread, Except.map]

/-- **A text that is an object.** -/
theorem objectOfString_compact {members : List (String × Json)}
    (hmembers : (object members).Readable) (hnesting : (object members).nesting < nestingLimit) :
    objectOfString (object members).compact = .ok members := by
  have hvalue : ∀ p ∈ members, ∀ rest, EndsNumber rest →
      readValue (nestingLimit - 1) (p.2.compact.toList ++ rest) = .ok (p.2, rest) :=
    fun p hp rest hrest => readValue_compact (readable_of_mem_members hmembers.2 hp)
      (by rw [nesting] at hnesting; have := nesting_le_members hp; omega) hrest
  have hread := readObject_compact [] hmembers.1 hvalue
  rw [objectOfString, toList_object, skipSpace_cons (by decide)]
  simp [hread, skipSpace]

end Stencil.Json
