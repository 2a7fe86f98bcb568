/-
  Values through JSON documents and back.

  `normalize` says what JSON cannot: it has no `undefined`, no functions and no numbers but finite
  ones, for which `null` stands, and a zero has no sign.  Everything else comes back as it was
  (`ofJson_toJson`), and what does not is not written either (`toJson_normalize`).
-/
import Stencil.Proofs.Number.Whole
import Stencil.Script.Value.Json

namespace Stencil.Script.Value

/-- A number as JSON keeps it: `null` unless it is finite, and a zero without its sign. -/
def normalizeNumber (x : Float) : Value :=
  if x.isFinite then number (if x == 0.0 then 0.0 else x) else null

mutual

/-- The value as JSON keeps it: `null` stands for what it cannot say. -/
def normalize : Value → Value
  | undefined | null | function .. | native _ => null
  | bool b => bool b
  | number x => normalizeNumber x
  | text s => text s
  | array items => array (normalizeItems items)
  | object members => object (normalizeMembers members)

def normalizeItems : List Value → List Value
  | [] => []
  | v :: rest => normalize v :: normalizeItems rest

def normalizeMembers : List (String × Value) → List (String × Value)
  | [] => []
  | (s, v) :: rest => (s, normalize v) :: normalizeMembers rest

end

/-! ## Numbers -/

theorem numberToJson_of_zero {x : Float} (h : (x == 0.0) = true) : numberToJson x = .whole 0 := by
  obtain ⟨hround, hwhole⟩ := Number.rounded_zero h
  simp only [numberToJson, hround]
  exact if_pos ⟨hwhole, by decide⟩

theorem numberToJson_of_not_finite {x : Float} (h : ¬ x.isFinite = true) :
    numberToJson x = .null := by
  have hnone (n : Int) : Number.rounded x ≠ .whole n := fun hn =>
    h ((Number.isFinite_iff x).mpr ⟨n, hn⟩)
  unfold numberToJson
  split
  · exact absurd ‹_› (hnone _)
  · rfl

/-- Reading back what a number is written as. -/
theorem ofJson_numberToJson (x : Float) : ofJson (numberToJson x) = normalizeNumber x := by
  unfold normalizeNumber
  split_ifs with hfinite hzero
  · rw [numberToJson_of_zero hzero]
    rfl
  · obtain ⟨n, hn⟩ := (Number.isFinite_iff x).mp hfinite
    simp only [numberToJson, hn]
    split_ifs with h
    · exact congrArg number (Number.ofInt_of_rounded hn h.1 h.2 (by simpa using hzero))
    · rfl
  · rw [numberToJson_of_not_finite hfinite, ofJson]

/-- What JSON does not keep of a number is not written either. -/
theorem toJson_normalizeNumber (x : Float) : (normalizeNumber x).toJson = numberToJson x := by
  unfold normalizeNumber
  split_ifs with hfinite hzero
  · rw [toJson, numberToJson_of_zero hzero, numberToJson_of_zero (by decide +kernel)]
  · rw [toJson]
  · rw [toJson, numberToJson_of_not_finite hfinite]

/-! ## Values -/

mutual

theorem ofJson_toJson (v : Value) : ofJson v.toJson = v.normalize := by
  match v with
  | undefined | null | bool _ | text _ | function .. | native _ =>
    simp only [toJson, ofJson, normalize]
  | number x => simp only [toJson, normalize, ofJson_numberToJson]
  | array items => simp only [toJson, ofJson, normalize, itemsOfJson_itemsToJson items]
  | object members => simp only [toJson, ofJson, normalize, membersOfJson_membersToJson members]

theorem itemsOfJson_itemsToJson (items : List Value) :
    itemsOfJson (itemsToJson items) = normalizeItems items := by
  match items with
  | [] => simp only [itemsToJson, itemsOfJson, normalizeItems]
  | v :: rest =>
    simp only [itemsToJson, itemsOfJson, normalizeItems, ofJson_toJson v,
      itemsOfJson_itemsToJson rest]

theorem membersOfJson_membersToJson (members : List (String × Value)) :
    membersOfJson (membersToJson members) = normalizeMembers members := by
  match members with
  | [] => simp only [membersToJson, membersOfJson, normalizeMembers]
  | (_, v) :: rest =>
    simp only [membersToJson, membersOfJson, normalizeMembers, ofJson_toJson v,
      membersOfJson_membersToJson rest]

end

mutual

/-- Both are written alike. -/
theorem toJson_normalize (v : Value) : v.normalize.toJson = v.toJson := by
  match v with
  | undefined | null | bool _ | text _ | function .. | native _ => simp only [toJson, normalize]
  | number x => rw [normalize, toJson_normalizeNumber, toJson]
  | array items => simp only [toJson, normalize, itemsToJson_normalizeItems items]
  | object members => simp only [toJson, normalize, membersToJson_normalizeMembers members]

theorem itemsToJson_normalizeItems (items : List Value) :
    itemsToJson (normalizeItems items) = itemsToJson items := by
  match items with
  | [] => rw [normalizeItems]
  | v :: rest =>
    simp only [itemsToJson, normalizeItems, toJson_normalize v, itemsToJson_normalizeItems rest]

theorem membersToJson_normalizeMembers (members : List (String × Value)) :
    membersToJson (normalizeMembers members) = membersToJson members := by
  match members with
  | [] => rw [normalizeMembers]
  | (_, v) :: rest =>
    simp only [membersToJson, normalizeMembers, toJson_normalize v,
      membersToJson_normalizeMembers rest]

end

end Stencil.Script.Value
