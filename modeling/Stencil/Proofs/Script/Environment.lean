/-
  Environments through JSON documents and back.

  A value is written as a document that can be read back when the objects in it are maps and the
  text of each number that is not whole is one of that number (`readable_toJson`).  Reading an
  environment back succeeds wherever what writes and reads JSON is inverse on its document, and a
  second time nothing changes (`json_round_trip`).
-/
import Stencil.Proofs.Json.Document
import Stencil.Proofs.Script.Value.Json
import Stencil.Script.Environment

namespace Stencil

/-! ## What writes and reads JSON -/

namespace Json.Codec

/-- The codec reads back what it writes of every object with the property `D`. -/
def InverseOn (codec : Codec) (D : Dict Json → Prop) : Prop :=
  ∀ members, D members → codec.read (codec.write members) = .ok members

theorem compact_inverseOn : compact.InverseOn fun members =>
    (object members).Readable ∧ (object members).nesting < nestingLimit :=
  fun _ h => objectOfString_compact h.1 h.2

end Json.Codec

namespace Script

namespace Value

/-! ## What is written -/

mutual

/-- How deeply arrays and objects lie in each other. -/
def nesting : Value → Nat
  | array items => nestingItems items + 1
  | object members => nestingMembers members + 1
  | _ => 0

def nestingItems : List Value → Nat
  | [] => 0
  | v :: rest => max (nesting v) (nestingItems rest)

def nestingMembers : List (String × Value) → Nat
  | [] => 0
  | (_, v) :: rest => max (nesting v) (nestingMembers rest)

end

mutual

/-- Every number found in a value. -/
def numbers : Value → List Float
  | number x => [x]
  | array items => numbersItems items
  | object members => numbersMembers members
  | _ => []

def numbersItems : List Value → List Float
  | [] => []
  | v :: rest => numbers v ++ numbersItems rest

def numbersMembers : List (String × Value) → List Float
  | [] => []
  | (_, v) :: rest => numbers v ++ numbersMembers rest

end

mutual

/-- Every object found in a value is a map. -/
def Ordered : Value → Prop
  | array items => OrderedItems items
  | object members => Dict.Sorted members ∧ OrderedMembers members
  | _ => True

def OrderedItems : List Value → Prop
  | [] => True
  | v :: rest => Ordered v ∧ OrderedItems rest

def OrderedMembers : List (String × Value) → Prop
  | [] => True
  | (_, v) :: rest => Ordered v ∧ OrderedMembers rest

end

theorem nesting_numberToJson (x : Float) : (numberToJson x).nesting = 0 := by
  unfold numberToJson
  split
  · split_ifs <;> rw [Json.nesting]
  · rw [Json.nesting]

mutual

/-- The document nests as the value does. -/
theorem nesting_toJson (v : Value) : v.toJson.nesting = v.nesting := by
  match v with
  | undefined | null | bool _ | text _ | function .. | native _ =>
    simp only [toJson, Json.nesting, nesting]
  | number x => simp only [toJson, nesting, nesting_numberToJson]
  | array items => simp only [toJson, Json.nesting, nesting, nesting_itemsToJson items]
  | object members => simp only [toJson, Json.nesting, nesting, nesting_membersToJson members]

theorem nesting_itemsToJson (items : List Value) :
    Json.nestingItems (itemsToJson items) = nestingItems items := by
  match items with
  | [] => simp only [itemsToJson, Json.nestingItems, nestingItems]
  | v :: rest =>
    simp only [itemsToJson, Json.nestingItems, nestingItems, nesting_toJson v,
      nesting_itemsToJson rest]

theorem nesting_membersToJson (members : List (String × Value)) :
    Json.nestingMembers (membersToJson members) = nestingMembers members := by
  match members with
  | [] => simp only [membersToJson, Json.nestingMembers, nestingMembers]
  | (_, v) :: rest =>
    simp only [membersToJson, Json.nestingMembers, nestingMembers, nesting_toJson v,
      nesting_membersToJson rest]

end

/-! ## What can be read back -/

/-- A number that is written with a point is read back from its text. -/
def Legible (x : Float) : Prop := numberToJson x = .float x → Json.ReadsBack x

/-- What is written without a point is far below 2^63. -/
theorem readable_numberToJson {x : Float} (h : Legible x) : (numberToJson x).Readable := by
  unfold Legible at h
  unfold numberToJson at h ⊢
  split
  · rename_i n hn
    simp only [hn] at h
    split_ifs at h ⊢ with hwhole
    · have hbits : Number.twoTo 53 < 0x8000000000000000 := by decide
      exact (hwhole.2.trans hbits).le
    · exact h rfl
  · trivial

theorem map_fst_membersToJson (members : List (String × Value)) :
    (membersToJson members).map Prod.fst = members.map Prod.fst := by
  induction members with
  | nil => rw [membersToJson]; rfl
  | cons p rest ih => rw [membersToJson, List.map_cons, ih, List.map_cons]

theorem sorted_membersToJson {members : List (String × Value)} (h : Dict.Sorted members) :
    Dict.Sorted (membersToJson members) := by
  have hkeys {α : Type} (d : Dict α) : Dict.Sorted d ↔ (d.map Prod.fst).Pairwise (· < ·) :=
    List.pairwise_map.symm
  rwa [hkeys, map_fst_membersToJson, ← hkeys]

mutual

theorem readable_toJson (v : Value) (hv : v.Ordered) (hnumbers : ∀ x ∈ v.numbers, Legible x) :
    v.toJson.Readable := by
  match v with
  | undefined | null | bool _ | text _ | function .. | native _ => simp only [toJson, Json.Readable]
  | number x =>
    rw [toJson]
    exact readable_numberToJson (hnumbers x (by simp [numbers]))
  | array items =>
    rw [toJson, Json.Readable]
    exact readable_itemsToJson items (by rwa [Ordered] at hv) (by rwa [numbers] at hnumbers)
  | object members =>
    rw [Ordered] at hv
    rw [toJson, Json.Readable]
    exact ⟨sorted_membersToJson hv.1,
      readable_membersToJson members hv.2 (by rwa [numbers] at hnumbers)⟩

theorem readable_itemsToJson (items : List Value) (hitems : OrderedItems items)
    (hnumbers : ∀ x ∈ numbersItems items, Legible x) :
    Json.ReadableItems (itemsToJson items) := by
  match items with
  | [] => rw [itemsToJson, Json.ReadableItems]; trivial
  | v :: rest =>
    rw [OrderedItems] at hitems
    rw [numbersItems, List.forall_mem_append] at hnumbers
    rw [itemsToJson, Json.ReadableItems]
    exact ⟨readable_toJson v hitems.1 hnumbers.1,
      readable_itemsToJson rest hitems.2 hnumbers.2⟩

theorem readable_membersToJson (members : List (String × Value)) (hmembers : OrderedMembers members)
    (hnumbers : ∀ x ∈ numbersMembers members, Legible x) :
    Json.ReadableMembers (membersToJson members) := by
  match members with
  | [] => rw [membersToJson, Json.ReadableMembers]; trivial
  | (_, v) :: rest =>
    rw [OrderedMembers] at hmembers
    rw [numbersMembers, List.forall_mem_append] at hnumbers
    rw [membersToJson, Json.ReadableMembers]
    exact ⟨readable_toJson v hmembers.1 hnumbers.1,
      readable_membersToJson rest hmembers.2 hnumbers.2⟩

end

end Value

/-! ## Environments -/

namespace Environment

/-- Through a codec and back, and a second time, where the codec reads back the document. -/
theorem round_trip_by {codec : Json.Codec} {D : Dict Json → Prop} (hcodec : codec.InverseOn D)
    {env : Environment} (hdocument : D (Value.membersToJson env)) :
    ofJsonBy codec (toJsonBy codec env) = .ok (Value.normalizeMembers env) ∧
    ofJsonBy codec (toJsonBy codec (Value.normalizeMembers env)) =
      .ok (Value.normalizeMembers env) := by
  have hread : ofJsonBy codec (toJsonBy codec env) = .ok (Value.normalizeMembers env) := by
    rw [ofJsonBy, toJsonBy, hcodec _ hdocument]
    exact congrArg Except.ok (Value.membersOfJson_membersToJson env)
  -- what JSON keeps of the variables has the document that they had
  have htext : toJsonBy codec (Value.normalizeMembers env) = toJsonBy codec env :=
    congrArg codec.write (Value.membersToJson_normalizeMembers env)
  exact ⟨hread, htext ▸ hread⟩

/-- What is written of an environment can be read back. -/
theorem document_readable {env : Environment} (hordered : (Value.object env).Ordered)
    (hnesting : (Value.object env).nesting < Json.nestingLimit)
    (hnumbers : ∀ x ∈ (Value.object env).numbers, Value.Legible x) :
    (Json.object (Value.membersToJson env)).Readable ∧
      (Json.object (Value.membersToJson env)).nesting < Json.nestingLimit := by
  rw [← Value.toJson, Value.nesting_toJson]
  exact ⟨Value.readable_toJson _ hordered hnumbers, hnesting⟩

/-- **Through JSON and back.** A value comes back as what JSON keeps of it.  So does each variable
    of an environment, where the codec reads back what it writes of the environment's document, and
    the environment that is read is written and read again without a change.  The codec of this
    library does so with every environment of ordered objects and legible numbers that does not
    nest too deeply. -/
theorem json_round_trip :
    (∀ v : Value, Value.ofJson v.toJson = v.normalize) ∧
    (∀ (codec : Json.Codec) (D : Dict Json → Prop), codec.InverseOn D →
      ∀ env : Environment, D (Value.membersToJson env) →
        ofJsonBy codec (toJsonBy codec env) = .ok (Value.normalizeMembers env) ∧
        ofJsonBy codec (toJsonBy codec (Value.normalizeMembers env)) =
          .ok (Value.normalizeMembers env)) ∧
    ∀ env : Environment, (Value.object env).Ordered →
      (Value.object env).nesting < Json.nestingLimit →
      (∀ x ∈ (Value.object env).numbers, Value.Legible x) →
      ofJson (toJson env) = .ok (Value.normalizeMembers env) ∧
      ofJson (toJson (Value.normalizeMembers env)) = .ok (Value.normalizeMembers env) :=
  ⟨Value.ofJson_toJson, fun _ _ hcodec _ hdocument => round_trip_by hcodec hdocument,
    fun _ hordered hnesting hnumbers =>
      round_trip_by Json.Codec.compact_inverseOn (document_readable hordered hnesting hnumbers)⟩

theorem json_round_trip_nested :
    let env : Environment :=
      [("a", .array [.number 0.5, .undefined]), ("b", .object [("c", .native .floor)]),
        ("d", .number (-0.0))]
    let kept : Environment :=
      [("a", .array [.number 0.5, .null]), ("b", .object [("c", .null)]), ("d", .number 0.0)]
    ofJsonBy .compact (toJsonBy .compact env) = .ok kept ∧ ofJson (toJson kept) = .ok kept := by
  intro env kept
  have hhalf : Json.ReadsBack 0.5 := by
    unfold Json.ReadsBack
    rw [show Json.floatText 0.5 = "0.5" by decide +kernel]
    rfl
  have hzero : Value.numberToJson (-0.0) = .whole 0 :=
    Value.numberToJson_of_zero (by decide +kernel)
  have hordered : (Value.object env).Ordered := by
    simp only [env, Value.Ordered, Value.OrderedItems, Value.OrderedMembers, Dict.Sorted]
    decide
  have hnumbers : ∀ x ∈ (Value.object env).numbers, Value.Legible x := by
    intro x hx
    simp only [env, Value.numbers, Value.numbersItems, Value.numbersMembers, List.mem_cons,
      List.append_nil, List.nil_append, List.singleton_append, List.not_mem_nil, or_false] at hx
    rcases hx with rfl | rfl
    · exact fun _ => hhalf
    · exact fun h => by cases hzero.symm.trans h
  have hnormal : Value.normalizeNumber 0.5 = .number 0.5 ∧
      Value.normalizeNumber (-0.0) = .number 0.0 := by
    unfold Value.normalizeNumber
    rw [if_pos (by decide +kernel), if_neg (by decide +kernel), if_pos (by decide +kernel),
      if_pos (by decide +kernel)]
    exact ⟨rfl, rfl⟩
  have hkept : Value.normalizeMembers env = kept := by
    simp only [env, kept, Value.normalizeMembers, Value.normalizeItems, Value.normalize, hnormal]
  have hby := json_round_trip.2.1 .compact _ Json.Codec.compact_inverseOn env
    (document_readable hordered (by decide) hnumbers)
  have hown := json_round_trip.2.2 env hordered (by decide) hnumbers
  rw [hkept] at hby hown
  exact ⟨hby.1, hown.2⟩

end Environment

end Script

end Stencil
