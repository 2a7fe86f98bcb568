/-
  The functions that values hold.

  No operation on values makes a function: what comes out of one holds only functions that went in,
  so that every property is kept that arrays and objects have when the values in them do, and that
  only functions may lack (`Hereditary`).  What an operation cannot do is a misuse of a value or the
  call of what is none of a function (`Yields`), so never a fault of syntax, about the output or
  about a name.  One lemma for each operation says so; the evaluator needs to know nothing else
  about them.
-/
import Stencil.Proofs.Dict
import Stencil.Script.Slot

namespace Stencil.Script

namespace Value

/-! ## Properties of values -/

/-- A property that an array or an object has exactly when all values in it do, and that no value
    but a function lacks of itself. -/
class Hereditary (H : Value → Prop) : Prop where
  undefined : H undefined
  null : H null
  bool (b : Bool) : H (bool b)
  number (x : Float) : H (number x)
  text (s : String) : H (text s)
  native (n : Native) : H (native n)
  array {items : List Value} : H (array items) ↔ ∀ v ∈ items, H v
  object {members : List (String × Value)} : H (object members) ↔ ∀ p ∈ members, H p.2

/-! ## Functions in values -/

mutual

/-- Every function found in a value. -/
def functions : Value → List Function
  | function _ f => [f]
  | array items => functionsItems items
  | object members => functionsMembers members
  | undefined | null | bool _ | number _ | text _ | native _ => []

def functionsItems : List Value → List Function
  | [] => []
  | v :: rest => functions v ++ functionsItems rest

def functionsMembers : List (String × Value) → List Function
  | [] => []
  | (_, v) :: rest => functions v ++ functionsMembers rest

end

/-- Every function found in the value has the property. -/
def Holds (F : Function → Prop) (v : Value) : Prop := ∀ f ∈ v.functions, F f

variable {F : Function → Prop}

@[simp] theorem holds_undefined : Holds F undefined := fun _ h => by cases h
@[simp] theorem holds_null : Holds F null := fun _ h => by cases h
@[simp] theorem holds_bool (b : Bool) : Holds F (bool b) := fun _ h => by cases h
@[simp] theorem holds_number (x : Float) : Holds F (number x) := fun _ h => by cases h
@[simp] theorem holds_text (s : String) : Holds F (text s) := fun _ h => by cases h
@[simp] theorem holds_native (n : Native) : Holds F (native n) := fun _ h => by cases h

@[simp] theorem holds_function {run : Nat} {f : Function} : Holds F (function run f) ↔ F f := by
  simp [Holds, functions]

@[simp] theorem holds_array {items : List Value} :
    Holds F (array items) ↔ ∀ v ∈ items, Holds F v := by
  simp only [Holds, functions]
  induction items with
  | nil => simp [functionsItems]
  | cons v rest ih => rw [functionsItems, List.forall_mem_append, ih, List.forall_mem_cons]

theorem forall_functionsMembers {members : List (String × Value)} :
    (∀ f ∈ functionsMembers members, F f) ↔ ∀ p ∈ members, Holds F p.2 := by
  induction members with
  | nil => simp [functionsMembers]
  | cons p rest ih =>
    rw [functionsMembers, List.forall_mem_append, ih, List.forall_mem_cons]
    rfl

@[simp] theorem holds_object {members : List (String × Value)} :
    Holds F (object members) ↔ ∀ p ∈ members, Holds F p.2 := by
  rw [Holds, functions, forall_functionsMembers]

instance : Hereditary (Holds F) where
  undefined := holds_undefined
  null := holds_null
  bool := holds_bool
  number := holds_number
  text := holds_text
  native := holds_native
  array := holds_array
  object := holds_object

end Value

open Value

/-! ## Operations on values -/

/-- The fault is one that an operation meets: it is not one of syntax, nor about the output or the
    number of calls. -/
def Fault.isOperational : Fault → Bool
  | .misuse (.outputNotString _) | .callDepthExceeded _ => false
  | fault => !fault.isSyntax

theorem Fault.isSyntax_of_isOperational {fault : Fault} (h : fault.isOperational = true) :
    fault.isSyntax = false := by
  unfold isOperational at h
  split at h
  · cases h
  · cases h
  · simpa using h

/-- The result of an operation has `Q`; if there is none, the fault is one of operations. -/
def Gives {α : Type} (r : Except Fault α) (Q : α → Prop) : Prop :=
  match r with
  | .ok a => Q a
  | .error fault => fault.isOperational = true

/-- The fault is one that an operation on values meets, to which names mean nothing. -/
def Fault.isOfValues : Fault → Bool
  | .misuse (.outputNotString _) => false
  | .misuse _ | .notCallable _ => true
  | _ => false

theorem Fault.isOperational_of_isOfValues {fault : Fault} (h : fault.isOfValues = true) :
    fault.isOperational = true := by
  cases fault with
  | misuse cause =>
    cases cause with
    | outputNotString name => cases h
    | _ => rfl
  | notCallable what => rfl
  | _ => cases h

/-- The result of an operation on values has `Q`; if there is none, the fault is one of values. -/
def Yields {α : Type} (r : Except Fault α) (Q : α → Prop) : Prop :=
  match r with
  | .ok a => Q a
  | .error fault => fault.isOfValues = true

theorem Yields.gives {α : Type} {r : Except Fault α} {Q : α → Prop} (h : Yields r Q) :
    Gives r Q := by
  cases r with
  | ok a => exact h
  | error fault => exact Fault.isOperational_of_isOfValues h

theorem Gives.map {α β : Type} {r : Except Fault α} {f : α → β} {Q : α → Prop} {Q' : β → Prop}
    (h : Gives r Q) (hQ : ∀ a, Q a → Q' (f a)) : Gives (r.map f) Q' := by
  cases r with
  | ok a => exact hQ a h
  | error fault => exact h

theorem Gives.mono {α : Type} {r : Except Fault α} {Q Q' : α → Prop} (h : Gives r Q)
    (hQ : ∀ a, Q a → Q' a) : Gives r Q' := by
  cases r with
  | ok a => exact hQ a h
  | error fault => exact h

theorem Yields.mono {α : Type} {r : Except Fault α} {Q Q' : α → Prop} (h : Yields r Q)
    (hQ : ∀ a, Q a → Q' a) : Yields r Q' := by
  cases r with
  | ok a => exact hQ a h
  | error fault => exact h

theorem Yields.map {α β : Type} {r : Except Fault α} {f : α → β} {Q : α → Prop} {Q' : β → Prop}
    (h : Yields r Q) (hQ : ∀ a, Q a → Q' (f a)) : Yields (r.map f) Q' := by
  cases r with
  | ok a => exact hQ a h
  | error fault => exact h

variable {H : Value → Prop} [Hereditary H]

namespace Value

theorem holds_getD {items : List Value} (h : ∀ v ∈ items, H v) (i : Nat) :
    H (items[i]?.getD undefined) := by
  cases hi : items[i]? with
  | none => exact Hereditary.undefined
  | some v => exact h v (List.mem_of_getElem? hi)

theorem readMember_yields {receiver : Value} (h : H receiver) (name : String) :
    Yields (readMember receiver name) H := by
  cases receiver with
  | undefined | null => rfl
  | text s =>
    simp only [readMember, Yields]
    split
    · exact Hereditary.number _
    · exact Hereditary.undefined
  | array items =>
    simp only [readMember, Yields]
    split
    · exact Hereditary.number _
    · exact Hereditary.undefined
  | object members =>
    simp only [readMember, Yields]
    cases hv : Dict.get? members name with
    | none => exact Hereditary.undefined
    | some v => exact Dict.forall_get? (Hereditary.object.mp h) hv
  | bool _ | number _ | function _ _ | native _ => exact Hereditary.undefined

theorem charAt?_holds {s : String} {x : Float} {v : Value} (h : charAt? s x = some v) :
    H v := by
  simp only [charAt?, Option.bind_eq_some_iff, Option.map_eq_some_iff] at h
  obtain ⟨_, _, _, _, rfl⟩ := h
  exact Hereditary.text _

theorem holds_charAt?_getD {missing : Value} (hmissing : H missing) (s : String) (x : Float) :
    H ((charAt? s x).getD missing) := by
  cases h : charAt? s x with
  | none => exact hmissing
  | some v => exact charAt?_holds h

theorem readIndex_yields {receiver : Value} (h : H receiver) (key : Value) :
    Yields (readIndex receiver key) H := by
  unfold readIndex
  split
  · rename_i items x
    simp only [Yields]
    cases hi : Number.index? items.length x with
    | none => exact Hereditary.undefined
    | some i => exact holds_getD (Hereditary.array.mp h) i
  · exact holds_charAt?_getD Hereditary.undefined _ _
  · exact readMember_yields h _

theorem setItem_holds {items : List Value} {value : Value} (h : ∀ v ∈ items, H v)
    (hvalue : H value) (i : Nat) : ∀ v ∈ setItem items i value, H v := by
  unfold setItem
  split
  · intro v hv
    rcases List.mem_or_eq_of_mem_set hv with hv | rfl
    · exact h v hv
    · exact hvalue
  · simp only [List.forall_mem_append, List.forall_mem_singleton]
    refine ⟨⟨h, fun v hv => ?_⟩, hvalue⟩
    rw [List.eq_of_mem_replicate hv]
    exact Hereditary.undefined

theorem setIndex_yields {receiver value : Value} (h : H receiver) (key : Value)
    (hvalue : H value) : Yields (setIndex receiver key value) H := by
  unfold setIndex
  split
  · split
    · split
      · rfl
      · split
        · rfl
        · exact Hereditary.array.mpr (setItem_holds (Hereditary.array.mp h) hvalue _)
    · rfl
  · exact Hereditary.object.mpr (Dict.forall_insert (Hereditary.object.mp h) _ hvalue)
  · rfl

/-! ## Along paths -/

theorem existing_yields {receiver : Value} (h : H receiver) (key : Value) :
    Yields (existing receiver key) H := by
  simp only [existing]
  split
  · split
    · rename_i hv
      obtain ⟨i, -, hi⟩ := Option.bind_eq_some_iff.mp hv
      exact Hereditary.array.mp h _ (List.mem_of_getElem? hi)
    · rfl
  · split
    · exact Dict.forall_get? (Hereditary.object.mp h) ‹_›
    · rfl
  · rfl

theorem replaceExisting_holds {receiver value : Value} (h : H receiver) (key : Value)
    (hvalue : H value) : H (replaceExisting receiver key value) := by
  unfold replaceExisting
  split
  · split
    · refine Hereditary.array.mpr fun v hv => ?_
      rcases List.mem_or_eq_of_mem_set hv with hv | rfl
      · exact Hereditary.array.mp h v hv
      · exact hvalue
    · exact h
  · exact Hereditary.object.mpr (Dict.forall_insert (Hereditary.object.mp h) _ hvalue)
  · exact h

theorem readPath_yields (path : List Value) {v : Value} (h : H v) :
    Yields (readPath path v) H := by
  induction path generalizing v with
  | nil => exact h
  | cons key path ih =>
    have hindex := readIndex_yields h key
    rw [readPath]
    cases hv : readIndex v key with
    | error fault => rwa [hv] at hindex
    | ok inner =>
      rw [hv] at hindex
      exact ih hindex

/-- A change deep inside a value keeps what the change itself keeps. -/
theorem modifyAt_yields {α : Type} {change : Value → Except Fault (Value × α)} {R : α → Prop}
    (hchange : ∀ v, H v → Yields (change v) fun out => H out.1 ∧ R out.2)
    (path : List Value) {v : Value} (h : H v) :
    Yields (modifyAt change path v) fun out => H out.1 ∧ R out.2 := by
  induction path generalizing v with
  | nil => exact hchange v h
  | cons key path ih =>
    have hexisting := existing_yields h key
    rw [modifyAt]
    cases hv : existing v key with
    | error fault => rwa [hv] at hexisting
    | ok inner =>
      rw [hv] at hexisting
      have hinner := ih hexisting
      dsimp only
      cases hw : modifyAt change path inner with
      | error fault => rwa [hw] at hinner
      | ok out =>
        rw [hw] at hinner
        exact ⟨replaceExisting_holds h key hinner.1, hinner.2⟩

/-! ## Methods and functions of the language -/

theorem repeatText_yields (s : String) (x : Float) : Yields (repeatText s x) H := by
  simp only [repeatText]
  repeat' split
  all_goals first | rfl | exact Hereditary.text _

theorem padding_yields (s : String) (args : List Value) :
    Yields (padding s args) fun _ => True := by
  simp only [padding]
  repeat' split
  all_goals first | rfl | trivial

theorem positionOrMinusOne_holds (i : Option Nat) : H (positionOrMinusOne i) := by
  cases i <;> exact Hereditary.number _

theorem splitText_holds (s : String) (separator : Value) :
    ∀ v ∈ splitText s separator, H v := by
  unfold splitText
  repeat' split
  · rw [List.forall_mem_singleton]
    exact Hereditary.text s
  all_goals
    rw [List.forall_mem_map]
    exact fun _ _ => Hereditary.text _

theorem textMethod?_yields {s name : String} {args : List Value} {r : Except Fault Value}
    (h : textMethod? s name args = some r) : Yields r H := by
  simp only [textMethod?] at h
  split at h <;> cases h
  all_goals first
    | exact Hereditary.text _
    | exact Hereditary.bool _
    | exact positionOrMinusOne_holds _
    | exact holds_charAt?_getD (Hereditary.text _) _ _
    | exact Hereditary.array.mpr (splitText_holds _ _)
    | exact repeatText_yields _ _
    | exact (padding_yields _ _).map fun _ _ => Hereditary.text _

omit [Hereditary H] in
theorem cut_holds {items : List Value} (h : ∀ v ∈ items, H v) (args : List Value) :
    ∀ v ∈ cut items args, H v :=
  fun v hv => h v (List.mem_of_mem_drop (List.mem_of_mem_take hv))

theorem holds_getLast?_getD {items : List Value} (h : ∀ v ∈ items, H v) :
    H (items.getLast?.getD undefined) := by
  cases hv : items.getLast? with
  | none => exact Hereditary.undefined
  | some v => exact h v (List.mem_of_getLast? hv)

theorem arrayMethod?_yields {items args : List Value} {name : String} {r : Except Fault Value}
    (hitems : ∀ v ∈ items, H v) (h : arrayMethod? items name args = some r) :
    Yields r H := by
  simp only [arrayMethod?] at h
  split at h <;> cases h
  · exact Hereditary.text _
  · exact Hereditary.bool _
  · exact positionOrMinusOne_holds _
  · exact Hereditary.array.mpr (cut_holds hitems args)
  · exact Hereditary.number _
  · exact holds_getLast?_getD hitems

theorem toFixed_yields (x : Float) (places : Value) : Yields (toFixed x places) H := by
  simp only [toFixed]
  repeat' split
  all_goals first | rfl | exact Hereditary.text _

theorem callMethod_yields {receiver : Value} (h : H receiver) (name : String)
    (args : List Value) : Yields (callMethod receiver name args) H := by
  simp only [callMethod]
  split
  · exact Hereditary.text _
  · split
    · rename_i hmethod
      split at hmethod
      · exact textMethod?_yields hmethod
      · exact arrayMethod?_yields (Hereditary.array.mp h) hmethod
      · unfold numberMethod? at hmethod
        split at hmethod <;> cases hmethod
        exact toFixed_yields _ _
      · cases hmethod
    · split <;> rfl

end Value

theorem radixOf_yields (v : Value) : Yields (radixOf v) fun _ => True := by
  unfold radixOf
  split
  · trivial
  dsimp only
  repeat' split
  all_goals first | rfl | trivial

theorem Native.call_yields (n : Native) (args : List Value) : Yields (n.call args) H := by
  cases n with
  | append => rfl
  | parseInt => exact (radixOf_yields _).map fun _ _ => Hereditary.number _
  | string => exact Hereditary.text _
  | boolean | isNaN => exact Hereditary.bool _
  | stringify =>
    simp only [Native.call]
    split
    · exact Hereditary.undefined
    · exact Hereditary.undefined
    · exact Hereditary.undefined
    · exact Hereditary.text _
  | _ => exact Hereditary.number _

theorem BinaryOp.apply_holds (op : BinaryOp) (a b : Value) : H (op.apply a b) := by
  cases op with
  | add =>
    simp only [BinaryOp.apply]
    split
    · exact Hereditary.text _
    · exact Hereditary.number _
  | sub | mul | div | rem | pow => exact Hereditary.number _
  | _ => exact Hereditary.bool _

theorem namespaceOf_holds (natives : List Native) : H (namespaceOf natives) := by
  refine Hereditary.object.mpr (Dict.forall_ofList fun p hp => ?_)
  obtain ⟨n, -, rfl⟩ := List.mem_map.mp hp
  exact Hereditary.native n

theorem global?_holds {name : String} {v : Value} (h : global? name = some v) : H v := by
  unfold global? at h
  split at h <;> cases h
  all_goals first
    | exact Hereditary.native _
    | exact Hereditary.number _
    | exact namespaceOf_holds _

end Stencil.Script
