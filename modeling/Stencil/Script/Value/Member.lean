/-
  Members of values: reading them, storing them, and changing a value deep inside another one.

  Reading is generous and storing is strict.  A missing member reads as `undefined`, and only
  `undefined` and `null` have no members at all; a path of members through which something is
  stored must exist up to its last step.
-/
import Stencil.Script.Error
import Stencil.Script.Value

namespace Stencil.Script.Value

/-! ## Reading -/

/-- The member `name` of a value. -/
def readMember (receiver : Value) (name : String) : Except Fault Value :=
  match receiver with
  | undefined | null => .error (.misuse (.readOf name receiver.display))
  | text s => .ok (if name = "length" then number (Number.ofCount s.length) else undefined)
  | array items =>
    .ok (if name = "length" then number (Number.ofCount items.length) else undefined)
  | object members => .ok ((Dict.get? members name).getD undefined)
  | bool _ | number _ | function .. | native _ => .ok undefined

/-- The character at a position of a text, as a text. -/
def charAt? (s : String) (x : Float) : Option Value :=
  let cs := s.toList
  (Number.index? cs.length x).bind fun i => cs[i]?.map fun c => text (String.singleton c)

/-- The item of an array or the character of a text at a number, or else the member that the key
    names. -/
def readIndex (receiver key : Value) : Except Fault Value :=
  match receiver, key with
  | array items, number x =>
    .ok (((Number.index? items.length x).bind fun i => items[i]?).getD undefined)
  | text s, number x => .ok ((charAt? s x).getD undefined)
  | _, _ => readMember receiver key.display

/-! ## Storing -/

/-- How far behind its end an array may grow by one store. -/
def maxGap : Nat := 0x10000

/-- The items with `value` at position `i`, filled up with `undefined` in between. -/
def setItem (items : List Value) (i : Nat) (value : Value) : List Value :=
  if i < items.length then items.set i value
  else items ++ List.replicate (i - items.length) undefined ++ [value]

/-- The receiver with `value` stored under `key`. -/
def setIndex (receiver key value : Value) : Except Fault Value :=
  match receiver, key with
  | array items, number x =>
    match Number.isWhole x, Number.rounded x with
    | true, .whole n =>
      if n < 0 then .error (.misuse (.arrayIndex x))
      else if items.length + maxGap < n.toNat then .error (.misuse .arrayLength)
      else .ok (array (setItem items n.toNat value))
    | _, _ => .error (.misuse (.arrayIndex x))
  | object members, key => .ok (object (Dict.insert members key.display value))
  | _, _ => .error (.misuse (.setOn key.display receiver.typeName))

/-! ## Paths -/

/-- The member under `key`, which must be there. -/
def existing (receiver key : Value) : Except Fault Value :=
  let missing : Fault := .misuse (.missingMember key.display)
  match receiver, key with
  | array items, number x =>
    match (Number.index? items.length x).bind fun i => items[i]? with
    | some v => .ok v
    | none => .error missing
  | object members, key =>
    match Dict.get? members key.display with
    | some v => .ok v
    | none => .error missing
  | _, _ => .error missing

/-- The receiver with `value` in place of the existing member under `key`. -/
def replaceExisting (receiver key value : Value) : Value :=
  match receiver, key with
  | array items, number x =>
    match Number.index? items.length x with
    | some i => array (items.set i value)
    | none => receiver
  | object members, key => object (Dict.insert members key.display value)
  | _, _ => receiver

/-- Change what lies at the end of a path of existing members.  `change` gives the new value there
    and something to report. -/
def modifyAt {α : Type} (change : Value → Except Fault (Value × α)) :
    (path : List Value) → Value → Except Fault (Value × α)
  | [], v => change v
  | key :: path, v =>
    match existing v key with
    | .error e => .error e
    | .ok inner =>
      match modifyAt change path inner with
      | .error e => .error e
      | .ok (inner', report) => .ok (replaceExisting v key inner', report)

/-- What can be read along a path. -/
def readPath : (path : List Value) → Value → Except Fault Value
  | [], v => .ok v
  | key :: path, v =>
    match readIndex v key with
    | .error e => .error e
    | .ok inner => readPath path inner

end Stencil.Script.Value
