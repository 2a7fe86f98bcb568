/-
  Values as JSON documents.

  What JSON cannot say becomes `null`.  Whole numbers below 2^53 are written without a point; all
  other numbers keep it.
-/
import Stencil.Json.Tree
import Stencil.Script.Value

namespace Stencil.Script.Value

/-- A number as JSON writes it: negative zero is zero there, and what is not finite is `null`. -/
def numberToJson (x : Float) : Json :=
  match Number.rounded x with
  | .whole n => if Number.isWhole x ∧ n.natAbs < Number.twoTo 53 then .whole n else .float x
  | _ => .null

mutual

def toJson : Value → Json
  | undefined | null | function .. | native _ => .null
  | bool b => .bool b
  | number x => numberToJson x
  | text s => .string s
  | array items => .array (itemsToJson items)
  | object members => .object (membersToJson members)

def itemsToJson : List Value → List Json
  | [] => []
  | v :: rest => toJson v :: itemsToJson rest

def membersToJson : List (String × Value) → List (String × Json)
  | [] => []
  | (s, v) :: rest => (s, toJson v) :: membersToJson rest

end

mutual

def ofJson : Json → Value
  | .null => null
  | .bool b => bool b
  | .whole n => number (Float.ofInt n)
  | .float x => number x
  | .string s => text s
  | .array items => array (itemsOfJson items)
  | .object members => object (membersOfJson members)

def itemsOfJson : List Json → List Value
  | [] => []
  | j :: rest => ofJson j :: itemsOfJson rest

def membersOfJson : List (String × Json) → List (String × Value)
  | [] => []
  | (s, j) :: rest => (s, ofJson j) :: membersOfJson rest

end

end Stencil.Script.Value
