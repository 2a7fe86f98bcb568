/-
  JSON documents as trees.

  A number is kept as a whole number or as a double-precision number, because the two are written
  differently.
-/

namespace Stencil

inductive Json where
  | null
  | bool (b : Bool)
  | whole (n : Int)
  | float (x : Float)
  | string (s : String)
  | array (items : List Json)
  | object (members : List (String × Json))

end Stencil
