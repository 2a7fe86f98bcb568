/-
  The functions that the language itself provides, by name.
-/

namespace Stencil.Script

inductive Native where
  /-- The output function of a template run. -/
  | append
  | string | number | boolean
  | parseInt | parseFloat | isNaN
  | floor | ceil | round | trunc | abs | min | max | pow | sqrt
  | stringify
  deriving DecidableEq, Repr

namespace Native

def all : List Native :=
  [append, string, number, boolean, parseInt, parseFloat, isNaN,
   floor, ceil, round, trunc, abs, min, max, pow, sqrt, stringify]

def name : Native → String
  | append => "append"
  | string => "String"
  | number => "Number"
  | boolean => "Boolean"
  | parseInt => "parseInt"
  | parseFloat => "parseFloat"
  | isNaN => "isNaN"
  | floor => "floor"
  | ceil => "ceil"
  | round => "round"
  | trunc => "trunc"
  | abs => "abs"
  | min => "min"
  | max => "max"
  | pow => "pow"
  | sqrt => "sqrt"
  | stringify => "stringify"

/-- The function of this name. -/
def ofName? (name : String) : Option Native := all.find? fun n => n.name == name

theorem ofName?_name (n : Native) : ofName? n.name = some n := by cases n <;> decide +kernel

end Native

end Stencil.Script
