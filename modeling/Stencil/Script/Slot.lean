/-
  Slots: a variable and a path of keys that leads into its value.

  A slot is read as an expression would be.  It is written by assigning the variable when the path
  is empty, and otherwise by storing under the last key in what the other keys lead to.
-/
import Stencil.Script.Machine

namespace Stencil.Script

/-- A place whose keys have been evaluated. -/
structure Slot where
  root : String
  path : List Value

namespace Slot

/-- The slot one key further in. -/
def into (s : Slot) (key : Value) : Slot := ⟨s.root, s.path ++ [key]⟩

/-- What can be read from the slot. -/
def read (s : Slot) (m : Machine) : Except Fault Value :=
  match m.lookup? s.root with
  | none => .error (.undefinedVariable s.root)
  | some v => v.readPath s.path

/-- Change the value in the slot from inside, where every key of the path must exist. -/
def modify {α : Type} (s : Slot) (change : Value → Except Fault (Value × α)) (m : Machine) :
    Except Fault (Machine × α) :=
  match m.changeable? s.root with
  | none => .error (.undefinedVariable s.root)
  | some v =>
    match v.modifyAt change s.path with
    | .error e => .error e
    | .ok (v', report) => .ok (m.setVariable s.root v', report)

/-- Store a value in the slot.  A write that fails has no state of its own to give: whether the
    variable may be assigned, what the keys lead to and what the last key means there are all
    settled before the one change that is made, and that change cannot fail. -/
def write (s : Slot) (value : Value) (m : Machine) : Except Fault Machine :=
  match s.path.getLast? with
  | none => m.assign s.root value
  | some key =>
    let container : Slot := ⟨s.root, s.path.dropLast⟩
    (container.modify (fun v => (v.setIndex key value).map fun v' => (v', ())) m).map Prod.fst

/-- The value in the slot, where every key of the path must exist. -/
def held (s : Slot) (m : Machine) : Except Fault Value :=
  (s.modify (fun v => .ok (v, v)) m).map Prod.snd

end Slot

end Stencil.Script
