/-
  Environments: the variables that a script finds and leaves behind.

  An environment is read from and written as a JSON object, through whatever writes JSON objects
  as text and reads them (`Json.Codec`).
-/
import Stencil.Json.Reader
import Stencil.Json.Writer
import Stencil.Script.Value.Json

namespace Stencil

namespace Json

/-- A way to write JSON objects as text and to read them. -/
structure Codec where
  write : Dict Json → String
  read : String → Except Refusal (Dict Json)

/-- On one line, as `compact` writes them. -/
def Codec.compact : Codec := ⟨fun members => (object members).compact, objectOfString⟩

end Json

namespace Script

/-- The variables that outlive a run. -/
abbrev Environment := Dict Value

namespace Environment

/-- The environment that a JSON object describes, as the codec reads it. -/
def ofJsonBy (codec : Json.Codec) (s : String) : Except Json.Refusal Environment :=
  (codec.read s).map Value.membersOfJson

/-- The environment as a JSON object, as the codec writes it. -/
def toJsonBy (codec : Json.Codec) (env : Environment) : String :=
  codec.write (Value.membersToJson env)

def ofJson (s : String) : Except Json.Refusal Environment := ofJsonBy .compact s

def toJson (env : Environment) : String := toJsonBy .compact env

/-- A number for a run that no function in the environment comes from. -/
def freshRun (env : Environment) : Nat := Value.lastRunMembers env + 1

end Environment

end Script

end Stencil
