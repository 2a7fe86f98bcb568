/-
  Templates: text with embedded script.

  A template is cut into tokens, these make up a script, and running the script outputs the text.
  A fault in the script is traced back to the token that it comes from.
-/
import Stencil.Script.Run
import Stencil.Template.Fragment

namespace Stencil

open Script (Ending Environment Limits ScriptError)

/-- A template that is ready to be rendered. -/
structure Template where
  tokens : List Token
  fragment : Fragment

namespace Template

/-- Every text is a template. -/
def compile (d : Delimiters) (source : String) : Template :=
  let tokens := Token.ofTemplate d source
  ⟨tokens, .ofTokens tokens⟩

/-- Run the script of the template and give back what it output. -/
def render (t : Template) (limits : Limits) (env : Environment) : Ending String :=
  Script.runForOutput limits t.fragment.code env

/-- Where in the template the script of an error comes from. -/
def locate? (t : Template) (e : ScriptError) : Option Position := t.fragment.origin? e.pos.row

end Template

end Stencil
