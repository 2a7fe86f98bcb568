/-
  The program: reads files, prints answers, and ends with the code of the answer.
-/
import Stencil.CommandLine

open Stencil CommandLine

/-- The text of a file. -/
def readTextFile (path : String) : IO (Except FileFault String) := do
  try
    let bytes ← IO.FS.readBinFile path
    match String.fromUTF8? bytes with
    | some text => return .ok text
    | none => return .error .notText
  catch
    | .noFileOrDirectory .. => return .error .missing
    | e => return .error (.other (toString e))

/-- Answer the arguments, with the files that they name read beforehand. -/
def main (args : List String) : IO UInt32 := do
  let names :=
    match readArguments args with
    | .run r => [r.template, r.env].filterMap id
    | _ => []
  let texts ← names.mapM fun name => return (name, ← readTextFile name)
  let files : Files := fun name => (texts.lookup name).getD (.error .missing)
  let a := answer files args
  IO.print a.stdout
  if a.stderr != "" then IO.eprintln a.stderr
  return UInt32.ofNat a.code
