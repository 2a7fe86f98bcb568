/-
  The command line: what its arguments ask for, and what is printed in answer.

  Arguments are read from left to right, and the first faulty one decides.  Files come from a
  function that reads them, so that the whole of a command is a function of its arguments and of
  the files.
-/
import Stencil.Json.Writer
import Stencil.Template

namespace Stencil.CommandLine

open Script (Environment Limits ScriptError)

/-! ## What is asked for -/

/-- What is printed. -/
inductive Emit where
  /-- The rendered text. -/
  | output
  /-- The tokens, as JSON. -/
  | tokens
  /-- The script of the template. -/
  | code
  deriving DecidableEq, Repr

/-- What the arguments ask for; what was not given is missing. -/
structure Request where
  template : Option String := none
  env : Option String := none
  emit : Option Emit := none
  line : Option Char := none
  block : Option Char := none
  opening : Option Pair := none
  closing : Option Pair := none
  anywhere : Bool := false
  maxDepth : Option Nat := none
  verbosity : Nat := 0

namespace Request

def delimiters (r : Request) : Delimiters :=
  let d := Delimiters.standard
  ⟨r.line.getD d.line, r.block.getD d.block, r.opening.getD d.opening, r.closing.getD d.closing,
    !r.anywhere⟩

end Request

/-- How the arguments were understood. -/
inductive Reading where
  | run (r : Request)
  | version
  | help
  | faulty

/-! ## Options -/

/-- The options that take a value. -/
inductive Valued where
  | env | emit | line | block | opening | closing | maxDepth
  deriving DecidableEq, Repr

/-- The options that take none. -/
inductive Switch where
  | anywhere | verbose | help | version
  deriving DecidableEq, Repr

def valuedOfLong? : String → Option Valued
  | "env" => some .env
  | "emit" => some .emit
  | "line-sentinel" => some .line
  | "block-marker" => some .block
  | "expr-open" => some .opening
  | "expr-close" => some .closing
  | "max-call-depth" => some .maxDepth
  | _ => none

def switchOfLong? : String → Option Switch
  | "sentinel-anywhere" => some .anywhere
  | "verbose" => some .verbose
  | "help" => some .help
  | "version" => some .version
  | _ => none

def switchOfShort? : Char → Option Switch
  | 'v' => some .verbose
  | 'h' => some .help
  | 'V' => some .version
  | _ => none

/-- A text of one character. -/
def charOfString? (s : String) : Option Char :=
  match s.toList with
  | [c] => some c
  | _ => none

/-- A whole number that fits into 64 bits, with an optional plus sign. -/
def countOfString? (s : String) : Option Nat :=
  let ds :=
    match s.toList with
    | '+' :: rest => rest
    | cs => cs
  if ds.isEmpty || !ds.all Char.isDigit then none
  else
    let n := Numeral.natOfDigits ds
    if n < 0x10000000000000000 then some n else none

def emitOfString? : String → Option Emit
  | "output" => some .output
  | "tokens" => some .tokens
  | "code" => some .code
  | _ => none

/-- Take the value of an option, which must be a fitting one and the first one given. -/
def Request.set? (r : Request) (option : Valued) (value : String) : Option Request :=
  let once {α : Type} (old new : Option α) : Option α :=
    match old with
    | some _ => none
    | none => new
  match option with
  | .env => (once r.env (if value = "" then none else some value)).map fun v => { r with env := v }
  | .emit => (once r.emit (emitOfString? value)).map fun v => { r with emit := v }
  | .line => (once r.line (charOfString? value)).map fun v => { r with line := v }
  | .block => (once r.block (charOfString? value)).map fun v => { r with block := v }
  | .opening => (once r.opening (Pair.ofString? value)).map fun v => { r with opening := v }
  | .closing => (once r.closing (Pair.ofString? value)).map fun v => { r with closing := v }
  | .maxDepth => (once r.maxDepth (countOfString? value)).map fun v => { r with maxDepth := v }

/-- Take the template, which must be the first one given. -/
def Request.setTemplate? (r : Request) (value : String) : Option Request :=
  if r.template.isSome || value = "" then none else some { r with template := some value }

/-! ## Arguments -/

/-- A row of short options in one argument: the request with their switches, and the option with
    its value, if the row ends in one that takes a value and the value is there. -/
inductive ShortRow where
  | switches (r : Request)
  | needsValue (r : Request)
  | stop (answer : Reading)

/-- Read the letters of a row of short options. -/
def readShort (r : Request) : List Char → ShortRow
  | [] => .switches r
  | 'e' :: [] => .needsValue r
  | 'e' :: value =>
    let value :=
      match value with
      | '=' :: rest => rest
      | cs => cs
    match r.set? .env (String.ofList value) with
    | some r' => .switches r'
    | none => .stop .faulty
  | c :: rest =>
    match switchOfShort? c with
    | some .verbose => readShort { r with verbosity := r.verbosity + 1 } rest
    | some .help => .stop .help
    | some .version => .stop .version
    | some .anywhere | none => .stop .faulty

/-- Whether an argument can be a value: it does not look like an option. -/
def isValue (s : String) : Bool :=
  match s.toList with
  | ['-'] => true
  | '-' :: _ => false
  | _ => true

/-- Read the arguments; `pending` is an option whose value comes next, and behind `--` every
    argument is a template. -/
def readFrom (r : Request) (pending : Option Valued) (onlyTemplates : Bool) :
    List String → Reading
  | [] => if pending.isSome || r.template.isNone then .faulty else .run r
  | arg :: rest =>
    match pending with
    | some option =>
      if !isValue arg then .faulty
      else
        match r.set? option arg with
        | some r' => readFrom r' none onlyTemplates rest
        | none => .faulty
    | none =>
      if onlyTemplates || isValue arg then
        match r.setTemplate? arg with
        | some r' => readFrom r' none onlyTemplates rest
        | none => .faulty
      else
        match arg.toList with
        | '-' :: '-' :: [] => readFrom r none true rest
        | '-' :: '-' :: long =>
          let name := String.ofList (long.takeWhile (· != '='))
          match long.dropWhile (· != '=') with
          | [] =>
            match switchOfLong? name with
            | some .anywhere =>
              if r.anywhere then .faulty else readFrom { r with anywhere := true } none false rest
            | some .verbose => readFrom { r with verbosity := r.verbosity + 1 } none false rest
            | some .help => .help
            | some .version => .version
            | none =>
              match valuedOfLong? name with
              | some option => readFrom r (some option) false rest
              | none => .faulty
          -- the value follows the equals sign
          | _ :: value =>
            match (valuedOfLong? name).bind fun option => r.set? option (String.ofList value) with
            | some r' => readFrom r' none false rest
            | none => .faulty
        | _ :: letters =>
          match readShort r letters with
          | .switches r' => readFrom r' none false rest
          | .needsValue r' => readFrom r' (some .env) false rest
          | .stop answer => answer
        | [] => .faulty

def readArguments (args : List String) : Reading := readFrom {} none false args

/-! ## Files -/

/-- Why a file could not be read. -/
inductive FileFault where
  | missing
  | notText
  | other (reason : String)
  deriving DecidableEq, Repr

def FileFault.describe : FileFault → String
  | missing => "No such file or directory (os error 2)"
  | notText => "stream did not contain valid UTF-8"
  | other reason => reason

/-- A function that reads files. -/
abbrev Files := String → Except FileFault String

/-- Why a file could not be rendered. -/
inductive RenderFault where
  | file (path : String) (fault : FileFault)
  | environment (path : String) (refusal : Json.Refusal)
  | script (e : ScriptError)
  | unfinished

/-- The message about a file that could not be read. -/
def unreadable (path : String) (fault : FileFault) : String :=
  "failed to read " ++ path ++ ": " ++ fault.describe

/-- The environment in a file, an empty one if there is no file. -/
def readEnvironment (files : Files) : Option String → Except RenderFault Environment
  | none => .ok []
  | some path =>
    match files path with
    | .error fault => .error (.file path fault)
    | .ok text =>
      match Script.Environment.ofJson text with
      | .error refusal => .error (.environment path refusal)
      | .ok env => .ok env

/-- Render the template in a file with the usual delimiters and the environment in another. -/
def renderFile (files : Files) (template : String) (env : Option String) :
    Except RenderFault String :=
  match files template with
  | .error fault => .error (.file template fault)
  | .ok source =>
    match readEnvironment files env with
    | .error fault => .error fault
    | .ok env =>
      match (Template.compile .standard source).render {} env with
      | .done output _ => .ok output
      | .failed e _ => .error (.script e)
      | .unfinished => .error .unfinished

/-! ## Answers -/

/-- What a command prints and how it ends. -/
structure Answer where
  code : Nat
  stdout : String := ""
  stderr : String := ""
  deriving DecidableEq, Repr

def TokenKind.key : TokenKind → String
  | .chunk => "literal_chunk"
  | .line => "directive_line"
  | .block => "directive_block"
  | .expression => "expression"

/-- A token as a JSON object. -/
def tokenToJson (t : Token) : Json :=
  .object [("kind", .string (TokenKind.key t.kind)), ("text", .string t.text),
    ("span", .object [("row", .whole t.pos.row), ("column", .whole t.pos.column)])]

def failure (message : String) : Answer := ⟨1, "", message⟩

/-- The name and version of the program. -/
def versionText : String := "ecogen 0.1.0\n"

def usageText : String :=
  "Usage: ecogen [OPTIONS] <TEMPLATE>\n\n"
    ++ "Options: -e, --env <FILE>; --emit <output|tokens|code>; --line-sentinel <CHAR>;\n"
    ++ "  --block-marker <CHAR>; --expr-open <MARKER>; --expr-close <MARKER>;\n"
    ++ "  --sentinel-anywhere; --max-call-depth <N>; -v, --verbose; -h, --help; -V, --version\n"

/-- Print what a request asks for.  The template is read first, and the environment only when the
    template is rendered. -/
def answerRequest (files : Files) (r : Request) : Answer :=
  let path := r.template.getD ""
  match files path with
  | .error fault => failure (unreadable path fault)
  | .ok source =>
    let t := Template.compile r.delimiters source
    match r.emit.getD .output with
    | .tokens => ⟨0, (Json.array (t.tokens.map tokenToJson)).indented 0 ++ "\n", ""⟩
    | .code => ⟨0, t.fragment.code, ""⟩
    | .output =>
      match readEnvironment files r.env with
      | .error (.file path fault) => failure (unreadable path fault)
      | .error (.environment path _) => failure (path ++ ": invalid environment")
      | .error _ => failure (path ++ ": error")
      | .ok env =>
        let limits : Limits := {}
        match t.render { limits with maxDepth := r.maxDepth.getD limits.maxDepth } env with
        | .done output _ => ⟨0, output, ""⟩
        | .unfinished => failure (path ++ ": error")
        | .failed e _ =>
          let place :=
            match t.locate? e with
            | some pos => ": error in template " ++ pos.describe
            | none => ": error"
          failure (path ++ place ++ ": " ++ e.describe)

/-- Answer a command line; faulty arguments print the usage as an error. -/
def answer (files : Files) (args : List String) : Answer :=
  match readArguments args with
  | .run r => answerRequest files r
  | .version => ⟨0, versionText, ""⟩
  | .help => ⟨0, usageText, ""⟩
  | .faulty => ⟨2, "", usageText⟩

/-- Whether the arguments ask for more messages on the error channel. -/
def isVerbose (args : List String) : Bool :=
  match readArguments args with
  | .run r => r.verbosity != 0
  | _ => false

example : (answer (fun _ => .ok "a #|1+1|#\n") ["t"]).stdout = "a 2\n" := by decide +kernel
example : (answer (fun _ => .error .missing) ["t"]).stderr
    = "failed to read t: No such file or directory (os error 2)" := by decide +kernel
example : (answer (fun _ => .ok "") ["t", "--emit", "bogus"]).code = 2 := by decide +kernel

end Stencil.CommandLine
