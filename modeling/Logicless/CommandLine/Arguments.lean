/-!
# Command line arguments

What a list of arguments asks for. `Arguments.read` goes through it from left to right and stops at
the first argument that settles the matter.
-/

namespace Logicless.CommandLine

inductive Command where
  | render (template : String) (data config : Option String) (hints : Bool)
  | check (template : String)
deriving DecidableEq, Repr

/-- What a list of arguments asks for. -/
inductive Request where
  | run (command : Command)
  /-- Print a text. -/
  | inform (text : String)
  /-- The arguments make no sense. -/
  | misuse
deriving DecidableEq, Repr

def version : String := "stencil 0.1.0\n"

def helpTop : String :=
"Render logic-less templates against JSON data

Usage: stencil [OPTIONS] <COMMAND>

Commands:
  render  Render a template
  check   Compile a template and report syntax errors
  help    Print this message or the help of the given subcommand(s)

Options:
  -v, --verbose  Enable debug logging (RUST_LOG takes precedence)
  -h, --help     Print help
  -V, --version  Print version
"

def helpRender : String :=
"Render a template

Usage: stencil render [OPTIONS] <TEMPLATE>

Arguments:
  <TEMPLATE>  Template file

Options:
  -d, --data <DATA>      JSON file with the data (reads from stdin if not provided)
  -v, --verbose          Enable debug logging (RUST_LOG takes precedence)
  -c, --config <CONFIG>  JSON file with engine configuration values
      --no-hints         Disable resolver hints
  -h, --help             Print help
"

def helpCheck : String :=
"Compile a template and report syntax errors

Usage: stencil check [OPTIONS] <TEMPLATE>

Arguments:
  <TEMPLATE>  Template file

Options:
  -v, --verbose  Enable debug logging (RUST_LOG takes precedence)
  -h, --help     Print help
"

def helpHelp : String :=
"Print this message or the help of the given subcommand(s)

Usage: stencil help [COMMAND]...

Arguments:
  [COMMAND]...  Print help for the subcommand(s)
"

/-! ### Options -/

/-- An option as it stands in an argument: its name, and the value attached to it. -/
structure OptionText where
  name : String
  attached : Option String
deriving DecidableEq, Repr

inductive Argument where
  /-- Two dashes: only values follow. -/
  | terminator
  | long (option : OptionText)
  /-- A dash and a cluster of one-letter options. -/
  | short (letters : List Char)
  | value (text : String)
deriving DecidableEq, Repr

def Argument.of (s : String) : Argument :=
  match s.toList with
  | ['-', '-'] => .terminator
  | '-' :: '-' :: cs =>
    let name := String.ofList (cs.takeWhile (· ≠ '='))
    match cs.dropWhile (· ≠ '=') with
    | [] => .long ⟨name, none⟩
    | _ :: v => .long ⟨name, some (String.ofList v)⟩
  | '-' :: c :: cs => .short (c :: cs)
  | _ => .value s

/-- The options that are given more than once are refused. -/
structure Seen where
  verbose : Bool
  hints : Bool
  data : Option String
  config : Option String
  template : Option String

def Seen.nothing : Seen := ⟨false, true, none, none, none⟩

/-- What comes of one option. -/
inductive Step where
  | next (seen : Seen)
  /-- The value of the option follows. -/
  | needsValue (put : String → Option Seen)
  | settled (request : Request)

/-- The options of a command. -/
inductive Level where
  | top
  | render
  | check
deriving DecidableEq, Repr

def Level.help : Level → String
  | .top => helpTop
  | .render => helpRender
  | .check => helpCheck

def Seen.putData (seen : Seen) (value : String) : Option Seen :=
  if value.isEmpty || seen.data.isSome then none else some { seen with data := some value }

def Seen.putConfig (seen : Seen) (value : String) : Option Seen :=
  if value.isEmpty || seen.config.isSome then none else some { seen with config := some value }

def Seen.putTemplate (seen : Seen) (value : String) : Option Seen :=
  if value.isEmpty || seen.template.isSome then none else some { seen with template := some value }

/-- The option of a name at a level, long or one letter. -/
def optionStep (level : Level) (seen : Seen) (name : String) : Step :=
  match level, name with
  | _, "verbose" | _, "v" =>
    if seen.verbose then .settled .misuse else .next { seen with verbose := true }
  | _, "help" | _, "h" => .settled (.inform level.help)
  | .top, "version" | .top, "V" => .settled (.inform version)
  | .render, "data" | .render, "d" => .needsValue seen.putData
  | .render, "config" | .render, "c" => .needsValue seen.putConfig
  | .render, "no-hints" =>
    if seen.hints then .next { seen with hints := false } else .settled .misuse
  | _, _ => .settled .misuse

def ofPut : Option Seen → Step
  | some seen => .next seen
  | none => .settled .misuse

def longStep (level : Level) (seen : Seen) (o : OptionText) : Step :=
  if o.name.length < 2 then .settled .misuse
  else
    match optionStep level seen o.name, o.attached with
    | .needsValue put, some v => ofPut (put v)
    | step, none => step
    | _, some _ => .settled .misuse

/-- One letter after the other. A letter that needs a value takes the rest of the cluster. -/
def shortStep (level : Level) (seen : Seen) : List Char → Step
  | [] => .next seen
  | c :: cs =>
    match optionStep level seen (String.ofList [c]) with
    | .next seen => shortStep level seen cs
    | .needsValue put =>
      match cs with
      | [] => .needsValue put
      | '=' :: v => ofPut (put (String.ofList v))
      | v => ofPut (put (String.ofList v))
    | step => step

/-! ### Commands -/

/-- The request once all arguments of a command are read. -/
def finish (level : Level) (seen : Seen) : Request :=
  match level, seen.template with
  | .render, some t => .run (.render t seen.data seen.config seen.hints)
  | .check, some t => .run (.check t)
  | _, _ => .misuse

/-- Arguments after the terminator. -/
def readValues (level : Level) (seen : Seen) : List String → Request
  | [] => finish level seen
  | s :: rest =>
    match seen.putTemplate s with
    | some seen => readValues level seen rest
    | none => .misuse

/-- The arguments of the command `render` or `check`. An option whose value is `pending` takes the
next argument. -/
def readCommand (level : Level) (seen : Seen) (pending : Option (String → Option Seen)) :
    List String → Request
  | [] => if pending.isSome then .misuse else finish level seen
  | s :: rest =>
    let goOn : Step → Request
      | .next seen => readCommand level seen none rest
      | .needsValue put => readCommand level seen (some put) rest
      | .settled r => r
    match pending, Argument.of s with
    | some put, .value v => goOn (ofPut (put v))
    | some _, _ => .misuse
    | none, .terminator => readValues level seen rest
    | none, .value v => goOn (ofPut (seen.putTemplate v))
    | none, .long o => goOn (longStep level seen o)
    | none, .short cs => goOn (shortStep level seen cs)

/-- The arguments of the command `help`. -/
def readHelp : List String → Request
  | [] => .inform helpTop
  | ["render"] => .inform helpRender
  | ["check"] => .inform helpCheck
  | ["help"] => .inform helpHelp
  | _ => .misuse

/-- What the arguments ask for. -/
def readFrom (seen : Seen) : List String → Request
  | [] => .misuse
  | s :: rest =>
    match Argument.of s with
    | .terminator => .misuse
    | .value "render" => readCommand .render Seen.nothing none rest
    | .value "check" => readCommand .check Seen.nothing none rest
    | .value "help" => readHelp rest
    | .value _ => .misuse
    | .long o =>
      match longStep .top seen o with
      | .next seen => readFrom seen rest
      | .needsValue _ => .misuse
      | .settled r => r
    | .short cs =>
      match shortStep .top seen cs with
      | .next seen => readFrom seen rest
      | .needsValue _ => .misuse
      | .settled r => r

def read (args : List String) : Request :=
  readFrom Seen.nothing args

end Logicless.CommandLine
