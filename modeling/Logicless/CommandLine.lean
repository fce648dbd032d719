import Logicless.CommandLine.Arguments
import Logicless.Config.Json
import Logicless.Disk
import Logicless.Engine.Build
import Logicless.Render
import Logicless.Value.Json

/-!
# The command line

Rendering and checking template files. `CommandLine.run` is what a call of the program does.
-/

namespace Logicless.CommandLine

/-- How a call of the program ends. There is no code if the system ends it. `failure` is reported on
standard error. -/
structure Ending where
  code : Option Nat
  output : String
  failure : Option String
deriving DecidableEq, Repr

/-- Why a call of the program has no output. -/
inductive Failure where
  | reported (reason : String)
  /-- More memory is asked for than can be addressed. -/
  | unaddressable
  /-- The memory or the stack does not suffice. -/
  | exhausted
deriving DecidableEq, Repr

def Failure.ofError (err : Error) : Failure :=
  .reported err.message

def Ending.ofExcept : Except Failure String → Ending
  | .ok output => ⟨some 0, output, none⟩
  | .error (.reported reason) => ⟨some 1, "", some ("✗ " ++ reason)⟩
  | .error .unaddressable => ⟨some 101, "", none⟩
  | .error .exhausted => ⟨none, "", none⟩

/-- Read a file for a purpose that a failure names. -/
def readFile (disk : Disk) (purpose path : String) : Except Failure String :=
  (disk.read path).mapError fun failure =>
    .reported (purpose ++ " " ++ path ++ ": " ++ failure.message)

def templateName (path : String) : String :=
  (Path.stem? path).getD "template"

def extension : String := ".mustache"

/-- A template of the directory. Its name does not lead out of there. -/
def answerFrom (disk : Disk) (directory name : String) : Except Error (Option String) :=
  if name.isEmpty || name.toList.any fun c => c = '/' || c = '\\' then .ok none
  else
    let path := Path.join directory (name ++ extension)
    match disk.read path with
    | .ok source => .ok (some source)
    | .error .missing => .ok none
    | .error failure => .error (.templateLocation name (path ++ ": " ++ failure.message))

/-- The names of the templates among files. -/
def includable (files : List String) : List String :=
  files.filterMap fun file =>
    if extension.toList.isSuffixOf file.toList then
      some (String.ofList (file.toList.take (file.length - extension.length)))
    else none

/-- The templates beside a template file can be included. -/
def directoryLocator (disk : Disk) (path : String) : Locator :=
  let directory := Path.parent path
  .restricted 0 (answerFrom disk directory) (includable disk.names)
    ("DirectoryLocator(" ++ directory ++ ")")

/-- The memory that a table may take: 64 GiB. -/
def memory : Nat := Nat.pow 2 36

def buildEngine (disk : Disk) (path : String) (config : Config) :
    Except Failure (Engine Unit × Store Unit) :=
  let blueprint : Blueprint Unit :=
    { Blueprint.standard with config, locators := [directoryLocator disk path] }
  match blueprint.build () with
  | .ok built =>
    let members : CacheSettings := ⟨none, config.memberCacheMaxSize⟩
    if members.tableBytes ≤ memory then .ok built else .error .exhausted
  | .error (.cacheCapacity _) => .error .unaddressable
  | .error err => .error (.reported ("Failed to build engine: " ++ err.message))

/-- Compile a template file. -/
def compileFile (disk : Disk) (path : String) (config : Config) :
    Except Failure (Engine Unit × Template × Store Unit) := do
  let source ← readFile disk "Failed to read template" path
  let (e, store) ← buildEngine disk path config
  match e.compile (templateName path) source store with
  | (.ok t, store) => .ok (e, t, store)
  | (.error err, _) => .error (.ofError err)

def readConfig (disk : Disk) : Option String → Except Failure Config
  | none => .ok .standard
  | some path => do
    let text ← readFile disk "Failed to read configuration" path
    match Config.parse? text with
    | some c => .ok c
    | none => .error (.reported ("Invalid configuration " ++ path))

/-- The data of a JSON text. A blank text is the null value. -/
def readData (text : String) : Except Failure Value :=
  if text.toList.all Text.isBlank then .ok .null
  else
    match (Json.parse? text).bind Value.ofJson? with
    | some v => .ok v
    | none => .error (.reported "Data is not valid JSON")

/-- The text of the data, which comes from a file or from standard input. -/
def dataText (disk : Disk) (stdin : Except ReadFailure String) :
    Option String → Except Failure String
  | some path => readFile disk "Failed to read data" path
  | none => stdin.mapError fun failure =>
    .reported ("Failed to read data from stdin: " ++ failure.message)

/-- How many templates the stack can hold within one another. -/
def stackDepth : Nat := 8192

/-- Render with the stack that there is. -/
def renderOnStack (e : Engine Unit) (t : Template) (data : Value) (store : Store Unit) :
    Except Failure String :=
  let depth := min (e.depthBound t.name store) stackDepth
  match e.executeWithin depth t ⟨store, Engine.startContext data, Sink.empty none⟩ with
  | (.ok _, s) => .ok s.sink.text
  | (.error (.failed err), _) => .error (.ofError err)
  | (.error .endless, _) => .error .exhausted

def render (disk : Disk) (stdin : Except ReadFailure String) (template : String)
    (data config : Option String) (hints : Bool) : Except Failure String := do
  let config ← readConfig disk config
  let config := if hints then config else { config with hintsEnabled := false }
  let text ← dataText disk stdin data
  let data ← readData text
  let (e, t, store) ← compileFile disk template config
  renderOnStack e t data store

def check (disk : Disk) (template : String) : Except Failure String := do
  let (_, t, _) ← compileFile disk template .standard
  .ok ("✓ Template " ++ t.name ++ " compiled successfully (" ++ toString t.segments.length ++
    " top-level segments)\n")

/-- Do what the arguments ask for. -/
def run (disk : Disk) (stdin : Except ReadFailure String) (args : List String) : Ending :=
  match read args with
  | .misuse => ⟨some 2, "", none⟩
  | .inform text => ⟨some 0, text, none⟩
  | .run (.render template data config hints) =>
    .ofExcept (render disk stdin template data config hints)
  | .run (.check template) => .ofExcept (check disk template)

end Logicless.CommandLine
