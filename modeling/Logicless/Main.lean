import Logicless.CommandLine

/-!
# The program

Reads the files that the arguments name, and the templates beside the template file, and writes what
`CommandLine.run` makes of them.
-/

namespace Logicless.CommandLine

def failureOf : IO.Error → ReadFailure
  | .noFileOrDirectory .. => .missing
  | .inappropriateType _ _ details =>
    if details.toLower == "is a directory" then .isDirectory else .notDirectory
  | .invalidArgument _ _ "name too long" => .nameTooLong
  | .permissionDenied .. => .other "Permission denied (os error 13)"
  | e => .other (toString e)

def textOf (bytes : ByteArray) : Except ReadFailure String :=
  match String.fromUTF8? bytes with
  | some text => .ok text
  | none => .error .notUtf8

def readPath (path : String) : IO (String × Except ReadFailure String) := do
  let bytes ← (IO.FS.readBinFile path).toBaseIO
  return (path, (bytes.mapError failureOf).bind textOf)

/-- The names of the files in a directory. There are none if it cannot be read. -/
def fileNames (directory : String) : IO (List String) := do
  let here := if directory.isEmpty then "." else directory
  match ← (do (← IO.FS.realPath here).readDir : IO _).toBaseIO with
  | .ok found => return (found.map (·.fileName)).toList
  | .error _ => return []

/-- The files that may be asked for when a template file is rendered. -/
def readAround (template : String) (others : List String) : IO Disk := do
  let directory := Path.parent template
  let names ← fileNames directory
  let beside := names.filter fun name => extension.toList.isSuffixOf name.toList
  let paths := template :: others ++ beside.map (Path.join directory)
  return Disk.ofReadings (← paths.mapM readPath) names

def readStdin : IO (Except ReadFailure String) := do
  return textOf (← (← IO.getStdin).readBinToEnd)

/-- The disk and the standard input that the arguments need. -/
def gather (args : List String) : IO (Disk × Except ReadFailure String) := do
  match read args with
  | .run (.render template data config _) =>
    let disk ← readAround template (data.toList ++ config.toList)
    let stdin ← if data.isNone then readStdin else pure (.ok "")
    return (disk, stdin)
  | .run (.check template) => return (← readAround template [], .ok "")
  | _ => return (Disk.ofReadings [] [], .ok "")

end Logicless.CommandLine

/-- A call that the system would end gives 134, as a shell does for an abort. -/
def main (args : List String) : IO UInt32 := do
  let (disk, stdin) ← Logicless.CommandLine.gather args
  let ending := Logicless.CommandLine.run disk stdin args
  IO.print ending.output
  if let some failure := ending.failure then IO.eprintln failure
  if ending.code = some 2 then IO.eprint Logicless.CommandLine.helpTop
  return (ending.code.getD 134).toUInt32
