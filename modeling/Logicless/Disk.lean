/-!
# Disks

Files that are read by path. `Disk.ofTree` holds a tree of files in memory.
-/

namespace Logicless

/-- Why a file cannot be read. -/
inductive ReadFailure where
  | missing
  | notDirectory
  | isDirectory
  | nameTooLong
  | notUtf8
  | other (reason : String)
deriving DecidableEq, Repr

def ReadFailure.message : ReadFailure → String
  | .missing => "No such file or directory (os error 2)"
  | .notDirectory => "Not a directory (os error 20)"
  | .isDirectory => "Is a directory (os error 21)"
  | .nameTooLong => "File name too long (os error 36)"
  | .notUtf8 => "stream did not contain valid UTF-8"
  | .other reason => reason

structure Disk where
  read : String → Except ReadFailure String
  /-- The names of all files, without their directories. -/
  names : List String

namespace Path

/-- What is written between the slashes of a path. -/
def parts (path : String) : List String :=
  (path.toList.splitOn '/').map String.ofList

/-- Whether a part leads anywhere. An empty part and a dot stay where they are. -/
def isStep (part : String) : Bool :=
  part ≠ "" && part ≠ "."

/-- The steps of a path from directory to directory. -/
def steps (path : String) : List String :=
  (parts path).filter isStep

def isAbsolute (path : String) : Bool :=
  path.toList.head? == some '/'

def endsWithSlash (path : String) : Bool :=
  path.toList.getLast? == some '/'

/-- The name that a path ends with. -/
def fileName? (path : String) : Option String :=
  match (steps path).getLast? with
  | some ".." => none
  | name => name

/-- The file name without its last extension. A dot at the start begins no extension. -/
def stem? (path : String) : Option String :=
  (fileName? path).map fun name =>
    let cs := name.toList
    let before := (cs.reverse.dropWhile (· ≠ '.')).drop 1
    if before.isEmpty then name else String.ofList before.reverse

/-- The parts up to the last step. -/
def throughStep (parts : List String) : List String :=
  (parts.reverse.dropWhile fun part => !isStep part).reverse

/-- The parts before the last step, up to the step before it. -/
def beforeStep (parts : List String) : List String :=
  throughStep (throughStep parts).dropLast

/-- The path up to its last step, as it is written. The root and a dot at the start are kept. -/
def parent (path : String) : String :=
  match parts path with
  | "" :: rest => if isAbsolute path then "/" ++ "/".intercalate (beforeStep rest) else ""
  | "." :: rest =>
    if rest.any isStep then "/".intercalate ("." :: beforeStep rest) else ""
  | parts => "/".intercalate (beforeStep parts)

/-- The path of a file in a directory. -/
def join (directory name : String) : String :=
  if directory.isEmpty then name
  else if endsWithSlash directory then directory ++ name
  else directory ++ "/" ++ name

end Path

/-- The files and directories below a directory, by the steps of their paths from there. -/
structure FileTree where
  files : List (List String × String)
  directories : List (List String)

namespace FileTree

/-- Where a path leads: to a place in the tree, or to a directory that the tree lies in. -/
inductive Place where
  | within (steps : List String)
  | around
deriving DecidableEq, Repr

/-- The tree of files with these paths. Their directories, and those in the list, exist. -/
def ofPaths (files : List (String × String)) (directories : List String) : FileTree :=
  let files := files.map fun (path, text) => (Path.steps path, text)
  let above (steps : List String) := (List.range (steps.length + 1)).map steps.take
  { files
    directories := [] ::
      (directories.flatMap fun d => above (Path.steps d)) ++
      files.flatMap fun (steps, _) => above steps.dropLast }

def text? (t : FileTree) : Place → Option String
  | .within steps => t.files.lookup steps
  | .around => none

def isDirectory (t : FileTree) : Place → Bool
  | .within steps => t.directories.contains steps
  | .around => true

/-- Where a step leads from a directory. Nothing but the tree is found in the directories around. -/
def enter : Place → String → Option Place
  | .within here, ".." => some (if here.isEmpty then .around else .within here.dropLast)
  | .within here, step => some (.within (here ++ [step]))
  | .around, ".." => some .around
  | .around, _ => none

/-- Follow the steps of a path from a place. -/
def follow (t : FileTree) (here : Place) : List String → Except ReadFailure Place
  | [] => .ok here
  | step :: rest =>
    if !t.isDirectory here then
      .error (if (t.text? here).isSome then .notDirectory else .missing)
    else if 255 < step.utf8ByteSize then .error .nameTooLong
    else
      match enter here step with
      | some there => t.follow there rest
      | none => .error .missing

/-- Whether a path asks for a directory by the way it ends. -/
def asksDirectory (path : String) : Bool :=
  let cs := path.toList.reverse
  cs.head? == some '/' || cs.take 2 == ['.', '/']

/-- Read a file. A path has less than 4096 bytes and starts from the tree, or else from the root. -/
def read (t : FileTree) (path : String) : Except ReadFailure String :=
  if path.toList.contains '\x00' then
    .error (.other "file name contained an unexpected NUL byte")
  else if path.isEmpty then .error .missing
  else if 4096 ≤ path.utf8ByteSize then .error .nameTooLong
  else do
    let found ← t.follow (if Path.isAbsolute path then .around else .within []) (Path.steps path)
    if t.isDirectory found then throw .isDirectory
    else
      match t.text? found with
      | none => throw .missing
      | some text => if asksDirectory path then throw .notDirectory else return text

end FileTree

/-- A disk of files that have been read before, by path. -/
def Disk.ofReadings (readings : List (String × Except ReadFailure String)) (names : List String) :
    Disk where
  read path := (readings.lookup path).getD (.error .missing)
  names

def Disk.ofTree (t : FileTree) : Disk where
  read := t.read
  names := t.files.filterMap fun (steps, _) => steps.getLast?

end Logicless
