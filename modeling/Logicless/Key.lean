import Logicless.Text.Blank
import Logicless.Text.Search

/-!
# Keys

A tag names a value by a key. The parts of a key are looked up one after another.
-/

namespace Logicless

/-- How a key is cut into the names looked up one after another. -/
abbrev KeySplitter := String → List String

namespace Key

/-- The parts between dots. A dot alone is the one part that names the current value. -/
def dotted : KeySplitter := fun key =>
  let cs := Text.trim key.toList
  if cs = ['.'] then ["."]
  else ((cs.splitOn '.').filter fun part => !part.isEmpty).map String.ofList

/-- The key as it is. -/
def whole : KeySplitter := fun key => [key]

/-- The pieces of a text between occurrences of a separator. -/
def pieces (separator cs : List Char) (ne : separator ≠ []) : List (List Char) :=
  match h : Text.splitAt? separator cs with
  | none => [cs]
  | some (before, after) =>
    have : after.length < cs.length := Text.length_lt_of_splitAt? ne h
    before :: pieces separator after ne
termination_by cs.length

/-- The parts between occurrences of a separator, empty ones too. The empty separator stands before,
between and after all characters. -/
def separated (separator : String) : KeySplitter := fun key =>
  if h : separator.toList = [] then "" :: key.toList.map String.singleton ++ [""]
  else (pieces separator.toList key.toList h).map String.ofList

end Key

end Logicless
