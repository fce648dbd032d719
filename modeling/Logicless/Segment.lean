import Logicless.Token

/-!
# Segments

A compiled template is a tree of segments: literal text, value tags, sections with their children,
inclusions of other templates and comments.
-/

namespace Logicless

/-- Where a segment stands: its template, its line, and its place in document order from 1. -/
structure Origin where
  template : String
  line : Nat
  index : Nat
deriving DecidableEq, Repr

/-- A tag that writes the value of its key. -/
structure ValueTag where
  text : String
  origin : Origin
  unescaped : Bool
  parts : List String
deriving DecidableEq, Repr

/-- The opening tag of a section, and the source between it and the tag that closes it. -/
structure SectionTag where
  inverted : Bool
  text : String
  origin : Origin
  parts : List String
  content : String
deriving DecidableEq, Repr

inductive Segment where
  | text (text : String) (origin : Origin)
  | value (tag : ValueTag)
  | block (tag : SectionTag) (children : List Segment)
  | inclusion (name : String) (origin : Origin)
  | comment (text : String) (origin : Origin)
deriving Repr

namespace Segment

def origin : Segment → Origin
  | .text _ o => o
  | .value t => t.origin
  | .block t _ => t.origin
  | .inclusion _ o => o
  | .comment _ o => o

/-- What was written in the source: the text, key, name or comment. -/
def written : Segment → String
  | .text s _ => s
  | .value t => t.text
  | .block t _ => t.text
  | .inclusion name _ => name
  | .comment s _ => s

def children : Segment → List Segment
  | .block _ children => children
  | _ => []

mutual

/-- The value tags of a segment in document order. -/
def valueTags : Segment → List ValueTag
  | .text .. => []
  | .value t => [t]
  | .block _ children => valueTagsOf children
  | .inclusion .. => []
  | .comment .. => []

/-- The value tags of a list of segments in document order. -/
def valueTagsOf : List Segment → List ValueTag
  | [] => []
  | s :: rest => valueTags s ++ valueTagsOf rest

end

end Segment

end Logicless
