import Logicless.Segment.Tree
import Logicless.Segment.Walk
import Logicless.Text.Record

/-!
# Templates

A compiled template. Each compilation makes an instance of its own, with hints of its own. Its
structure has a text for diagnostics.
-/

namespace Logicless

structure Template where
  instanceId : Nat
  name : String
  segments : List Segment

namespace Template

def valueTags (t : Template) : List ValueTag :=
  Segment.valueTagsOf t.segments

/-- A walk through all segments. -/
def walk (t : Template) : Walk :=
  ⟨t.segments⟩

def ofSource (instanceId : Nat) (name source : String) (split : KeySplitter) :
    Except Error Template :=
  match Tree.ofSource name source split with
  | .ok segments => .ok { instanceId, name, segments }
  | .error f => .error (.ofSourceFault name f)

end Template

/-! ### Diagnostics -/

open Text (field flag holding listing optional quote record)

def Origin.inspect (o : Origin) : String :=
  record "Origin"
    [field "template_name" (quote o.template), field "line" (toString o.line),
     field "index" (toString o.index)]

/-- A place for a hint, with the hint in it. -/
def inspectSlot (hint : Option String) : String :=
  record "HintSlot" [field "hint" (optional hint)]

def inspectParts (parts : List String) : String :=
  field "key_parts" (listing (parts.map quote))

namespace Segment

def inspectLead (text : String) (origin : Origin) : List String :=
  [field "text" (quote text), field "origin" origin.inspect]

mutual

/-- The text of a segment. `slot` tells of the slot that a value tag has and of the hint in it. -/
def inspect (slot : ValueTag → Option (Option String)) : Segment → String
  | .text s origin => holding "Text" (record "TextSegment" (inspectLead s origin))
  | .value tag =>
    holding "Value" <| record "ValueSegment" <| inspectLead tag.text tag.origin ++
      [field "unescape" (flag tag.unescaped), inspectParts tag.parts,
       field "hint" (optional ((slot tag).map inspectSlot))]
  | .block tag children =>
    holding (if tag.inverted then "InvertedSection" else "Section") <|
      record "SectionSegment" <| inspectLead tag.text tag.origin ++
        [inspectParts tag.parts, field "content" (quote tag.content),
         field "children" (listing (inspectAll slot children))]
  | .inclusion name origin =>
    holding "Partial" <| record "PartialSegment"
      [field "name" (quote name), field "origin" origin.inspect]
  | .comment s origin => holding "Comment" (record "CommentSegment" (inspectLead s origin))

def inspectAll (slot : ValueTag → Option (Option String)) : List Segment → List String
  | [] => []
  | s :: rest => inspect slot s :: inspectAll slot rest

end

end Segment

def Template.inspect (slot : ValueTag → Option (Option String)) (t : Template) : String :=
  record "Template"
    [field "name" (quote t.name),
     field "root" (record "RootSegment"
       [field "children" (listing (Segment.inspectAll slot t.segments))])]

end Logicless
