import Logicless.Segment.Tree

/-!
# What stands in segments

The texts, names and sections in a tree of segments, and the tree under another name: the name of a
template stands in the origins of its segments and nowhere else (`Tree.ofSource_retitle`).
-/

namespace Logicless

namespace Segment

mutual

def texts : Segment → List String
  | .text s _ => [s]
  | .value _ => []
  | .block _ children => textsOf children
  | .inclusion .. => []
  | .comment .. => []

def textsOf : List Segment → List String
  | [] => []
  | s :: rest => texts s ++ textsOf rest

end

mutual

def inclusions : Segment → List String
  | .text .. => []
  | .value _ => []
  | .block _ children => inclusionsOf children
  | .inclusion name _ => [name]
  | .comment .. => []

def inclusionsOf : List Segment → List String
  | [] => []
  | s :: rest => inclusions s ++ inclusionsOf rest

end

mutual

/-- The sections of a segment in document order, each with its children. -/
def sections : Segment → List (SectionTag × List Segment)
  | .text .. => []
  | .value _ => []
  | .block tag children => (tag, children) :: sectionsOf children
  | .inclusion .. => []
  | .comment .. => []

def sectionsOf : List Segment → List (SectionTag × List Segment)
  | [] => []
  | s :: rest => sections s ++ sectionsOf rest

end

end Segment

/-! ### Other names -/

section

variable (f : String → String)

def Origin.retitle (o : Origin) : Origin :=
  { o with template := f o.template }

def ValueTag.retitle (tag : ValueTag) : ValueTag :=
  { tag with origin := tag.origin.retitle f }

def SectionTag.retitle (tag : SectionTag) : SectionTag :=
  { tag with origin := tag.origin.retitle f }

namespace Segment

mutual

def retitle : Segment → Segment
  | .text s origin => .text s (origin.retitle f)
  | .value tag => .value (tag.retitle f)
  | .block tag children => .block (tag.retitle f) (retitleAll children)
  | .inclusion name origin => .inclusion name (origin.retitle f)
  | .comment s origin => .comment s (origin.retitle f)

def retitleAll : List Segment → List Segment
  | [] => []
  | s :: rest => retitle s :: retitleAll rest

end

theorem retitleAll_eq (segments : List Segment) : retitleAll f segments = segments.map (retitle f) := by
  induction segments with
  | nil => rfl
  | cons s rest ih => rw [retitleAll, ih, List.map_cons]

mutual

theorem retitle_same : ∀ segment : Segment, segment.retitle (fun name => name) = segment
  | .text .. => rfl
  | .value _ => rfl
  | .block tag children => congrArg (Segment.block tag) (retitleAll_same children)
  | .inclusion .. => rfl
  | .comment .. => rfl

theorem retitleAll_same : ∀ segments : List Segment, retitleAll (fun name => name) segments = segments
  | [] => rfl
  | s :: rest => by rw [retitleAll, retitle_same s, retitleAll_same rest]

end

mutual

theorem valueTags_retitle :
    ∀ segment : Segment, (segment.retitle f).valueTags = segment.valueTags.map (·.retitle f)
  | .text .. => rfl
  | .value _ => rfl
  | .block _ children => valueTagsOf_retitleAll children
  | .inclusion .. => rfl
  | .comment .. => rfl

theorem valueTagsOf_retitleAll : ∀ segments : List Segment,
    valueTagsOf (retitleAll f segments) = (valueTagsOf segments).map (·.retitle f)
  | [] => rfl
  | s :: rest => by
    rw [retitleAll, valueTagsOf, valueTagsOf, List.map_append, valueTags_retitle s,
      valueTagsOf_retitleAll rest]

end

end Segment

namespace Tree

open Segment (retitleAll retitleAll_eq)

def Setting.retitle (c : Setting) : Setting :=
  { c with template := f c.template }

def retitle (t : Tree) : Tree where
  siblings := retitleAll f t.siblings
  enclosing := t.enclosing.map fun (opened, before) => (opened, retitleAll f before)
  numbered := t.numbered

variable (c : Setting) (t : Tree)

theorem addText_retitle (s : String) (line : Nat) :
    (t.retitle f).addText (c.retitle f) s line = (t.addText c s line).retitle f := by
  obtain ⟨siblings, enclosing, numbered⟩ := t
  rcases siblings with _ | ⟨_ | _, rest⟩ <;> rfl

theorem closeSection_retitle (tag : Tag) :
    (t.retitle f).closeSection (c.retitle f) tag = (t.closeSection c tag).map (·.retitle f) := by
  obtain ⟨siblings, enclosing, numbered⟩ := t
  rcases enclosing with _ | ⟨⟨opened, before⟩, enclosing⟩
  · rfl
  · simp only [closeSection, retitle, List.map_cons]
    split
    · simp only [Except.map, retitleAll_eq, List.map_reverse, List.map_cons, Segment.retitle]
      rfl
    · rfl

theorem addTag_retitle (tag : Tag) :
    (t.retitle f).addTag (c.retitle f) tag = (t.addTag c tag).map (·.retitle f) := by
  obtain ⟨kind, _⟩ := tag
  cases kind with
  | sectionEnd => exact closeSection_retitle f c t _
  | _ => rfl

theorem addAll_retitle (tokens : List Token) :
    addAll (c.retitle f) tokens (t.retitle f) = (addAll c tokens t).map (·.retitle f) := by
  induction tokens generalizing t with
  | nil => rfl
  | cons token tokens ih =>
    have added : (t.retitle f).add (c.retitle f) token = (t.add c token).map (·.retitle f) := by
      cases token with
      | text s line => exact congrArg Except.ok (addText_retitle f c t s line)
      | tag tag => exact addTag_retitle f c t tag
    rw [addAll, addAll, added]
    cases t.add c token with
    | error fault => rfl
    | ok t => exact ih t

theorem finish_retitle : (t.retitle f).finish = t.finish.map (retitleAll f) := by
  obtain ⟨siblings, enclosing, numbered⟩ := t
  rcases enclosing with _ | ⟨⟨opened, before⟩, enclosing⟩
  · simp only [finish, retitle, List.map_nil, Except.map, retitleAll_eq, List.map_reverse]
  · rfl

/-- Under another name, a source has the same segments, or the same fault. -/
theorem ofSource_retitle (template source : String) (split : KeySplitter) :
    ofSource (f template) source split = (ofSource template source split).map (retitleAll f) := by
  unfold ofSource
  cases Token.scan source with
  | error fault => rfl
  | ok tokens =>
    show ofTokens (Setting.retitle f ⟨template, source.toList, split⟩) _ =
      (ofTokens ⟨template, source.toList, split⟩ _).map _
    have added := addAll_retitle f ⟨template, source.toList, split⟩ empty (Token.dropStandalone tokens)
    unfold ofTokens
    change addAll (Setting.retitle f ⟨template, source.toList, split⟩) _ empty = _ at added
    rw [added]
    cases addAll _ (Token.dropStandalone tokens) empty with
    | error fault => rfl
    | ok t => exact finish_retitle f t

end Tree

end

end Logicless
