import Logicless.Error
import Logicless.Key
import Logicless.Segment
import Logicless.Text.Bytes
import Logicless.Token.Lexer
import Logicless.Token.Line

/-!
# Building the tree

`Tree.ofTokens` reads tokens from left to right and keeps a stack of the sections that are open.
-/

namespace Logicless

/-- A section whose end has not been read. Its content starts at byte `contentStart`. -/
structure OpenSection where
  inverted : Bool
  key : String
  line : Nat
  index : Nat
  contentStart : Nat
deriving DecidableEq, Repr

/-- A tree under construction. `siblings` are the finished segments of the innermost open section,
and each open section stands beside the siblings that precede it, all of them latest first. -/
structure Tree where
  siblings : List Segment
  enclosing : List (OpenSection × List Segment)
  numbered : Nat

/-- What every segment of a template has in common. -/
structure Tree.Setting where
  template : String
  source : List Char
  split : KeySplitter

namespace Tree

def empty : Tree := ⟨[], [], 0⟩

/-- Literal text. It joins the text just before it, if there is any. -/
def addText (c : Setting) (s : String) (line : Nat) (t : Tree) : Tree :=
  match t.siblings with
  | .text before origin :: rest => { t with siblings := .text (before ++ s) origin :: rest }
  | siblings =>
    let index := t.numbered + 1
    { t with siblings := .text s ⟨c.template, line, index⟩ :: siblings, numbered := index }

/-- A segment without children. -/
def addLeaf (c : Setting) (line : Nat) (leaf : Origin → Segment) (t : Tree) : Tree :=
  let index := t.numbered + 1
  { t with siblings := leaf ⟨c.template, line, index⟩ :: t.siblings, numbered := index }

/-- The start of a section, which takes its number here. -/
def openSection (inverted : Bool) (tag : Tag) (t : Tree) : Tree :=
  let index := t.numbered + 1
  let opened := ⟨inverted, tag.content, tag.line, index, tag.stop⟩
  { siblings := [], enclosing := (opened, t.siblings) :: t.enclosing, numbered := index }

/-- The end of the innermost open section. -/
def closeSection (c : Setting) (tag : Tag) (t : Tree) : Except SourceFault Tree :=
  match t.enclosing with
  | [] => .error ⟨tag.line, .unexpectedEnd tag.content⟩
  | (opened, siblings) :: enclosing =>
    if opened.key = tag.content then
      let closed : SectionTag :=
        { inverted := opened.inverted
          text := opened.key
          origin := ⟨c.template, opened.line, opened.index⟩
          parts := c.split opened.key
          content := String.ofList (Text.slice c.source opened.contentStart tag.start) }
      .ok { t with siblings := .block closed t.siblings.reverse :: siblings, enclosing }
    else .error ⟨tag.line, .mismatchedEnd opened.key tag.content⟩

def addTag (c : Setting) (tag : Tag) (t : Tree) : Except SourceFault Tree :=
  let valueTag (unescaped : Bool) : Tree :=
    t.addLeaf c tag.line fun o => .value ⟨tag.content, o, unescaped, c.split tag.content⟩
  match tag.kind with
  | .escaped => .ok (valueTag false)
  | .unescaped => .ok (valueTag true)
  | .sectionStart => .ok (t.openSection false tag)
  | .invertedStart => .ok (t.openSection true tag)
  | .sectionEnd => t.closeSection c tag
  | .comment => .ok (t.addLeaf c tag.line (.comment tag.content))
  | .inclusion => .ok (t.addLeaf c tag.line (.inclusion tag.content))
  | .delimiters => .ok t

def add (c : Setting) (t : Tree) : Token → Except SourceFault Tree
  | .text s line => .ok (t.addText c s line)
  | .tag tag => t.addTag c tag

def addAll (c : Setting) : List Token → Tree → Except SourceFault Tree
  | [], t => .ok t
  | token :: tokens, t =>
    match t.add c token with
    | .error f => .error f
    | .ok t => addAll c tokens t

/-- The finished segments. No section may be open. -/
def finish (t : Tree) : Except SourceFault (List Segment) :=
  match t.enclosing with
  | [] => .ok t.siblings.reverse
  | (opened, _) :: _ => .error ⟨opened.line, .unterminatedSection opened.key⟩

def ofTokens (c : Setting) (tokens : List Token) : Except SourceFault (List Segment) := do
  (← addAll c tokens empty).finish

/-- The segments of a template source. -/
def ofSource (template source : String) (split : KeySplitter) : Except SourceFault (List Segment) := do
  let tokens ← Token.scan source
  ofTokens ⟨template, source.toList, split⟩ (Token.dropStandalone tokens)

end Tree

end Logicless
