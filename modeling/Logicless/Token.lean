/-!
# Tokens

What a template source consists of: runs of literal text, none longer than a line, and tags.
-/

namespace Logicless

inductive TagKind where
  | escaped
  | unescaped
  | sectionStart
  | invertedStart
  | sectionEnd
  | comment
  | inclusion
  | delimiters
deriving DecidableEq, Repr

/-- A tag that writes the value of its key. -/
def TagKind.isVariable : TagKind → Bool
  | .escaped | .unescaped => true
  | _ => false

/-- A tag that, alone on a line, takes the whole line with it. -/
def TagKind.standsAlone (k : TagKind) : Bool :=
  !k.isVariable

/-- The name of the kind in diagnostics. -/
def TagKind.label : TagKind → String
  | .escaped => "Variable"
  | .unescaped => "UnescapeVariable"
  | .sectionStart => "Section"
  | .invertedStart => "InvertedSection"
  | .sectionEnd => "SectionEnd"
  | .comment => "Comment"
  | .inclusion => "Partial"
  | .delimiters => "Delimiter"

/-- A tag at the byte offsets `start` to `stop` of the source. -/
structure Tag where
  kind : TagKind
  content : String
  line : Nat
  start : Nat
  stop : Nat
deriving DecidableEq, Repr

inductive Token where
  | text (text : String) (line : Nat)
  | tag (tag : Tag)
deriving DecidableEq, Repr

namespace Token

def line : Token → Nat
  | .text _ line => line
  | .tag t => t.line

def tag? : Token → Option Tag
  | .text .. => none
  | .tag t => some t

def isTag (t : Token) : Bool :=
  t.tag?.isSome

end Token

end Logicless
