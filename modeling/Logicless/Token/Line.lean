import Logicless.Text.Blank
import Logicless.Text.Pieces
import Logicless.Token

/-!
# Standalone lines

A line with nothing but blanks and one tag that writes no value leaves no text behind.
-/

namespace Logicless.Token

def isBlank : Token → Bool
  | .text s _ => s.toList.all Text.isBlank
  | .tag _ => false

def endsLine : Token → Bool
  | .text s _ => s.toList.getLast? == some '\n'
  | .tag _ => false

/-- The tokens of each line. A newline inside a tag ends no line. -/
def lines (tokens : List Token) : List (List Token) :=
  splitAfter endsLine tokens

/-- One tag that stands alone, and blanks. -/
def isStandalone (line : List Token) : Bool :=
  match line.filterMap tag? with
  | [t] => t.kind.standsAlone && line.all fun token => token.isTag || token.isBlank
  | _ => false

/-- What a line leaves: its tag if it is standalone, else all of it. -/
def keepLine (line : List Token) : List Token :=
  if isStandalone line then line.filter isTag else line

/-- The tokens without the text of standalone lines. -/
def dropStandalone (tokens : List Token) : List Token :=
  (lines tokens).flatMap keepLine

theorem keepLine_sublist (line : List Token) : (keepLine line).Sublist line := by
  unfold keepLine
  split
  · exact List.filter_sublist
  · exact .refl line

theorem dropStandalone_sublist (tokens : List Token) : (dropStandalone tokens).Sublist tokens := by
  have kept (pieces : List (List Token)) : (pieces.flatMap keepLine).Sublist pieces.flatten := by
    induction pieces with
    | nil => exact .slnil
    | cons line rest ih =>
      rw [List.flatMap_cons, List.flatten_cons]
      exact (keepLine_sublist line).append ih
  have pieces := kept (lines tokens)
  rwa [lines, flatten_splitAfter] at pieces

theorem tags_keepLine (line : List Token) : (keepLine line).filterMap tag? = line.filterMap tag? := by
  unfold keepLine
  split
  · rw [List.filterMap_filter]
    congr
    funext token
    cases token <;> rfl
  · rfl

theorem tags_dropStandalone (tokens : List Token) :
    (dropStandalone tokens).filterMap tag? = tokens.filterMap tag? := by
  have whole : (lines tokens).flatten = tokens := flatten_splitAfter endsLine tokens
  calc
    (dropStandalone tokens).filterMap tag? =
        (lines tokens).flatMap fun line => (keepLine line).filterMap tag? := List.filterMap_flatMap
    _ = (lines tokens).flatMap fun line => line.filterMap tag? := by simp only [tags_keepLine]
    _ = (lines tokens).flatten.filterMap tag? := List.filterMap_flatten.symm
    _ = tokens.filterMap tag? := by rw [whole]

end Logicless.Token
