import Logicless.Segment
import Logicless.Token

/-!
# Outlines

What is left of segments without their places: kinds, texts, escape flags and nesting. A walk through
an outline meets its texts and tags as pieces, and the pieces tell the outline
(`Outline.piecesAll_inj`).
-/

namespace Logicless

/-- A segment without its place. -/
inductive Outline where
  | text (text : String)
  | value (unescaped : Bool) (key : String)
  | block (inverted : Bool) (key : String) (children : List Outline)
  | inclusion (name : String)
  | comment (text : String)

namespace Segment

mutual

def outline : Segment → Outline
  | .text s _ => .text s
  | .value tag => .value tag.unescaped tag.text
  | .block tag children => .block tag.inverted tag.text (outlineAll children)
  | .inclusion name _ => .inclusion name
  | .comment s _ => .comment s

def outlineAll : List Segment → List Outline
  | [] => []
  | s :: rest => outline s :: outlineAll rest

end

end Segment

inductive Piece where
  | text (text : String)
  | tag (kind : TagKind) (content : String)
deriving DecidableEq, Repr

def Token.piece : Token → Piece
  | .text s _ => .text s
  | .tag t => .tag t.kind t.content

def TagKind.start (inverted : Bool) : TagKind :=
  if inverted then .invertedStart else .sectionStart

def TagKind.value (unescaped : Bool) : TagKind :=
  if unescaped then .unescaped else .escaped

theorem TagKind.start_inj {inverted inverted' : Bool} (h : start inverted = start inverted') :
    inverted = inverted' := by
  cases inverted <;> cases inverted' <;> trivial

namespace Outline

mutual

/-- The pieces of an outline, depth first. A section is its start, its children and its end. -/
def pieces : Outline → List Piece
  | .text s => [.text s]
  | .value unescaped key => [.tag (.value unescaped) key]
  | .block inverted key children =>
    .tag (.start inverted) key :: (piecesAll children ++ [.tag .sectionEnd key])
  | .inclusion name => [.tag .inclusion name]
  | .comment s => [.tag .comment s]

def piecesAll : List Outline → List Piece
  | [] => []
  | o :: rest => pieces o ++ piecesAll rest

end

/-! ### The pieces tell the outline -/

def Closes (rest : List Piece) : Prop :=
  ∀ p ∈ rest.head?, ∃ key, p = .tag .sectionEnd key

theorem not_closes_pieces (o : Outline) (rest : List Piece) : ¬ Closes (pieces o ++ rest) := by
  intro closes
  cases o with
  | value unescaped key =>
    obtain ⟨_, same⟩ := closes _ rfl
    cases unescaped <;> cases same
  | block inverted key children =>
    obtain ⟨_, same⟩ := closes _ rfl
    cases inverted <;> cases same
  | _ =>
    obtain ⟨_, same⟩ := closes _ rfl
    cases same

mutual

theorem pieces_inj : ∀ (x y : Outline) {rest rest' : List Piece},
    pieces x ++ rest = pieces y ++ rest' → x = y ∧ rest = rest'
  | x, y, rest, rest', same => by
    cases x <;> cases y
    case block.block inverted key children inverted' key' children' =>
      simp only [pieces, List.cons_append, List.append_assoc, List.cons.injEq, Piece.tag.injEq] at same
      obtain ⟨⟨kinds, rfl⟩, tails⟩ := same
      have closes (rest : List Piece) : Closes (.tag .sectionEnd key :: ([] ++ rest)) := by
        rintro p ⟨⟩
        exact ⟨key, rfl⟩
      obtain ⟨rfl, ends⟩ := piecesAll_inj_of_closes children children' (closes _) (closes _) tails
      obtain rfl := TagKind.start_inj kinds
      exact ⟨rfl, (List.cons.inj ends).2⟩
    all_goals grind [pieces, TagKind.value, TagKind.start]

theorem piecesAll_inj_of_closes : ∀ (xs ys : List Outline) {rest rest' : List Piece},
    Closes rest → Closes rest' → piecesAll xs ++ rest = piecesAll ys ++ rest' →
      xs = ys ∧ rest = rest'
  | [], [], _, _, _, _, same => ⟨rfl, same⟩
  | [], y :: ys, rest, rest', closes, _, same => by
    rw [piecesAll, List.nil_append, piecesAll, List.append_assoc] at same
    exact absurd (same ▸ closes) (not_closes_pieces y _)
  | x :: xs, [], rest, rest', _, closes, same => by
    rw [piecesAll, piecesAll, List.nil_append, List.append_assoc] at same
    exact absurd (same ▸ closes) (not_closes_pieces x _)
  | x :: xs, y :: ys, rest, rest', closes, closes', same => by
    rw [piecesAll, piecesAll, List.append_assoc, List.append_assoc] at same
    obtain ⟨rfl, tails⟩ := pieces_inj x y same
    obtain ⟨rfl, ends⟩ := piecesAll_inj_of_closes xs ys closes closes' tails
    exact ⟨rfl, ends⟩

end

/-- Outlines with the same pieces are the same. -/
theorem piecesAll_inj {xs ys : List Outline} (same : piecesAll xs = piecesAll ys) : xs = ys := by
  have closes : Closes [] := fun _ member => by cases member
  have joined : piecesAll xs ++ [] = piecesAll ys ++ [] := by rw [same]
  exact (piecesAll_inj_of_closes xs ys closes closes joined).1

end Outline

end Logicless
