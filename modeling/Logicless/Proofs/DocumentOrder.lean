import Logicless.Proofs.Numbering
import Logicless.Proofs.Recompilation

/-!
# Document order

A walk meets the segments of a template in the order of their numbers and never goes back to an earlier
line (`Template.ofSource_numbered`). Numbers are given while the tree is built; lines are those of the
tokens that the segments are made of.
-/

namespace Logicless

namespace Token

/-- A token stands on no earlier line than those before it. -/
theorem Covers.pairwise_line {source : List Char} {tokens : List Token} (h : Covers source tokens) :
    (tokens.map line).Pairwise (· ≤ ·) := by
  rw [List.pairwise_map, List.pairwise_iff_forall_sublist]
  intro a b order
  obtain ⟨left, right, rfl, first, second⟩ := List.cons_sublist_iff.mp order
  obtain ⟨before, inner, rfl⟩ := List.append_of_mem first
  obtain ⟨inner', after, rfl⟩ := List.append_of_mem (List.singleton_sublist.mp second)
  -- All newlines before the first token are before the second as well.
  obtain ⟨lineA, _⟩ := h.stands before a (inner ++ (inner' ++ b :: after)) (by simp)
  obtain ⟨lineB, _⟩ := h.stands (before ++ (a :: inner ++ inner')) b after (by simp)
  rw [lineA, lineB, lexemes_append, newlines_append]
  omega

/-- Text that is joined keeps the line of its first part. -/
theorem map_line_join_sublist (tokens : List Token) :
    ((join tokens).map line).Sublist (tokens.map line) := by
  induction tokens with
  | nil => exact .slnil
  | cons token rest ih =>
    cases token with
    | tag t => exact ih.cons_cons _
    | text s first =>
      rw [join]
      split
      · next more second joined same =>
        rw [same] at ih
        exact ((List.sublist_cons_self second _).trans ih).cons_cons first
      · exact ih.cons_cons first

theorem map_line_settled_sublist (tokens : List Token) :
    ((settled tokens).map line).Sublist (tokens.map line) :=
  have shown : (visible (dropStandalone tokens)).Sublist tokens :=
    List.filter_sublist.trans (dropStandalone_sublist tokens)
  (map_line_join_sublist _).trans (shown.map line)

end Token

namespace Segment

theorem preorder_of_flat {segment : Segment} {token : Token}
    (flat : segment.outline.pieces = [token.piece]) : segment.preorder = [segment] := by
  cases segment with
  | block => simp [outline, Outline.pieces] at flat
  | _ => rfl

/-- A walk meets segments on the lines of the tokens that they start with. -/
theorem Spells.map_line_sublist {source : List Char} {segments : List Segment} {tokens : List Token}
    (h : Spells source segments tokens) :
    ((preorderOf segments).map (·.origin.line)).Sublist (tokens.map Token.line) := by
  induction h with
  | nil => exact .slnil
  | leaf flat line _ ih =>
    rw [preorderOf, preorder_of_flat flat, List.singleton_append, List.map_cons, List.map_cons, line]
    exact ih.cons_cons _
  | @block tag o c children segments inner tokens _ _ _ _ line _ _ _ within after =>
    have start : (Segment.block tag children).origin.line = (Token.tag o).line := line
    simp only [preorderOf, preorder, List.cons_append, List.map_cons, List.map_append, start]
    -- No segment is met at the tag that ends the section.
    exact (within.append (after.cons _)).cons_cons _

end Segment

namespace Template

open Segment

theorem tree_of_compiled {instanceId : Nat} {name source : String} {split : KeySplitter} {t : Template}
    (compiled : ofSource instanceId name source split = .ok t) :
    Tree.ofSource name source split = .ok t.segments := by
  unfold ofSource at compiled
  split at compiled
  · next tree =>
    cases compiled
    exact tree
  · cases compiled

/-- The segments of a template are numbered from 1 as a walk meets them, no segment stands on a line
before that of one met earlier, and the walk stops at just the value tags, in the order of their
numbers. -/
theorem ofSource_numbered {instanceId : Nat} {name source : String} {split : KeySplitter} {t : Template}
    (compiled : ofSource instanceId name source split = .ok t) :
    (preorderOf t.segments).map (·.origin.index) = List.range' 1 (preorderOf t.segments).length ∧
      ((preorderOf t.segments).map (·.origin.line)).Pairwise (· ≤ ·) ∧
      t.walk.values = (preorderOf t.segments).filterMap valueTag? ∧
      (t.walk.values.map (·.origin.index)).Pairwise (· < ·) := by
  obtain ⟨n, numbers⟩ := Tree.indicesOf_ofSource (tree_of_compiled compiled)
  obtain ⟨tokens, scanned, spelled⟩ := spells_of_compiled compiled
  have values : t.walk.values = (preorderOf t.segments).filterMap valueTag? :=
    t.walk.values_eq_tagsAhead
  have ascending : (indicesOf t.segments).Pairwise (· < ·) := numbers ▸ List.pairwise_lt_range'
  refine ⟨?_, ?_, values, ?_⟩
  · rw [indicesOf_eq] at numbers
    have count := congrArg List.length numbers
    rw [List.length_map, List.length_range'] at count
    rw [numbers, count]
  · have lines := spelled.map_line_sublist.trans (Token.map_line_settled_sublist tokens)
    exact (Token.covers_of_scan scanned).pairwise_line.sublist lines
  · rw [values, ← valueTagsOf_eq]
    exact ascending.sublist (valueTagsOf_sublist t.segments)

/-- The text goes on after a tag that changes the delimiters, and the section ends before `z`. -/
theorem ofSource_numbered_nested :
    ∃ t, ofSource 0 "t"
        "a\n\x7b\x7b=<% %>=\x7d\x7d\nb<%#s%>\n<%x%><%^u%><%&y%><%/u%><%/s%><%z%>" Key.whole = .ok t ∧
      (preorderOf t.segments).map (·.origin.index) = [1, 2, 3, 4, 5, 6, 7] ∧
      (preorderOf t.segments).map (·.origin.line) = [1, 3, 3, 4, 4, 4, 4] ∧
      ((preorderOf t.segments).map (·.origin.line)).Pairwise (· ≤ ·) ∧
      t.walk.values.map (·.text) = ["x", "y", "z"] ∧
      (t.walk.values.map (·.origin.index)).Pairwise (· < ·) := by
  have compiled : ofSource 0 "t"
      "a\n\x7b\x7b=<% %>=\x7d\x7d\nb<%#s%>\n<%x%><%^u%><%&y%><%/u%><%/s%><%z%>" Key.whole =
      .ok ⟨0, "t", [.text "a\nb" ⟨"t", 1, 1⟩,
        .block ⟨false, "s", ⟨"t", 3, 2⟩, ["s"], "\n<%x%><%^u%><%&y%><%/u%>"⟩
          [.text "\n" ⟨"t", 3, 3⟩, .value ⟨"x", ⟨"t", 4, 4⟩, false, ["x"]⟩,
            .block ⟨true, "u", ⟨"t", 4, 5⟩, ["u"], "<%&y%>"⟩
              [.value ⟨"y", ⟨"t", 4, 6⟩, true, ["y"]⟩]],
        .value ⟨"z", ⟨"t", 4, 7⟩, false, ["z"]⟩]⟩ := by
    with_unfolding_all rfl
  obtain ⟨numbers, lines, values, ascending⟩ := ofSource_numbered compiled
  refine ⟨_, compiled, numbers, rfl, lines, ?_, ascending⟩
  rw [values]
  rfl

end Template

end Logicless
