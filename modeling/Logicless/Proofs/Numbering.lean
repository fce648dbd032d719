import Logicless.Segment.Tree
import Logicless.Segment.Walk
import Mathlib.Data.List.Nodup

/-!
# The numbers of segments

Segments are numbered in document order from 1. So a value tag is known by its number within its
template (`Tree.eq_of_index_eq`).
-/

namespace Logicless

namespace Segment

mutual

/-- The numbers of a segment and of all segments in it, in document order. -/
def indices : Segment → List Nat
  | .block tag children => tag.origin.index :: indicesOf children
  | .text _ o => [o.index]
  | .value tag => [tag.origin.index]
  | .inclusion _ o => [o.index]
  | .comment _ o => [o.index]

def indicesOf : List Segment → List Nat
  | [] => []
  | s :: rest => indices s ++ indicesOf rest

end

theorem indicesOf_append (ss ts : List Segment) :
    indicesOf (ss ++ ts) = indicesOf ss ++ indicesOf ts := by
  induction ss with
  | nil => rfl
  | cons s rest ih =>
    simp only [List.cons_append, indicesOf, ih, List.append_assoc]

theorem indicesOf_reverse_cons (s : Segment) (rest : List Segment) :
    indicesOf (s :: rest).reverse = indicesOf rest.reverse ++ indices s := by
  rw [List.reverse_cons, indicesOf_append]
  simp only [indicesOf, List.append_nil]

mutual

theorem indices_eq : ∀ s : Segment, indices s = (preorder s).map (·.origin.index)
  | .text .. => rfl
  | .value _ => rfl
  | .block tag children => congrArg (tag.origin.index :: ·) (indicesOf_eq children)
  | .inclusion .. => rfl
  | .comment .. => rfl

theorem indicesOf_eq : ∀ ss : List Segment, indicesOf ss = (preorderOf ss).map (·.origin.index)
  | [] => rfl
  | s :: rest => by
    rw [indicesOf, preorderOf, List.map_append, indices_eq s, indicesOf_eq rest]

end

theorem valueTagsOf_sublist (ss : List Segment) :
    ((valueTagsOf ss).map fun tag => tag.origin.index).Sublist (indicesOf ss) := by
  rw [valueTagsOf_eq, indicesOf_eq]
  induction preorderOf ss with
  | nil => exact .slnil
  | cons s rest ih =>
    cases s with
    | value tag => exact ih.cons_cons tag.origin.index
    | _ => exact ih.cons _

/-- What stands within a section counts with what stands from the section on. -/
theorem valueTagsOf_children {tag : SectionTag} {children rest : List Segment} :
    ∀ within ∈ valueTagsOf children, within ∈ valueTagsOf (.block tag children :: rest) :=
  fun _ member => List.mem_append_left _ member

end Segment

namespace Tree

open Segment

def enclosingIndices : List (OpenSection × List Segment) → List Nat
  | [] => []
  | (opened, siblings) :: rest =>
    enclosingIndices rest ++ indicesOf siblings.reverse ++ [opened.index]

def indices (t : Tree) : List Nat :=
  enclosingIndices t.enclosing ++ indicesOf t.siblings.reverse

def Numbered (t : Tree) : Prop :=
  t.indices = List.range' 1 t.numbered

variable {c : Setting} {t t' : Tree}

theorem numbered_empty : empty.Numbered := rfl

theorem Numbered.addText (h : t.Numbered) (s : String) (line : Nat) :
    (t.addText c s line).Numbered := by
  obtain ⟨siblings, enclosing, numbered⟩ := t
  unfold Tree.addText
  split
  · next before origin rest same =>
    subst same
    simp only [Numbered, Tree.indices, indicesOf_reverse_cons] at h ⊢
    exact h
  · simp only [Numbered, Tree.indices, indicesOf_reverse_cons, Segment.indices] at h ⊢
    rw [← List.append_assoc, h, List.range'_1_concat, Nat.add_comm 1]

theorem Numbered.addLeaf (h : t.Numbered) (line : Nat) {leaf : Origin → Segment}
    (single : ∀ o, Segment.indices (leaf o) = [o.index]) : (t.addLeaf c line leaf).Numbered := by
  simp only [Numbered, Tree.indices, Tree.addLeaf, indicesOf_reverse_cons, single] at h ⊢
  rw [← List.append_assoc, h, List.range'_1_concat, Nat.add_comm 1]

theorem Numbered.openSection (h : t.Numbered) (inverted : Bool) (tag : Tag) :
    (t.openSection inverted tag).Numbered := by
  simp only [Numbered, Tree.indices, Tree.openSection, enclosingIndices, List.reverse_nil, indicesOf,
    List.append_nil] at h ⊢
  rw [h, List.range'_1_concat, Nat.add_comm 1]

/-- A section that is closed keeps the place of its number, before those of its children. -/
theorem Numbered.closeSection (h : t.Numbered) {tag : Tag} (closed : t.closeSection c tag = .ok t') :
    t'.Numbered := by
  unfold Tree.closeSection at closed
  split at closed
  · cases closed
  · next opened siblings enclosing same =>
    split at closed
    · cases closed
      simp only [Numbered, Tree.indices, same, enclosingIndices] at h
      simp only [Numbered, Tree.indices, indicesOf_reverse_cons, Segment.indices]
      rw [← h]
      simp only [List.append_assoc, List.cons_append, List.nil_append]
    · cases closed

theorem Numbered.add (h : t.Numbered) {token : Token} (added : t.add c token = .ok t') :
    t'.Numbered := by
  cases token with
  | text s line =>
    cases added
    exact h.addText s line
  | tag tag =>
    simp only [Tree.add, Tree.addTag] at added
    split at added
    · cases added
      exact h.addLeaf _ fun _ => rfl
    · cases added
      exact h.addLeaf _ fun _ => rfl
    · cases added
      exact h.openSection _ _
    · cases added
      exact h.openSection _ _
    · exact h.closeSection added
    · cases added
      exact h.addLeaf _ fun _ => rfl
    · cases added
      exact h.addLeaf _ fun _ => rfl
    · cases added
      exact h

theorem Numbered.addAll (h : t.Numbered) {tokens : List Token}
    (added : addAll c tokens t = .ok t') : t'.Numbered := by
  induction tokens generalizing t with
  | nil =>
    cases added
    exact h
  | cons token rest ih =>
    unfold Tree.addAll at added
    split at added
    · cases added
    · next next step => exact ih (h.add step) added

theorem indicesOf_ofSource {template source : String} {split : KeySplitter} {segments : List Segment}
    (h : ofSource template source split = .ok segments) :
    ∃ n, indicesOf segments = List.range' 1 n := by
  unfold ofSource at h
  cases scanned : Token.scan source with
  | error fault =>
    rw [scanned] at h
    cases h
  | ok tokens =>
    rw [scanned] at h
    simp only [ofTokens, bind, Except.bind] at h
    split at h
    · cases h
    · next t added =>
      unfold finish at h
      split at h
      · next none =>
        cases h
        have numbered := numbered_empty.addAll added
        simp only [Numbered, Tree.indices, none, enclosingIndices, List.nil_append] at numbered
        exact ⟨t.numbered, numbered⟩
      · cases h

/-- No two value tags of a template have one number. -/
theorem eq_of_index_eq {template source : String} {split : KeySplitter} {segments : List Segment}
    (h : ofSource template source split = .ok segments) {tag tag' : ValueTag}
    (member : tag ∈ valueTagsOf segments) (member' : tag' ∈ valueTagsOf segments)
    (same : tag.origin.index = tag'.origin.index) : tag = tag' := by
  obtain ⟨n, indices⟩ := indicesOf_ofSource h
  have distinct : ((valueTagsOf segments).map fun tag => tag.origin.index).Nodup := by
    have all : (indicesOf segments).Nodup := indices ▸ List.nodup_range'
    exact all.sublist (valueTagsOf_sublist segments)
  exact List.inj_on_of_nodup_map distinct member member' same

end Tree

end Logicless
