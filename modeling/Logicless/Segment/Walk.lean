import Logicless.Segment

/-!
# Walks through segments

A walk meets segments depth first, each before its children, and stops at value tags. It holds the
segments that it meets next, and finds those within a segment when it meets the segment.
-/

namespace Logicless

namespace Segment

def valueTag? : Segment → Option ValueTag
  | .value tag => some tag
  | _ => none

mutual

/-- A segment and the segments in it, each before its children. -/
def preorder : Segment → List Segment
  | .block tag children => .block tag children :: preorderOf children
  | s => [s]

def preorderOf : List Segment → List Segment
  | [] => []
  | s :: rest => preorder s ++ preorderOf rest

end

theorem preorder_eq (s : Segment) : s.preorder = s :: preorderOf s.children := by
  cases s <;> simp only [preorder, children, preorderOf]

theorem preorderOf_append (ss ts : List Segment) :
    preorderOf (ss ++ ts) = preorderOf ss ++ preorderOf ts := by
  induction ss with
  | nil => rfl
  | cons s rest ih => simp only [List.cons_append, preorderOf, ih, List.append_assoc]

/-- A segment is met before its children, and they before what comes after it. -/
theorem preorderOf_cons (s : Segment) (rest : List Segment) :
    preorderOf (s :: rest) = s :: preorderOf (s.children ++ rest) := by
  rw [preorderOf, preorder_eq, preorderOf_append, List.cons_append]

mutual

theorem valueTags_eq : ∀ s : Segment, valueTags s = (preorder s).filterMap valueTag?
  | .text .. => rfl
  | .value _ => rfl
  | .block _ children => valueTagsOf_eq children
  | .inclusion .. => rfl
  | .comment .. => rfl

theorem valueTagsOf_eq : ∀ ss : List Segment, valueTagsOf ss = (preorderOf ss).filterMap valueTag?
  | [] => rfl
  | s :: rest => by
    rw [valueTagsOf, preorderOf, List.filterMap_append, valueTags_eq s, valueTagsOf_eq rest]

end

end Segment

/-- A walk under way. The segments within the pending ones are to be met as well. -/
structure Walk where
  pending : List Segment

namespace Walk

open Segment

/-- The segments that the walk has not met. -/
def ahead (w : Walk) : List Segment :=
  preorderOf w.pending

theorem ahead_cons (s : Segment) (rest : List Segment) :
    (Walk.mk (s :: rest)).ahead = s :: (Walk.mk (s.children ++ rest)).ahead :=
  preorderOf_cons s rest

/-- The next value tag, and the walk after it. -/
def next? : Walk → Option (ValueTag × Walk)
  | ⟨[]⟩ => none
  | ⟨s :: rest⟩ =>
    match s.valueTag? with
    | some tag => some (tag, ⟨s.children ++ rest⟩)
    | none => next? ⟨s.children ++ rest⟩
termination_by w => w.ahead.length
decreasing_by
  rw [ahead_cons]
  exact Nat.lt_succ_self _

/-- The value tags that the walk has not met. -/
def tagsAhead (w : Walk) : List ValueTag :=
  w.ahead.filterMap valueTag?

/-- A walk stops at the first value tag ahead. -/
theorem tagsAhead_of_next? {w after : Walk} {tag : ValueTag} (found : w.next? = some (tag, after)) :
    w.tagsAhead = tag :: after.tagsAhead := by
  fun_induction next? w with
  | case1 => cases found
  | case2 s rest tag' value =>
    cases found
    rw [tagsAhead, ahead_cons, List.filterMap_cons_some value, tagsAhead]
  | case3 s rest plain ih =>
    rw [tagsAhead, ahead_cons, List.filterMap_cons_none plain]
    exact ih found

/-- A walk that does not stop has met all value tags. -/
theorem tagsAhead_of_next?_none {w : Walk} (ended : w.next? = none) : w.tagsAhead = [] := by
  fun_induction next? w with
  | case1 => rfl
  | case2 => cases ended
  | case3 s rest plain ih =>
    rw [tagsAhead, ahead_cons, List.filterMap_cons_none plain]
    exact ih ended

/-- The value tags that the walk stops at, one after another. -/
def values (w : Walk) : List ValueTag :=
  match found : w.next? with
  | none => []
  | some (tag, after) =>
    have : after.tagsAhead.length < w.tagsAhead.length := by
      rw [tagsAhead_of_next? found]
      exact Nat.lt_succ_self _
    tag :: after.values
termination_by w.tagsAhead.length

/-- A walk stops at each value tag, and nowhere else. -/
theorem values_eq_tagsAhead (w : Walk) : w.values = w.tagsAhead := by
  fun_induction values w with
  | case1 w ended => exact (tagsAhead_of_next?_none ended).symm
  | case2 w tag after found _ ih => rw [ih, tagsAhead_of_next? found]

end Walk

end Logicless
