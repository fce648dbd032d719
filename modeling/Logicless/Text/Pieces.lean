/-!
# Pieces of a list

A list cut after each element that ends a piece: a text into its lines, the tokens of a template
into the tokens of each line.
-/

namespace Logicless

/-- The pieces of a list: each but the last ends with its first element satisfying `ends`. -/
def splitAfter (ends : α → Bool) : List α → List (List α)
  | [] => []
  | a :: as =>
    if ends a then [a] :: splitAfter ends as
    else match splitAfter ends as with
      | [] => [[a]]
      | piece :: pieces => (a :: piece) :: pieces

theorem flatten_splitAfter (ends : α → Bool) (as : List α) : (splitAfter ends as).flatten = as := by
  induction as with
  | nil => rfl
  | cons a as ih =>
    unfold splitAfter
    split
    · simp [ih]
    · split
      · next h => simp_all
      · next h => simp_all

theorem ne_nil_of_mem_splitAfter {ends : α → Bool} {as piece : List α}
    (h : piece ∈ splitAfter ends as) : piece ≠ [] := by
  induction as generalizing piece with
  | nil => simp [splitAfter] at h
  | cons a as ih =>
    unfold splitAfter at h
    split at h
    · rcases List.mem_cons.mp h with rfl | h
      · simp
      · exact ih h
    · split at h
      · simp_all
      · next heq =>
        rcases List.mem_cons.mp h with rfl | h
        · simp
        · exact ih (by rw [heq]; exact List.mem_cons_of_mem _ h)

theorem splitAfter_map (ends : β → Bool) (f : α → β) (as : List α) :
    splitAfter ends (as.map f) = (splitAfter (fun a => ends (f a)) as).map (List.map f) := by
  induction as with
  | nil => rfl
  | cons a as ih =>
    rw [List.map_cons, splitAfter, splitAfter, ih]
    split
    · rfl
    · cases splitAfter (fun a => ends (f a)) as <;> rfl

theorem splitAfter_congr {p q : α → Bool} {as : List α} (same : ∀ a ∈ as, p a = q a) :
    splitAfter p as = splitAfter q as := by
  induction as with
  | nil => rfl
  | cons a as ih =>
    rw [splitAfter, splitAfter, same a List.mem_cons_self,
      ih fun b member => same b (List.mem_cons_of_mem a member)]

/-- Only the last element of a piece can end it. -/
theorem not_ends_of_mem_splitAfter {ends : α → Bool} {as piece : List α}
    (h : piece ∈ splitAfter ends as) : ∀ a ∈ piece.dropLast, ends a = false := by
  induction as generalizing piece with
  | nil => simp [splitAfter] at h
  | cons a as ih =>
    unfold splitAfter at h
    split at h
    · rcases List.mem_cons.mp h with rfl | h
      · simp
      · exact ih h
    · next missed =>
      split at h
      · obtain rfl := List.mem_singleton.mp h
        simp
      · next first rest same =>
        rcases List.mem_cons.mp h with rfl | h
        · have member : first ∈ splitAfter ends as := by simp [same]
          have earlier := ih member
          have nonempty : first ≠ [] := ne_nil_of_mem_splitAfter member
          rw [List.dropLast_cons_of_ne_nil nonempty]
          simpa [missed] using earlier
        · exact ih (by simp [same, h])

/-- A piece that another one follows has come to its end. -/
theorem ends_of_splitAfter {ends : α → Bool} {as : List α} {before after : List (List α)}
    {piece : List α} (h : splitAfter ends as = before ++ piece :: after) (more : after ≠ []) :
    ∃ init a, piece = init ++ [a] ∧ ends a = true := by
  induction as generalizing before piece with
  | nil => simp [splitAfter] at h
  | cons a as ih =>
    unfold splitAfter at h
    split at h
    · next found =>
      cases before with
      | nil =>
        cases h
        exact ⟨[], a, rfl, found⟩
      | cons first before =>
        rw [List.cons_append] at h
        exact ih (List.cons.inj h).2
    · split at h
      · cases before with
        | nil =>
          cases h
          exact absurd rfl more
        | cons first before => simp at h
      · next first rest same =>
        cases before with
        | nil =>
          cases h
          obtain ⟨init, b, rfl, found⟩ := ih (same.trans (List.nil_append _).symm)
          exact ⟨a :: init, b, rfl, found⟩
        | cons _ before =>
          rw [List.cons_append] at h
          have split : first :: rest = (first :: before) ++ piece :: after := by
            rw [(List.cons.inj h).2, List.cons_append]
          exact ih (same.trans split)

/-- A piece ends where its first element that ends it is. -/
theorem splitAfter_ended {ends : α → Bool} {init : List α} {a : α} (none : ∀ b ∈ init, ends b = false)
    (found : ends a = true) (as : List α) :
    splitAfter ends (init ++ a :: as) = (init ++ [a]) :: splitAfter ends as := by
  induction init with
  | nil => rw [List.nil_append, splitAfter, if_pos found, List.nil_append]
  | cons b init ih =>
    have goes := none b List.mem_cons_self
    have rest := ih fun x member => none x (List.mem_cons_of_mem b member)
    rw [List.cons_append, splitAfter, goes, rest]
    rfl

/-- Elements that end no piece belong to the first piece. -/
theorem splitAfter_run {ends : α → Bool} {run : List α} (none : ∀ b ∈ run, ends b = false)
    (nonempty : run ≠ []) (as : List α) :
    splitAfter ends (run ++ as) = match splitAfter ends as with
      | [] => [run]
      | piece :: pieces => (run ++ piece) :: pieces := by
  induction run with
  | nil => exact absurd rfl nonempty
  | cons b run ih =>
    have goes := none b List.mem_cons_self
    rw [List.cons_append, splitAfter, goes]
    by_cases single : run = []
    · subst single
      rfl
    · rw [ih (fun x member => none x (List.mem_cons_of_mem b member)) single]
      cases splitAfter ends as <;> rfl

/-- A list is cut into the same pieces as what its elements stand for, if only the last part of an
element can end a piece, and does so just when the element does. -/
theorem splitAfter_flatMap {ends : α → Bool} {ends' : β → Bool} {f : α → List β} {as : List α}
    (parts : ∀ a ∈ as, ∃ init b, f a = init ++ [b] ∧ (∀ x ∈ init, ends' x = false) ∧
      ends' b = ends a) :
    splitAfter ends' (as.flatMap f) = (splitAfter ends as).map (List.flatMap f) := by
  induction as with
  | nil => rfl
  | cons a as ih =>
    have rest := ih fun x member => parts x (List.mem_cons_of_mem a member)
    obtain ⟨init, b, own, none, same⟩ := parts a List.mem_cons_self
    rw [List.flatMap_cons, splitAfter]
    cases found : ends a with
    | true =>
      rw [found] at same
      rw [own, List.append_assoc, List.singleton_append, splitAfter_ended none same, rest, if_pos rfl,
        List.map_cons, List.flatMap_singleton, own]
    | false =>
      rw [found] at same
      have run : ∀ x ∈ f a, ends' x = false := by
        rw [own]
        exact List.forall_mem_append.mpr ⟨none, List.forall_mem_singleton.mpr same⟩
      rw [splitAfter_run run (by simp [own]), rest, if_neg Bool.false_ne_true]
      cases splitAfter ends as <;> simp

/-- The elements taken up to a stop are those before it. -/
theorem mem_of_mem_takeWhile {p : α → Bool} {xs ys : List α}
    (stop : (∃ a ∈ xs, p a = false) ∨ ∀ a ∈ ys.head?, p a = false) {a : α}
    (taken : a ∈ (xs ++ ys).takeWhile p) : a ∈ xs := by
  induction xs with
  | nil =>
    cases ys with
    | nil => cases taken
    | cons y ys =>
      rcases stop with ⟨_, member, _⟩ | stop
      · cases member
      · rw [List.nil_append, List.takeWhile_cons, stop y rfl] at taken
        cases taken
  | cons x xs ih =>
    rw [List.cons_append, List.takeWhile_cons] at taken
    split at taken
    · next goes =>
      rcases List.mem_cons.mp taken with rfl | taken
      · exact List.mem_cons_self
      · refine List.mem_cons_of_mem _ (ih ?_ taken)
        rcases stop with ⟨b, member, stops⟩ | stop
        · rcases List.mem_cons.mp member with rfl | member
          · rw [goes] at stops
            cases stops
          · exact .inl ⟨b, member, stops⟩
        · exact .inr stop
    · cases taken

end Logicless
