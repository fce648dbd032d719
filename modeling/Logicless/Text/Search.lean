/-!
# First occurrence

A text cut at the first occurrence of a needle. `eq_of_splitAt?` says that nothing is lost,
`splitAt?_append` that the occurrence is found, and `splitAt?_eq_none_iff` when there is none.
-/

namespace Logicless.Text

/-- What stands before and after the first occurrence of `needle`. -/
def splitAt? (needle : List Char) : List Char → Option (List Char × List Char)
  | [] => if needle.isEmpty then some ([], []) else none
  | c :: cs =>
    if needle.isPrefixOf (c :: cs) then some ([], (c :: cs).drop needle.length)
    else (splitAt? needle cs).map fun found => (c :: found.1, found.2)

theorem eq_of_splitAt? {needle cs before after : List Char}
    (h : splitAt? needle cs = some (before, after)) : cs = before ++ needle ++ after := by
  induction cs generalizing before with
  | nil => cases needle <;> simp_all [splitAt?]
  | cons c cs ih =>
    unfold splitAt? at h
    split at h
    · next found =>
      obtain ⟨rest, same⟩ := List.isPrefixOf_iff_prefix.mp found
      simp only [Option.some.injEq, Prod.mk.injEq] at h
      obtain ⟨rfl, rfl⟩ := h
      simp [← same]
    · obtain ⟨⟨a, b⟩, found, same⟩ := Option.map_eq_some_iff.mp h
      simp only [Prod.mk.injEq] at same
      obtain ⟨rfl, rfl⟩ := same
      simpa using ih found

theorem length_lt_of_splitAt? {needle cs before after : List Char} (ne : needle ≠ [])
    (h : splitAt? needle cs = some (before, after)) : after.length < cs.length := by
  have := List.length_pos_iff.mpr ne
  rw [eq_of_splitAt? h]
  simp only [List.length_append]
  omega

theorem not_infix_of_splitAt? {needle cs before after : List Char} (ne : needle ≠ [])
    (h : splitAt? needle cs = some (before, after)) : ¬ needle <:+: before := by
  induction cs generalizing before with
  | nil =>
    have empty : needle.isEmpty = false := by simpa using ne
    simp [splitAt?, empty] at h
  | cons c cs ih =>
    unfold splitAt? at h
    split at h
    · cases h
      simpa [List.infix_nil] using ne
    · next missed =>
      obtain ⟨⟨a, b⟩, found, same⟩ := Option.map_eq_some_iff.mp h
      cases same
      intro inside
      rcases List.infix_cons_iff.mp inside with first | later
      · apply missed
        rw [List.isPrefixOf_iff_prefix, eq_of_splitAt? found]
        obtain ⟨rest, same⟩ := first
        exact ⟨rest ++ needle ++ b, by rw [← List.cons_append, ← List.cons_append, ← same]; simp⟩
      · exact ih found later

theorem splitAt?_eq_none_iff {needle cs : List Char} (ne : needle ≠ []) :
    splitAt? needle cs = none ↔ ¬ needle <:+: cs := by
  induction cs with
  | nil => simp [splitAt?, ne]
  | cons c cs ih =>
    rw [splitAt?, List.infix_cons_iff, ← List.isPrefixOf_iff_prefix]
    split
    · next found => simp [found]
    · next missed => simp [missed, ih]

/-- A needle is found where it stands first. -/
theorem splitAt?_append {needle before after : List Char} (ne : needle ≠ [])
    (first : ∀ rest, rest ≠ [] → rest <:+ before → ¬ needle <+: rest ++ (needle ++ after)) :
    splitAt? needle (before ++ (needle ++ after)) = some (before, after) := by
  induction before with
  | nil =>
    obtain ⟨c, cs, rfl⟩ := List.exists_cons_of_ne_nil ne
    simp [splitAt?]
  | cons c cs ih =>
    have missed := first (c :: cs) (by simp) (List.suffix_refl _)
    rw [← List.isPrefixOf_iff_prefix, List.cons_append] at missed
    have found := ih fun rest nonempty suffix => first rest nonempty (suffix.trans (List.suffix_cons c cs))
    rw [List.cons_append, splitAt?, if_neg missed, found]
    rfl

/-- The needle does not start earlier, not even where it would end later. -/
theorem first_of_splitAt? {needle cs before after : List Char} (ne : needle ≠ [])
    (h : splitAt? needle cs = some (before, after)) :
    ∀ rest, rest ≠ [] → rest <:+ before → ¬ needle <+: rest ++ (needle ++ after) := by
  induction cs generalizing before with
  | nil =>
    have empty : needle.isEmpty = false := by simpa using ne
    simp [splitAt?, empty] at h
  | cons c cs ih =>
    unfold splitAt? at h
    split at h
    · cases h
      exact fun rest nonempty suffix => absurd (List.suffix_nil.mp suffix) nonempty
    · next missed =>
      obtain ⟨⟨a, b⟩, found, same⟩ := Option.map_eq_some_iff.mp h
      cases same
      intro rest nonempty suffix
      rcases List.suffix_cons_iff.mp suffix with rfl | suffix
      · rwa [List.cons_append, ← List.append_assoc, ← eq_of_splitAt? found,
          ← List.isPrefixOf_iff_prefix]
      · exact ih found rest nonempty suffix

/-- The first occurrence is the first one whatever comes after it. -/
theorem splitAt?_retail {needle cs before after : List Char} (ne : needle ≠ [])
    (h : splitAt? needle cs = some (before, after)) (after' : List Char) :
    splitAt? needle (before ++ (needle ++ after')) = some (before, after') := by
  refine splitAt?_append ne fun rest nonempty suffix occurs => ?_
  refine first_of_splitAt? ne h rest nonempty suffix ?_
  rw [← List.append_assoc] at occurs ⊢
  exact (List.prefix_of_prefix_length_le occurs (List.prefix_append _ _) (by simp)).trans
    (List.prefix_append _ _)

/-- A needle that shares no character with a part of the text before it stays the first one if another
such part is put there instead. -/
theorem splitAt?_replace {needle cs left old new right after : List Char} (ne : needle ≠ [])
    (given : new ≠ []) (free : ∀ c ∈ new, c ∉ needle)
    (h : splitAt? needle cs = some (left ++ (old ++ right), after)) (tail : List Char) :
    splitAt? needle (left ++ (new ++ right) ++ (needle ++ tail)) =
      some (left ++ (new ++ right), tail) := by
  have first := first_of_splitAt? ne (splitAt?_retail ne h tail)
  have apart {part rest : List Char} (within : ∀ c ∈ part, c ∈ needle) (found : part <+: new ++ rest) :
      part = [] := by
    obtain ⟨n, ns, rfl⟩ := List.exists_cons_of_ne_nil given
    cases part with
    | nil => rfl
    | cons c cs =>
      obtain ⟨rfl, _⟩ := List.cons_prefix_cons.mp found
      exact absurd (within c List.mem_cons_self) (free c List.mem_cons_self)
  refine splitAt?_append ne fun rest nonempty suffix occurs => ?_
  -- Where a needle would start: in `left`, in `new` or in `right`.
  obtain ⟨before, same⟩ := suffix
  rcases List.append_eq_append_iff.mp same with ⟨x, rfl, rfl⟩ | ⟨y, _, same⟩
  · have found : needle <+: x := by
      rw [List.append_assoc x, List.append_assoc new] at occurs
      rcases List.prefix_or_prefix_of_prefix occurs (List.prefix_append x _) with found | ⟨more, rfl⟩
      · exact found
      · have empty := apart (fun c member => List.mem_append_right x member)
          ((List.prefix_append_right_inj x).mp occurs)
        exact ⟨[], by simp [empty]⟩
    refine first (x ++ (old ++ right)) ?_ ⟨before, by simp⟩ ?_
    · rintro empty
      rw [(List.append_eq_nil_iff.mp empty).1] at found
      exact ne (List.prefix_nil.mp found)
    · rw [List.append_assoc]
      exact found.trans (List.prefix_append x _)
  · rcases List.append_eq_append_iff.mp same with ⟨x, _, rfl⟩ | ⟨x, rfl, rfl⟩
    · exact first rest nonempty ⟨left ++ (old ++ x), by simp⟩ occurs
    · cases x with
      | nil => exact first right nonempty ⟨left ++ old, by simp⟩ occurs
      | cons c cs =>
        obtain ⟨n, ns, rfl⟩ := List.exists_cons_of_ne_nil ne
        obtain ⟨rfl, _⟩ := List.cons_prefix_cons.mp occurs
        exact free n (by simp) List.mem_cons_self

theorem splitAt?_self {needle : List Char} (ne : needle ≠ []) (after : List Char) :
    splitAt? needle (needle ++ after) = some ([], after) := by
  rw [← List.nil_append (needle ++ after)]
  exact splitAt?_append ne fun rest nonempty suffix => absurd (List.suffix_nil.mp suffix) nonempty

/-- Where the needle starts with a character that is not before it, it is found. -/
theorem splitAt?_of_not_mem {c : Char} {before : List Char} (absent : c ∉ before)
    (needle after : List Char) :
    splitAt? (c :: needle) (before ++ (c :: needle ++ after)) = some (before, after) := by
  refine splitAt?_append (by simp) fun rest nonempty suffix found => ?_
  obtain ⟨b, bs, rfl⟩ := List.exists_cons_of_ne_nil nonempty
  obtain ⟨rfl, _⟩ := List.cons_prefix_cons.mp found
  exact absent (suffix.subset List.mem_cons_self)

end Logicless.Text
