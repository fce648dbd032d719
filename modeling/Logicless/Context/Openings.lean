/-!
# Open templates

How often each template is open in a render. A name stands in the table while it is open, and
entering a template and leaving it again gives back the same table (`Openings.leave_enter`).
-/

namespace Logicless

/-- The list without the element at `i`. The last element takes its place. -/
def swapRemove (l : List α) (i : Nat) : List α :=
  match l.getLast? with
  | none => []
  | some last => (l.set i last).dropLast

theorem swapRemove_append (as bs : List α) (a : α) :
    ∃ bs', swapRemove (as ++ a :: bs) as.length = as ++ bs' ∧ bs'.Perm bs := by
  rcases List.eq_nil_or_concat bs with rfl | ⟨bs, last, rfl⟩
  · refine ⟨[], ?_, .refl _⟩
    simp [swapRemove]
  · have joined : as ++ a :: bs.concat last = (as ++ a :: bs) ++ [last] := by simp
    have moved : ((as ++ a :: bs) ++ [last]).set as.length last = (as ++ last :: bs) ++ [last] := by
      simp
    refine ⟨last :: bs, ?_, ?_⟩
    · rw [joined, swapRemove, List.getLast?_concat]
      simp only [moved, List.dropLast_concat]
    · rw [List.concat_eq_append]
      exact (List.perm_append_singleton last bs).symm

theorem modify_append_cons (as bs : List α) (a : α) (f : α → α) :
    (as ++ a :: bs).modify as.length f = as ++ f a :: bs := by
  induction as with
  | nil => rfl
  | cons b as ih => rw [List.cons_append, List.length_cons, List.modify_succ_cons, ih, List.cons_append]

namespace Openings

variable {entries as bs : List (String × Nat)} {name : String} {k : Nat}

/-- One more opening of `name`. A new name comes in at the end. -/
def raise (name : String) : List (String × Nat) → List (String × Nat)
  | [] => [(name, 1)]
  | (other, k) :: rest =>
    if other = name then (other, k + 1) :: rest else (other, k) :: raise name rest

/-- One opening of `name` less. The name goes with the last of them. -/
def lower (name : String) (entries : List (String × Nat)) : List (String × Nat) :=
  match entries.findIdx? (·.1 = name) with
  | none => entries
  | some i =>
    let lowered := entries.modify i fun entry => (entry.1, entry.2 - 1)
    if lowered[i]?.any (·.2 = 0) then swapRemove lowered i else lowered

/-- Each name stands once, and it is open. -/
structure Sound (entries : List (String × Nat)) : Prop where
  once : (entries.map Prod.fst).Nodup
  positive : ∀ entry ∈ entries, 0 < entry.2

theorem split_of_mem (known : name ∈ entries.map Prod.fst) :
    ∃ as k bs, entries = as ++ (name, k) :: bs ∧ name ∉ as.map Prod.fst := by
  obtain ⟨left, right, same, absent⟩ := List.eq_append_cons_of_mem known
  obtain ⟨as, rest, rfl, rfl, tail⟩ := List.map_eq_append_iff.mp same
  obtain ⟨⟨_, k⟩, bs, rfl, rfl, _⟩ := List.map_eq_cons_iff.mp tail
  exact ⟨as, k, bs, rfl, absent⟩

theorem raise_of_absent (absent : name ∉ entries.map Prod.fst) :
    raise name entries = entries ++ [(name, 1)] := by
  induction entries with
  | nil => rfl
  | cons entry rest ih =>
    rw [List.map_cons, List.mem_cons, not_or] at absent
    rw [raise, if_neg fun same => absent.1 same.symm, ih absent.2, List.cons_append]

theorem raise_of_split (first : name ∉ as.map Prod.fst) :
    raise name (as ++ (name, k) :: bs) = as ++ (name, k + 1) :: bs := by
  induction as with
  | nil => simp [raise]
  | cons entry rest ih =>
    rw [List.map_cons, List.mem_cons, not_or] at first
    rw [List.cons_append, raise, if_neg fun same => first.1 same.symm, ih first.2, List.cons_append]

theorem findIdx?_of_absent (absent : name ∉ entries.map Prod.fst) :
    entries.findIdx? (·.1 = name) = none := by
  rw [List.findIdx?_eq_none_iff]
  intro entry member
  exact decide_eq_false fun same => absent (same ▸ List.mem_map_of_mem member)

theorem lower_of_absent (absent : name ∉ entries.map Prod.fst) : lower name entries = entries := by
  rw [lower, findIdx?_of_absent absent]

theorem lower_of_split (first : name ∉ as.map Prod.fst) :
    lower name (as ++ (name, k) :: bs) =
      if k - 1 = 0 then swapRemove (as ++ (name, k - 1) :: bs) as.length
      else as ++ (name, k - 1) :: bs := by
  have found : (as ++ (name, k) :: bs).findIdx? (·.1 = name) = some as.length := by
    rw [List.findIdx?_append, findIdx?_of_absent first]
    simp [List.findIdx?_cons]
  simp only [lower, found, modify_append_cons]
  simp

namespace Sound

theorem recount (h : Sound (as ++ (name, k) :: bs)) {k' : Nat} (opened : 0 < k') :
    Sound (as ++ (name, k') :: bs) := by
  obtain ⟨once, positive⟩ := h
  refine ⟨by simpa using once, fun entry member => ?_⟩
  rcases List.mem_append.mp member with member | member
  · exact positive entry (List.mem_append_left _ member)
  · rcases List.mem_cons.mp member with rfl | member
    · exact opened
    · exact positive entry (List.mem_append_right _ (List.mem_cons_of_mem _ member))

theorem concat (h : Sound entries) (absent : name ∉ entries.map Prod.fst) :
    Sound (entries ++ [(name, 1)]) := by
  refine ⟨?_, fun entry member => ?_⟩
  · rw [List.map_append, List.map_singleton]
    refine List.nodup_append.mpr ⟨h.once, by simp, fun a member b last same => ?_⟩
    obtain rfl := List.mem_singleton.mp last
    exact absent (same ▸ member)
  · rcases List.mem_append.mp member with member | member
    · exact h.positive entry member
    · obtain rfl := List.mem_singleton.mp member
      exact Nat.one_pos

theorem swapRemove (h : Sound (as ++ (name, k) :: bs)) (k' : Nat) :
    Sound (swapRemove (as ++ (name, k') :: bs) as.length) := by
  obtain ⟨bs', removed, moved⟩ := swapRemove_append as bs (name, k')
  have others : (as ++ bs').Perm (as ++ bs) := moved.append_left as
  have fewer : (as ++ bs).Sublist (as ++ (name, k) :: bs) :=
    (List.sublist_cons_self _ _).append_left as
  rw [removed]
  refine ⟨?_, fun entry member => ?_⟩
  · exact (others.map Prod.fst).nodup_iff.mpr (h.once.sublist (fewer.map Prod.fst))
  · exact h.positive entry (fewer.subset (others.mem_iff.mp member))

theorem raise (h : Sound entries) (name : String) : Sound (raise name entries) := by
  by_cases known : name ∈ entries.map Prod.fst
  · obtain ⟨as, k, bs, rfl, first⟩ := split_of_mem known
    rw [raise_of_split first]
    exact h.recount (Nat.succ_pos k)
  · rw [raise_of_absent known]
    exact h.concat known

theorem lower (h : Sound entries) (name : String) : Sound (lower name entries) := by
  by_cases known : name ∈ entries.map Prod.fst
  · obtain ⟨as, k, bs, rfl, first⟩ := split_of_mem known
    rw [lower_of_split first]
    split
    · exact h.swapRemove (k - 1)
    · next more => exact h.recount (Nat.pos_of_ne_zero more)
  · rw [lower_of_absent known]
    exact h

end Sound

theorem lower_raise (h : Sound entries) (name : String) : lower name (raise name entries) = entries := by
  by_cases known : name ∈ entries.map Prod.fst
  · obtain ⟨as, k, bs, rfl, first⟩ := split_of_mem known
    have opened : k ≠ 0 := Nat.ne_of_gt (h.positive (name, k) (by simp))
    rw [raise_of_split first, lower_of_split first, Nat.add_sub_cancel, if_neg opened]
  · rw [raise_of_absent known, lower_of_split known, Nat.sub_self, if_pos rfl]
    simp [swapRemove]

end Openings

/-- How often each template is open. -/
structure Openings where
  entries : List (String × Nat)
  sound : Openings.Sound entries

namespace Openings

def empty : Openings := ⟨[], ⟨List.nodup_nil, fun _ member => by cases member⟩⟩

def enter (name : String) (t : Openings) : Openings := ⟨raise name t.entries, t.sound.raise name⟩

def leave (name : String) (t : Openings) : Openings := ⟨lower name t.entries, t.sound.lower name⟩

/-- How many templates of the name are open. -/
def count (name : String) (t : Openings) : Nat :=
  (t.entries.lookup name).getD 0

theorem leave_enter (name : String) (t : Openings) : (t.enter name).leave name = t := by
  obtain ⟨entries, sound⟩ := t
  simp only [enter, leave, lower_raise sound name]

theorem lookup_raise (name other : String) (entries : List (String × Nat)) :
    ((raise name entries).lookup other).getD 0 =
      (entries.lookup other).getD 0 + if other = name then 1 else 0 := by
  induction entries with
  | nil =>
    by_cases same : other = name
    · simp [raise, same]
    · simp [raise, same, List.lookup_cons, beq_false_of_ne same]
  | cons entry rest ih =>
    obtain ⟨n, k⟩ := entry
    by_cases here : n = name
    · subst here
      by_cases same : other = n
      · simp [raise, same]
      · simp [raise, same, List.lookup_cons, beq_false_of_ne same]
    · by_cases first : other = n
      · simp [raise, here, first]
      · simpa [raise, here, List.lookup_cons, beq_false_of_ne first] using ih

theorem count_enter (name other : String) (t : Openings) :
    (t.enter name).count other = t.count other + if other = name then 1 else 0 :=
  lookup_raise name other t.entries

end Openings

end Logicless
