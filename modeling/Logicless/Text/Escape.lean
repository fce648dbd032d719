/-!
# Escaping for HTML

The five characters that HTML gives a meaning are written as entities.
-/

namespace Logicless.Text

/-- The entity of a character that HTML gives a meaning. -/
def entity? : Char → Option (List Char)
  | '&' => some "&amp;".toList
  | '<' => some "&lt;".toList
  | '>' => some "&gt;".toList
  | '"' => some "&quot;".toList
  | '\'' => some "&#39;".toList
  | _ => none

def escapeChar (c : Char) : List Char :=
  (entity? c).getD [c]

def escapeChars (cs : List Char) : List Char :=
  cs.flatMap escapeChar

/-- The text as it stands in an HTML document. What stands before the first of the five characters
is copied as it is, and a text without any of them is left alone. -/
def escape (s : String) : String :=
  match s.toList.findIdx? fun c => (entity? c).isSome with
  | none => s
  | some first => String.ofList (s.toList.take first ++ escapeChars (s.toList.drop first))

theorem escapeChars_append (as bs : List Char) :
    escapeChars (as ++ bs) = escapeChars as ++ escapeChars bs :=
  List.flatMap_append

theorem escapeChar_of_plain {c : Char} (plain : entity? c = none) : escapeChar c = [c] := by
  rw [escapeChar, plain, Option.getD_none]

theorem escapeChars_of_plain {cs : List Char} (plain : ∀ c ∈ cs, entity? c = none) :
    escapeChars cs = cs := by
  induction cs with
  | nil => rfl
  | cons c cs ih =>
    obtain ⟨here, rest⟩ := List.forall_mem_cons.mp plain
    rw [escapeChars, List.flatMap_cons, escapeChar_of_plain here, ← escapeChars, ih rest,
      List.singleton_append]

theorem escape_eq (s : String) : escape s = String.ofList (escapeChars s.toList) := by
  unfold escape
  split
  case h_1 unfound =>
    rw [List.findIdx?_eq_none_iff] at unfound
    rw [escapeChars_of_plain fun c member => by simpa using unfound c member, String.ofList_toList]
  case h_2 first found =>
    obtain ⟨within, _, before⟩ := List.findIdx?_eq_some_iff_getElem.mp found
    have plain : ∀ c ∈ s.toList.take first, entity? c = none := by
      intro c member
      obtain ⟨i, bound, rfl⟩ := List.mem_iff_getElem.mp member
      rw [List.getElem_take]
      simpa using before i (by simp at bound; omega)
    rw [← List.take_append_drop first s.toList, escapeChars_append, escapeChars_of_plain plain,
      List.take_append_drop]

theorem escape_append (s t : String) : escape (s ++ t) = escape s ++ escape t := by
  simp [escape_eq, escapeChars_append]

end Logicless.Text
