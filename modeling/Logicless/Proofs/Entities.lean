import Logicless.Proofs.Escaping
import Mathlib.Data.List.Infix

/-!
# Entities read back

`decode` reads the five entities from left to right. It gives back what was escaped
(`decode_escapeChars`), so that nothing is lost by escaping (`TextSupport.html_faithful`).
-/

namespace Logicless

namespace Text

def entities : List (List Char) :=
  ["&amp;".toList, "&lt;".toList, "&gt;".toList, "&quot;".toList, "&#39;".toList]

/-- The characters that text with its entities stands for. An `&` that starts none of the five
stands for itself. -/
def decode : List Char → List Char
  | '&' :: 'a' :: 'm' :: 'p' :: ';' :: rest => '&' :: decode rest
  | '&' :: 'l' :: 't' :: ';' :: rest => '<' :: decode rest
  | '&' :: 'g' :: 't' :: ';' :: rest => '>' :: decode rest
  | '&' :: 'q' :: 'u' :: 'o' :: 't' :: ';' :: rest => '"' :: decode rest
  | '&' :: '#' :: '3' :: '9' :: ';' :: rest => '\'' :: decode rest
  | c :: rest => c :: decode rest
  | [] => []

def unescape (s : String) : String :=
  String.ofList (decode s.toList)

/-! ### One character -/

theorem decode_cons {c : Char} (plain : c ≠ '&') (rest : List Char) :
    decode (c :: rest) = c :: decode rest := by
  rw [decode] <;> exact fun _ ampersand => absurd ampersand plain

/-- The entity of a character is read back as the character, whatever follows. -/
theorem decode_escapeChar (c : Char) (rest : List Char) :
    decode (escapeChar c ++ rest) = c :: decode rest := by
  unfold escapeChar entity?
  split
  case h_6 ampersand _ _ _ _ => exact decode_cons ampersand rest
  all_goals rfl

/-- A character that is written as an entity starts it with the only `&` in it. -/
theorem escapeChar_cases (c : Char) :
    escapeChar c = [c] ∧ c ≠ '&' ∨
      ∃ body, escapeChar c = '&' :: body ∧ escapeChar c ∈ entities ∧ ∀ d ∈ body, d ≠ '&' := by
  unfold escapeChar entity?
  split
  case h_6 ampersand _ _ _ _ => exact .inl ⟨rfl, ampersand⟩
  all_goals simp [entities]

/-! ### Texts -/

theorem decode_escapeChars (cs : List Char) : decode (escapeChars cs) = cs := by
  induction cs with
  | nil => rfl
  | cons c cs ih => rw [escapeChars, List.flatMap_cons, decode_escapeChar, ← escapeChars, ih]

theorem unescape_escape (s : String) : unescape (escape s) = s := by
  rw [unescape, escape_eq, String.toList_ofList, decode_escapeChars, String.ofList_toList]

/-- A part of a text that starts with `&` does not start within characters other than `&`. -/
theorem suffix_of_suffix_append {body cs rest : List Char} (plain : ∀ d ∈ body, d ≠ '&')
    (h : '&' :: rest <:+ body ++ cs) : '&' :: rest <:+ cs := by
  induction body with
  | nil => exact h
  | cons d body ih =>
    obtain ⟨here, later⟩ := List.forall_mem_cons.mp plain
    obtain same | h := List.suffix_cons_iff.mp h
    · exact absurd (List.cons.inj same).1.symm here
    · exact ih later h

/-- Every `&` starts an entity. -/
theorem starts_entity {cs rest : List Char} (h : '&' :: rest <:+ escapeChars cs) :
    ∃ entity ∈ entities, entity <+: '&' :: rest := by
  induction cs with
  | nil => simp [escapeChars] at h
  | cons c cs ih =>
    rw [escapeChars, List.flatMap_cons, ← escapeChars] at h
    obtain ⟨same, plain⟩ | ⟨body, same, listed, plain⟩ := escapeChar_cases c
    · rw [same] at h
      exact ih (suffix_of_suffix_append (List.forall_mem_singleton.mpr plain) h)
    · rw [same, List.cons_append] at h
      obtain starts | h := List.suffix_cons_iff.mp h
      · exact ⟨escapeChar c, listed, by rw [starts, same, ← List.cons_append]; simp⟩
      · exact ih (suffix_of_suffix_append plain h)

theorem escape_injective : Function.Injective escape :=
  Function.LeftInverse.injective unescape_escape

end Text

open Text in
/-- Escaping for HTML is total. It leaves no markup and no `&` that does not start one of the five
entities, decoding undoes it, and a text may be escaped in parts: whatever is copied as it is, the
result is that of escaping each character. -/
theorem TextSupport.html_faithful :
    ∃ escaped : String → String,
      (∀ s, TextSupport.html s = .ok (escaped s)) ∧
      (∀ s, Unmarked (escaped s)) ∧
      (∀ s rest, '&' :: rest <:+ (escaped s).toList →
        ∃ entity ∈ entities, entity <+: '&' :: rest) ∧
      (∀ s, unescape (escaped s) = s) ∧
      Function.Injective escaped ∧
      (∀ a b, escaped (a ++ b) = escaped a ++ escaped b) ∧
      ∀ s, (escaped s).toList = s.toList.flatMap escapeChar := by
  refine ⟨escape, fun _ => rfl, unmarked_escape, fun s rest starts => ?_, unescape_escape,
    escape_injective, escape_append, fun s => ?_⟩
  · rw [escape_eq, String.toList_ofList] at starts
    exact starts_entity starts
  · rw [escape_eq, String.toList_ofList, escapeChars]

end Logicless
