/-!
# Blank characters

Trimming and cutting text at the characters with the Unicode property `White_Space`.
-/

namespace Logicless.Text

/-- The 25 characters with the Unicode property `White_Space`. -/
def isBlank (c : Char) : Bool :=
  let n := c.toNat
  (9 ≤ n && n ≤ 13) || n == 0x20 || n == 0x85 || n == 0xA0 || n == 0x1680 ||
    (0x2000 ≤ n && n ≤ 0x200A) || n == 0x2028 || n == 0x2029 || n == 0x202F || n == 0x205F ||
    n == 0x3000

/-- Without the blanks at both ends. -/
def trim (cs : List Char) : List Char :=
  ((cs.dropWhile isBlank).reverse.dropWhile isBlank).reverse

/-- There is no blank at either end. -/
def Trimmed (cs : List Char) : Prop :=
  (∀ c ∈ cs.head?, isBlank c = false) ∧ ∀ c ∈ cs.getLast?, isBlank c = false

instance (cs : List Char) : Decidable (Trimmed cs) :=
  @instDecidableAnd _ _ (Option.decidableForallMem _) (Option.decidableForallMem _)

/-- The maximal runs of characters that are not blank. -/
def words (cs : List Char) : List (List Char) :=
  (cs.splitOnP isBlank).filter fun w => !w.isEmpty

theorem dropWhile_isBlank_of_head {cs : List Char} (head : ∀ c ∈ cs.head?, isBlank c = false) :
    cs.dropWhile isBlank = cs := by
  cases cs with
  | nil => rfl
  | cons c cs => exact List.dropWhile_cons_of_neg (by simpa using head)

theorem trim_of_trimmed {cs : List Char} (h : Trimmed cs) : trim cs = cs := by
  have last : ∀ c ∈ cs.reverse.head?, isBlank c = false := by
    rw [List.head?_reverse]
    exact h.2
  rw [trim, dropWhile_isBlank_of_head h.1, dropWhile_isBlank_of_head last, List.reverse_reverse]

/-- Blanks around a text are trimmed. -/
theorem trim_pad {left cs right : List Char} (before : ∀ c ∈ left, isBlank c = true)
    (after : ∀ c ∈ right, isBlank c = true) (h : Trimmed cs) (ne : cs ≠ []) :
    trim (left ++ (cs ++ right)) = cs := by
  have first : ∀ c ∈ (cs ++ right).head?, isBlank c = false := by
    rw [List.head?_append, List.head?_eq_some_head ne]
    simpa [List.head?_eq_some_head ne] using h.1
  have last : ∀ c ∈ cs.reverse.head?, isBlank c = false := by
    rw [List.head?_reverse]
    exact h.2
  rw [trim, List.dropWhile_append_of_pos before, dropWhile_isBlank_of_head first, List.reverse_append,
    List.dropWhile_append_of_pos fun c member => after c (List.mem_reverse.mp member),
    dropWhile_isBlank_of_head last, List.reverse_reverse]

theorem Trimmed.cons {c : Char} {cs : List Char} (h : Trimmed cs) (visible : isBlank c = false) :
    Trimmed (c :: cs) := by
  refine ⟨by simpa using visible, fun b last => ?_⟩
  cases cs with
  | nil => simp_all
  | cons _ _ =>
    rw [List.getLast?_cons_cons] at last
    exact h.2 b last

theorem ne_nil_of_mem_words {cs w : List Char} (h : w ∈ words cs) : w ≠ [] := by
  simpa using (List.mem_filter.mp h).2

end Logicless.Text
