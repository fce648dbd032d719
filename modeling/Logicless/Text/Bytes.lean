/-!
# Byte offsets

Offsets into a text count the bytes of its UTF-8 form.
-/

namespace Logicless.Text

def byteLength : List Char → Nat
  | [] => 0
  | c :: cs => c.utf8Size + byteLength cs

/-- Without the characters that start before the offset. -/
def dropBytes : Nat → List Char → List Char
  | 0, cs => cs
  | _ + 1, [] => []
  | n + 1, c :: cs => dropBytes (n + 1 - c.utf8Size) cs

/-- The characters that start before the offset. -/
def takeBytes : Nat → List Char → List Char
  | 0, _ => []
  | _ + 1, [] => []
  | n + 1, c :: cs => c :: takeBytes (n + 1 - c.utf8Size) cs

/-- The characters from offset `start` up to offset `stop`. -/
def slice (cs : List Char) (start stop : Nat) : List Char :=
  takeBytes (stop - start) (dropBytes start cs)

theorem byteLength_append (as bs : List Char) :
    byteLength (as ++ bs) = byteLength as + byteLength bs := by
  induction as with
  | nil => simp [byteLength]
  | cons c as ih => rw [List.cons_append, byteLength, byteLength, ih, Nat.add_assoc]

theorem dropBytes_append (as bs : List Char) : dropBytes (byteLength as) (as ++ bs) = bs := by
  induction as with
  | nil => simp [byteLength, dropBytes]
  | cons c as ih =>
    have pos := c.utf8Size_pos
    have split : byteLength (c :: as) = (c.utf8Size + byteLength as - 1) + 1 := by
      simp only [byteLength]; omega
    have rest : c.utf8Size + byteLength as - 1 + 1 - c.utf8Size = byteLength as := by omega
    rw [split, List.cons_append, dropBytes, rest, ih]

theorem takeBytes_append (as bs : List Char) : takeBytes (byteLength as) (as ++ bs) = as := by
  induction as with
  | nil => simp [byteLength, takeBytes]
  | cons c as ih =>
    have pos := c.utf8Size_pos
    have split : byteLength (c :: as) = (c.utf8Size + byteLength as - 1) + 1 := by
      simp only [byteLength]; omega
    have rest : c.utf8Size + byteLength as - 1 + 1 - c.utf8Size = byteLength as := by omega
    rw [split, List.cons_append, takeBytes, rest, ih]

/-- A part of a text is the slice between the offsets of its ends. -/
theorem slice_append (as bs cs : List Char) :
    slice (as ++ bs ++ cs) (byteLength as) (byteLength (as ++ bs)) = bs := by
  rw [slice, byteLength_append, Nat.add_sub_cancel_left, List.append_assoc, dropBytes_append,
    takeBytes_append]

/-- The text has `part` from offset `start` to offset `stop`. -/
def Between (cs : List Char) (start stop : Nat) (part : List Char) : Prop :=
  ∃ before after, cs = before ++ part ++ after ∧ start = byteLength before ∧
    stop = byteLength (before ++ part)

theorem Between.slice_eq {cs part : List Char} {start stop : Nat} (h : Between cs start stop part) :
    slice cs start stop = part := by
  obtain ⟨before, after, rfl, rfl, rfl⟩ := h
  exact slice_append before part after

/-- A part of a part stands in the whole. -/
theorem Between.within {cs part inner : List Char} {start stop start' stop' : Nat}
    (h : Between cs start stop part) (h' : Between part start' stop' inner) :
    Between cs (start + start') (start + stop') inner := by
  obtain ⟨before, after, rfl, rfl, _⟩ := h
  obtain ⟨before', after', rfl, rfl, rfl⟩ := h'
  refine ⟨before ++ before', after' ++ after, ?_, ?_, ?_⟩ <;>
    simp only [List.append_assoc, byteLength_append]

end Logicless.Text
