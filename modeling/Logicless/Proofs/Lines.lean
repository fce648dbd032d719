import Logicless.Proofs.Tiling
import Logicless.Token.Line
import Mathlib.Data.List.Forall2

/-!
# Lines of a source

A line of a source ends at a newline outside of its tags. What is left of a source is left of its
lines, one by one: of a line with one tag that stands alone and blanks the tag, and of any other line
all of it (`Token.dropStandalone_lines`).
-/

namespace Logicless

/-- A character of a source at its byte offset, and the tag that it is inside of. -/
structure Spot where
  offset : Nat
  char : Char
  tag : Option Tag
deriving DecidableEq, Repr

namespace Spot

def breaks (s : Spot) : Bool :=
  s.char == '\n' && s.tag.isNone

def spread (tags : List Tag) (offset : Nat) : List Char → List Spot
  | [] => []
  | c :: cs =>
    ⟨offset, c, tags.find? fun t => t.start ≤ offset && offset < t.stop⟩ ::
      spread tags (offset + c.utf8Size) cs

/-- The lines of a source with `tags`, each with the newline that ends it. -/
def lines (source : List Char) (tags : List Tag) : List (List Spot) :=
  splitAfter breaks (spread tags 0 source)

def chars (line : List Spot) : List Char :=
  line.map (·.char)

def text (line : List Spot) : List Char :=
  chars (line.filter fun s => s.tag.isNone)

def tags (line : List Spot) : List Tag :=
  line.filterMap fun s => s.tag.filter fun t => t.start = s.offset

/-- One tag that writes no value, and blanks. -/
def Standalone (line : List Spot) : Prop :=
  (∃ t, tags line = [t] ∧ t.kind.isVariable = false) ∧ ∀ c ∈ text line, Text.isBlank c = true

end Spot

namespace Token

def literal : Token → List Char
  | .text s _ => s.toList
  | .tag _ => []

/-- The tokens are what a standalone line leaves, its tag, or all of another line. -/
structure Leaves (source : List Char) (line : List Spot) (left : List Token) : Prop where
  tags : left.filterMap tag? = Spot.tags line
  dropped : Spot.Standalone line → left.flatMap literal = [] ∧ ∀ token ∈ left, token.isTag = true
  verbatim : ¬ Spot.Standalone line →
    left.flatMap literal = Spot.text line ∧ lexemes source left = Spot.chars line

def spots (tag : Option Tag) (offset : Nat) : List Char → List Spot
  | [] => []
  | c :: cs => ⟨offset, c, tag⟩ :: spots tag (offset + c.utf8Size) cs

def placed (source : List Char) (offset : Nat) : List Token → List (Nat × Token)
  | [] => []
  | token :: rest =>
    (offset, token) :: placed source (offset + Text.byteLength (lexeme source token)) rest

def inked (source : List Char) (p : Nat × Token) : List Spot :=
  spots p.2.tag? p.1 (lexeme source p.2)

/-! ### Where characters stand -/

theorem spread_append (tags : List Tag) (offset : Nat) (xs ys : List Char) :
    Spot.spread tags offset (xs ++ ys) =
      Spot.spread tags offset xs ++ Spot.spread tags (offset + Text.byteLength xs) ys := by
  induction xs generalizing offset with
  | nil => rfl
  | cons c xs ih =>
    rw [List.cons_append, Spot.spread, ih, Spot.spread, List.cons_append, Text.byteLength,
      Nat.add_assoc]

/-- A part of a source that one tag covers, or none at all. -/
theorem spread_eq_spots {tags : List Tag} {tag : Option Tag} {offset : Nat} {cs : List Char}
    (within : ∀ n, offset ≤ n → n < offset + Text.byteLength cs →
      (tags.find? fun t => t.start ≤ n && n < t.stop) = tag) :
    Spot.spread tags offset cs = spots tag offset cs := by
  induction cs generalizing offset with
  | nil => rfl
  | cons c cs ih =>
    have size := c.utf8Size_pos
    have first := within offset (Nat.le_refl _) (by simp only [Text.byteLength]; omega)
    rw [Spot.spread, first, spots, ih]
    intro n from_ upTo
    refine within n (by omega) ?_
    simp only [Text.byteLength]
    omega

theorem lexemes_append (source : List Char) (xs ys : List Token) :
    lexemes source (xs ++ ys) = lexemes source xs ++ lexemes source ys :=
  List.flatMap_append

theorem byteLength_lexemes_concat (source : List Char) (tokens : List Token) (token : Token) :
    Text.byteLength (lexemes source (tokens ++ [token])) =
      Text.byteLength (lexemes source tokens) + Text.byteLength (lexeme source token) := by
  rw [lexemes_append, Text.byteLength_append]
  simp [lexemes]

section

variable {source : List Char} {tokens : List Token}

/-- A tag covers the part of the source from its first byte to its last. -/
theorem Covers.tag_bounds (h : Covers source tokens) (before : List Token) (t : Tag)
    (after : List Token) (split : tokens = before ++ .tag t :: after) :
    t.start = Text.byteLength (lexemes source before) ∧
      t.stop = t.start + Text.byteLength (lexeme source (.tag t)) := by
  obtain ⟨_, _, _, start, stop, _⟩ := h.stands before (.tag t) after split
  refine ⟨start, ?_⟩
  rw [stop, byteLength_lexemes_concat, start]

/-- Inside of a tag there is that tag, and outside of tags there is none. -/
theorem Covers.find?_tags (h : Covers source tokens) {before after : List Token} {token : Token}
    (split : tokens = before ++ token :: after) {n : Nat}
    (from_ : Text.byteLength (lexemes source before) ≤ n)
    (upTo : n < Text.byteLength (lexemes source before) + Text.byteLength (lexeme source token)) :
    ((tokens.filterMap tag?).find? fun t => t.start ≤ n && n < t.stop) = token.tag? := by
  have earlier : ((before.filterMap tag?).find? fun t => t.start ≤ n && n < t.stop) = none := by
    rw [List.find?_eq_none]
    intro t member
    obtain ⟨token', among, found⟩ := List.mem_filterMap.mp member
    obtain ⟨left, right, rfl⟩ := List.append_of_mem among
    cases token' with
    | text => cases found
    | tag t' =>
      cases found
      obtain ⟨start, stop⟩ := h.tag_bounds left t (right ++ token :: after) (by rw [split]; simp)
      rw [lexemes_append, Text.byteLength_append] at from_
      simp only [lexemes, List.flatMap_cons, Text.byteLength_append] at from_ start
      simp only [Bool.and_eq_true, decide_eq_true_eq, not_and]
      omega
  have later : ((after.filterMap tag?).find? fun t => t.start ≤ n && n < t.stop) = none := by
    rw [List.find?_eq_none]
    intro t member
    obtain ⟨token', among, found⟩ := List.mem_filterMap.mp member
    obtain ⟨left, right, rfl⟩ := List.append_of_mem among
    cases token' with
    | text => cases found
    | tag t' =>
      cases found
      obtain ⟨start, _⟩ := h.tag_bounds (before ++ token :: left) t right (by rw [split]; simp)
      rw [lexemes_append, Text.byteLength_append] at start
      simp only [lexemes, List.flatMap_cons, Text.byteLength_append] at from_ upTo start
      simp only [Bool.and_eq_true, decide_eq_true_eq, not_and]
      omega
  rw [split, List.filterMap_append, List.find?_append, earlier, Option.none_or]
  cases token with
  | text s line =>
    exact later
  | tag t =>
    obtain ⟨start, stop⟩ := h.tag_bounds before t after split
    have inside : (decide (t.start ≤ n) && decide (n < t.stop)) = true := by
      simp only [Bool.and_eq_true, decide_eq_true_eq]
      omega
    exact List.find?_cons_of_pos inside

/-- The characters of a source are those of its tokens. -/
theorem Covers.spread_eq (h : Covers source tokens) :
    Spot.spread (tokens.filterMap tag?) 0 source = (placed source 0 tokens).flatMap (inked source) := by
  have all (before after : List Token) (split : tokens = before ++ after) :
      Spot.spread (tokens.filterMap tag?) (Text.byteLength (lexemes source before))
          (lexemes source after) =
        (placed source (Text.byteLength (lexemes source before)) after).flatMap (inked source) := by
    induction after generalizing before with
    | nil => rfl
    | cons token after ih =>
      have next := ih (before ++ [token]) (by rw [split]; simp)
      rw [byteLength_lexemes_concat] at next
      have own := spread_eq_spots (fun n => h.find?_tags split (n := n))
      have cons : lexemes source (token :: after) = lexeme source token ++ lexemes source after :=
        List.flatMap_cons
      rw [cons, spread_append, own, next, placed, List.flatMap_cons, inked]
  have whole := all [] tokens rfl
  rw [h.whole] at whole
  exact whole

/-! ### Lines of tokens -/

theorem map_snd_placed (source : List Char) (offset : Nat) (tokens : List Token) :
    (placed source offset tokens).map (·.2) = tokens := by
  induction tokens generalizing offset with
  | nil => rfl
  | cons token rest ih => rw [placed, List.map_cons, ih]

structure Fits (source : List Char) (p : Nat × Token) : Prop where
  nonempty : lexeme source p.2 ≠ []
  line : p.2.isTag = false → '\n' ∉ (lexeme source p.2).dropLast
  start : ∀ t ∈ p.2.tag?, t.start = p.1

theorem Covers.fits (h : Covers source tokens) : ∀ p ∈ placed source 0 tokens, Fits source p := by
  have all (before after : List Token) (split : tokens = before ++ after) :
      ∀ p ∈ placed source (Text.byteLength (lexemes source before)) after, Fits source p := by
    induction after generalizing before with
    | nil => exact fun p member => by cases member
    | cons token after ih =>
      have next := ih (before ++ [token]) (by rw [split]; simp)
      rw [byteLength_lexemes_concat] at next
      rw [placed]
      refine List.forall_mem_cons.mpr ⟨?_, next⟩
      obtain ⟨_, d, _, stands⟩ := h.stands before token after split
      cases token with
      | text s line =>
        obtain ⟨nonempty, single, _⟩ := stands
        refine ⟨fun empty => nonempty (String.toList_eq_nil_iff.mp empty), fun _ => single, ?_⟩
        intro t none
        cases none
      | tag t =>
        obtain ⟨start, _, inner, encloses⟩ := stands
        refine ⟨fun empty => ?_, fun plain => ?_, ?_⟩
        · rw [empty] at encloses
          simp [d.opening_ne] at encloses
        · cases plain
        · rintro t ⟨⟩
          exact start
  exact all [] tokens rfl

end

theorem spots_append (tag : Option Tag) (offset : Nat) (xs ys : List Char) :
    spots tag offset (xs ++ ys) =
      spots tag offset xs ++ spots tag (offset + Text.byteLength xs) ys := by
  induction xs generalizing offset with
  | nil => rfl
  | cons c xs ih =>
    rw [List.cons_append, spots, ih, spots, List.cons_append, Text.byteLength, Nat.add_assoc]

theorem chars_spots (tag : Option Tag) (offset : Nat) (cs : List Char) :
    Spot.chars (spots tag offset cs) = cs := by
  induction cs generalizing offset with
  | nil => rfl
  | cons c cs ih => exact congrArg (c :: ·) (ih _)

theorem tag_of_mem_spots {tag : Option Tag} {offset : Nat} {cs : List Char} {s : Spot}
    (member : s ∈ spots tag offset cs) : s.tag = tag ∧ s.char ∈ cs ∧ offset ≤ s.offset := by
  induction cs generalizing offset with
  | nil => cases member
  | cons c cs ih =>
    rcases List.mem_cons.mp member with rfl | member
    · exact ⟨rfl, List.mem_cons_self, Nat.le_refl _⟩
    · obtain ⟨same, inside, later⟩ := ih member
      exact ⟨same, List.mem_cons_of_mem c inside, Nat.le_trans (Nat.le_add_right _ _) later⟩

/-- Only the last character of a token can break the line, and does so just when the token ends the
line. -/
theorem Fits.breaks {source : List Char} {p : Nat × Token} (fits : Fits source p) :
    ∃ init s, inked source p = init ++ [s] ∧ (∀ x ∈ init, Spot.breaks x = false) ∧
      Spot.breaks s = p.2.endsLine := by
  obtain ⟨offset, token⟩ := p
  obtain ⟨nonempty, line, _⟩ := fits
  rcases List.eq_nil_or_concat (lexeme source token) with empty | ⟨cs, c, own⟩
  · exact absurd empty nonempty
  · rw [List.concat_eq_append] at own
    refine ⟨_, _, by rw [inked, own, spots_append, spots, spots], fun x member => ?_, ?_⟩
    · obtain ⟨tag, inside, _⟩ := tag_of_mem_spots member
      cases token with
      | text s n =>
        have clear := line rfl
        rw [own, List.dropLast_concat] at clear
        simp only [Spot.breaks, Bool.and_eq_false_iff, beq_eq_false_iff_ne]
        exact .inl (ne_of_mem_of_not_mem inside clear)
      | tag t => simp only [Spot.breaks, tag, tag?, Option.isNone_some, Bool.and_false]
    · cases token with
      | text s n =>
        have own : s.toList = cs ++ [c] := own
        simp [Spot.breaks, tag?, endsLine, own]
      | tag t => simp [Spot.breaks, tag?, endsLine]

/-! ### Lines of tokens and lines of the source -/

theorem text_append (xs ys : List Spot) : Spot.text (xs ++ ys) = Spot.text xs ++ Spot.text ys := by
  simp only [Spot.text, Spot.chars, List.filter_append, List.map_append]

theorem text_spots_none (offset : Nat) (cs : List Char) :
    Spot.text (spots none offset cs) = cs := by
  rw [Spot.text, List.filter_eq_self.mpr, chars_spots]
  intro s member
  rw [(tag_of_mem_spots member).1]
  rfl

theorem text_spots_some (t : Tag) (offset : Nat) (cs : List Char) :
    Spot.text (spots (some t) offset cs) = [] := by
  rw [Spot.text, List.filter_eq_nil_iff.mpr]
  · rfl
  · intro s member
    rw [(tag_of_mem_spots member).1]
    exact Bool.false_ne_true

/-- A tag starts at the first of its characters. -/
theorem tags_spots {tag : Option Tag} {offset : Nat} {cs : List Char} (nonempty : cs ≠ [])
    (start : ∀ t ∈ tag, t.start = offset) : Spot.tags (spots tag offset cs) = tag.toList := by
  obtain ⟨c, cs, rfl⟩ := List.exists_cons_of_ne_nil nonempty
  have size := c.utf8Size_pos
  have others : Spot.tags (spots tag (offset + c.utf8Size) cs) = [] := by
    rw [Spot.tags, List.filterMap_eq_nil_iff]
    intro s member
    obtain ⟨same, _, later⟩ := tag_of_mem_spots member
    rw [same]
    cases tag with
    | none => rfl
    | some t =>
      have first := start t rfl
      simp only [Option.filter_eq_none_iff, Option.some.injEq, forall_eq', first,
        decide_eq_true_eq]
      omega
  cases tag with
  | none => exact others
  | some t =>
    have first := start t rfl
    rw [Spot.tags, spots, List.filterMap_cons, Option.filter_some, if_pos (by simpa using first)]
    exact congrArg (t :: ·) others

theorem line_chars (source : List Char) (line : List (Nat × Token)) :
    Spot.chars (line.flatMap (inked source)) = lexemes source (line.map (·.2)) := by
  induction line with
  | nil => rfl
  | cons p rest ih =>
    simp only [Spot.chars, List.flatMap_cons, List.map_append, List.map_cons, lexemes] at ih ⊢
    rw [ih]
    exact congrArg (· ++ _) (chars_spots p.2.tag? p.1 _)

theorem line_text (source : List Char) (line : List (Nat × Token)) :
    Spot.text (line.flatMap (inked source)) = (line.map (·.2)).flatMap literal := by
  induction line with
  | nil => rfl
  | cons p rest ih =>
    obtain ⟨offset, token⟩ := p
    rw [List.flatMap_cons, text_append, ih, List.map_cons, List.flatMap_cons]
    cases token with
    | text s n => exact congrArg (· ++ _) (text_spots_none offset s.toList)
    | tag t => exact congrArg (· ++ _) (text_spots_some t offset _)

theorem line_tags {source : List Char} {line : List (Nat × Token)}
    (fits : ∀ p ∈ line, Fits source p) :
    Spot.tags (line.flatMap (inked source)) = (line.map (·.2)).filterMap tag? := by
  induction line with
  | nil => rfl
  | cons p rest ih =>
    obtain ⟨own, others⟩ := List.forall_mem_cons.mp fits
    have first : Spot.tags (inked source p) = p.2.tag?.toList := tags_spots own.nonempty own.start
    have split : Spot.tags (inked source p ++ rest.flatMap (inked source)) =
        Spot.tags (inked source p) ++ Spot.tags (rest.flatMap (inked source)) :=
      List.filterMap_append
    rw [List.flatMap_cons, split, first, ih others, List.map_cons, List.filterMap_cons]
    cases p.2.tag? <;> rfl

theorem isStandalone_iff (line : List Token) :
    isStandalone line = true ↔
      (∃ t, line.filterMap tag? = [t] ∧ t.kind.isVariable = false) ∧
        ∀ c ∈ line.flatMap literal, Text.isBlank c = true := by
  have blank : (line.all fun token => token.isTag || token.isBlank) = true ↔
      ∀ c ∈ line.flatMap literal, Text.isBlank c = true := by
    have each (token : Token) : (token.isTag || token.isBlank) = true ↔
        ∀ c ∈ token.literal, Text.isBlank c = true := by
      cases token <;> simp [isTag, tag?, isBlank, literal]
    rw [List.all_eq_true]
    simp only [each, List.mem_flatMap, forall_exists_index, and_imp]
    exact ⟨fun h c token member inside => h token member c inside,
      fun h token member c inside => h c token member inside⟩
  unfold isStandalone
  split
  · next t single =>
    rw [Bool.and_eq_true, blank, single]
    simp [TagKind.standsAlone]
  · next other =>
    constructor
    · intro alone
      cases alone
    · rintro ⟨⟨t, single, _⟩, _⟩
      exact absurd single (other t)

/-- What a line of tokens leaves is what the line of the source leaves. -/
theorem keepLine_leaves {source : List Char} {line : List (Nat × Token)}
    (fits : ∀ p ∈ line, Fits source p) :
    Leaves source (line.flatMap (inked source)) (keepLine (line.map (·.2))) := by
  have standalone : Spot.Standalone (line.flatMap (inked source)) ↔
      isStandalone (line.map (·.2)) = true := by
    rw [isStandalone_iff, Spot.Standalone, line_tags fits, line_text]
  refine ⟨?_, fun alone => ?_, fun mixed => ?_⟩
  · rw [line_tags fits, tags_keepLine]
  · rw [keepLine, if_pos (standalone.mp alone)]
    refine ⟨?_, fun token member => (List.mem_filter.mp member).2⟩
    rw [List.flatMap_eq_nil_iff]
    intro token member
    cases token with
    | text => cases (List.mem_filter.mp member).2
    | tag => rfl
  · rw [keepLine, if_neg fun alone => mixed (standalone.mpr alone), line_text, line_chars]
    exact ⟨rfl, rfl⟩

/-- Of the lines of a source, a standalone one loses its text, and any other keeps all of it. Tags are
kept as they are, in order. -/
theorem dropStandalone_lines {source : String} {tokens : List Token}
    (scanned : scan source = .ok tokens) :
    (dropStandalone tokens).filterMap tag? = tokens.filterMap tag? ∧
      ∃ left : List (List Token), dropStandalone tokens = left.flatten ∧
        List.Forall₂ (Leaves source.toList) (Spot.lines source.toList (tokens.filterMap tag?)) left := by
  have covers := covers_of_scan scanned
  have whole := map_snd_placed source.toList 0 tokens
  have fits := covers.fits
  have cut : Spot.lines source.toList (tokens.filterMap tag?) = (splitAfter (fun p => p.2.endsLine)
      (placed source.toList 0 tokens)).map (List.flatMap (inked source.toList)) := by
    rw [Spot.lines, covers.spread_eq]
    exact splitAfter_flatMap fun p member => (fits p member).breaks
  have kept : (lines tokens).map keepLine = (splitAfter (fun p => p.2.endsLine)
      (placed source.toList 0 tokens)).map fun line => keepLine (line.map (·.2)) := by
    rw [lines, ← whole, splitAfter_map, whole, List.map_map]
    rfl
  refine ⟨tags_dropStandalone tokens, (lines tokens).map keepLine, rfl, ?_⟩
  rw [cut, kept, List.forall₂_map_left_iff, List.forall₂_map_right_iff, List.forall₂_same]
  intro line member
  refine keepLine_leaves fun p inside => fits p ?_
  rw [← flatten_splitAfter (fun p : Nat × Token => p.2.endsLine) (placed source.toList 0 tokens)]
  exact List.mem_flatten_of_mem member inside

/-- The second line loses its blanks and its line break. On the third one a comment that goes on over
its line break stands beside another tag. -/
theorem dropStandalone_lines_comment :
    scan "a\r\n \x7b\x7b#s\x7d\x7d\r\n\x7b\x7b!x\ny\x7d\x7d \x7b\x7b/s\x7d\x7d" =
        .ok [.text "a\r\n" 1, .text " " 2, .tag ⟨.sectionStart, "s", 2, 4, 10⟩, .text "\r\n" 2,
          .tag ⟨.comment, "x\ny", 3, 12, 20⟩, .text " " 4, .tag ⟨.sectionEnd, "s", 4, 21, 27⟩] ∧
      ∃ left : List (List Token), left.flatten = [.text "a\r\n" 1, .tag ⟨.sectionStart, "s", 2, 4, 10⟩,
          .tag ⟨.comment, "x\ny", 3, 12, 20⟩, .text " " 4, .tag ⟨.sectionEnd, "s", 4, 21, 27⟩] ∧
        List.Forall₂ (Leaves
            "a\r\n \x7b\x7b#s\x7d\x7d\r\n\x7b\x7b!x\ny\x7d\x7d \x7b\x7b/s\x7d\x7d".toList)
          (Spot.lines "a\r\n \x7b\x7b#s\x7d\x7d\r\n\x7b\x7b!x\ny\x7d\x7d \x7b\x7b/s\x7d\x7d".toList
            [⟨.sectionStart, "s", 2, 4, 10⟩, ⟨.comment, "x\ny", 3, 12, 20⟩,
              ⟨.sectionEnd, "s", 4, 21, 27⟩]) left := by
  have scanned : scan "a\r\n \x7b\x7b#s\x7d\x7d\r\n\x7b\x7b!x\ny\x7d\x7d \x7b\x7b/s\x7d\x7d" =
      .ok [.text "a\r\n" 1, .text " " 2, .tag ⟨.sectionStart, "s", 2, 4, 10⟩, .text "\r\n" 2,
        .tag ⟨.comment, "x\ny", 3, 12, 20⟩, .text " " 4, .tag ⟨.sectionEnd, "s", 4, 21, 27⟩] := by
    with_unfolding_all rfl
  obtain ⟨_, left, whole, leaves⟩ := dropStandalone_lines scanned
  refine ⟨scanned, left, whole.symm.trans ?_, leaves⟩
  with_unfolding_all rfl

end Token

end Logicless
