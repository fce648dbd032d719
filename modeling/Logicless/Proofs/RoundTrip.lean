import Logicless.Proofs.Printing

/-!
# Printed outlines compile to themselves

A printed outline compiles to segments with the same outline, if no tag of it stands alone on its
line (`Template.ofSource_print`). The texts that were cut into lines are joined again, and only lines
whose tag stands alone lose their text.
-/

namespace Logicless

namespace Piece

theorem print_singleton (p : Piece) : print [p] = p.chars :=
  List.append_nil _

theorem Legible.fits {ps : List Piece} (h : Legible ps) : ∀ p ∈ ps, p.Fits := by
  induction h with
  | nil =>
    intro p member
    cases member
  | text fits _ _ ih | tag fits _ ih => exact List.forall_mem_cons.mpr ⟨fits, ih⟩

/-- Where a tag is among the pieces cut into lines, it is among the pieces. -/
theorem split_of_lines {ps left right : List Piece} {kind : TagKind} {content : String}
    (cut : ps.flatMap lines = left ++ .tag kind content :: right) :
    ∃ before after, ps = before ++ .tag kind content :: after ∧ before.flatMap lines = left ∧
      after.flatMap lines = right := by
  induction ps generalizing left with
  | nil => simp at cut
  | cons p ps ih =>
    rw [List.flatMap_cons, List.append_eq_append_iff] at cut
    rcases cut with ⟨others, rfl, cut⟩ | ⟨others, own, cut⟩
    · obtain ⟨before, after, rfl, rfl, rfl⟩ := ih cut
      exact ⟨p :: before, after, rfl, rfl, rfl⟩
    · cases others with
      | nil =>
        obtain ⟨before, after, rfl, none, rfl⟩ := @ih [] cut.symm
        exact ⟨p :: before, after, rfl, by rw [List.flatMap_cons, none, own]; simp, rfl⟩
      | cons q others =>
        obtain ⟨rfl, rfl⟩ := List.cons.inj cut
        cases p with
        | text s =>
          have member : Piece.tag kind content ∈ lines (.text s) := by simp [own]
          simp [lines] at member
        | tag kind' content' =>
          have alone : left ++ .tag kind content :: others = [.tag kind' content'] := own.symm
          rw [List.append_eq_singleton_iff] at alone
          rcases alone with ⟨rfl, same⟩ | ⟨_, same⟩
          · cases same
            exact ⟨[], ps, rfl, rfl, rfl⟩
          · cases same

theorem standsAlone_length (before after : List Piece) (kind : TagKind) (content : String) :
    standsAlone (before ++ .tag kind content :: after) before.length =
      (kind.standsAlone && ((print before).reverse.takeWhile (· ≠ '\n')).all Text.isBlank &&
        ((print after).takeWhile (· ≠ '\n')).all Text.isBlank) := by
  have rest : (before ++ Piece.tag kind content :: after).drop (before.length + 1) = after := by
    rw [List.drop_append, List.drop_of_length_le (Nat.le_succ _), Nat.add_sub_cancel_left]
    rfl
  have here : (before ++ Piece.tag kind content :: after)[before.length]? =
      some (.tag kind content) := by simp
  rw [standsAlone, here, List.take_left, rest]

end Piece

namespace Token

/-! ### Standalone lines -/

theorem dropStandalone_of_mixed {tokens : List Token}
    (mixed : ∀ line ∈ lines tokens, isStandalone line = false) : dropStandalone tokens = tokens := by
  have kept (line : List Token) (member : line ∈ lines tokens) : keepLine line = id line := by
    rw [keepLine, mixed line member]
    rfl
  rw [dropStandalone, List.flatMap_def, List.map_congr_left kept, List.map_id]
  exact flatten_splitAfter endsLine tokens

theorem blank_of_texts {tokens : List Token} (texts : ∀ token ∈ tokens, token.tag? = none)
    (blank : ∀ token ∈ tokens, (token.isTag || token.isBlank) = true) :
    ∀ c ∈ Piece.print (tokens.map piece), Text.isBlank c = true := by
  intro c member
  obtain ⟨p, piece, inside⟩ := List.mem_flatMap.mp member
  obtain ⟨token, among, rfl⟩ := List.mem_map.mp piece
  have text := texts token among
  have blank := blank token among
  cases token with
  | text s line => exact List.all_eq_true.mp blank c inside
  | tag t => cases text

/-- A standalone line is one tag and texts of blanks. -/
theorem split_of_isStandalone {line : List Token} (alone : isStandalone line = true) :
    ∃ before t after, line = before ++ .tag t :: after ∧ t.kind.standsAlone = true ∧
      (∀ c ∈ Piece.print (before.map piece), Text.isBlank c = true) ∧
      ∀ c ∈ Piece.print (after.map piece), Text.isBlank c = true := by
  unfold isStandalone at alone
  split at alone
  · next t tags =>
    obtain ⟨before, token, after, rfl, none, found, none'⟩ := List.filterMap_eq_cons_iff.mp tags
    rw [List.filterMap_eq_nil_iff] at none'
    rw [Bool.and_eq_true, List.all_eq_true] at alone
    obtain ⟨kind, blank⟩ := alone
    cases token with
    | text => cases found
    | tag t =>
      cases found
      refine ⟨before, t, after, rfl, kind, ?_, ?_⟩
      · exact blank_of_texts none fun token member => blank token (List.mem_append_left _ member)
      · exact blank_of_texts none' fun token member =>
          blank token (List.mem_append_right _ (List.mem_cons_of_mem _ member))
  · cases alone

theorem chars_of_endsLine {token : Token} (ends : token.endsLine = true) :
    token.tag? = none ∧ token.piece.chars.getLast? = some '\n' := by
  cases token with
  | text s line => exact ⟨rfl, beq_iff_eq.mp ends⟩
  | tag t => cases ends

/-- Text ends with a newline where a line starts. -/
theorem newline_of_cut {tokens line : List Token} {before after : List (List Token)}
    (cut : lines tokens = before ++ line :: after) :
    ∀ c ∈ (Piece.print (before.flatten.map piece)).getLast?, c = '\n' := by
  rcases List.eq_nil_or_concat before with rfl | ⟨earlier, last, rfl⟩
  · intro c member
    cases member
  · have cut' : lines tokens = earlier ++ last :: line :: after := by rw [cut]; simp
    obtain ⟨init, token, rfl, ends⟩ := ends_of_splitAfter cut' (by simp)
    have joined : (earlier.concat (init ++ [token])).flatten =
        (earlier.flatten ++ init) ++ [token] := by simp
    obtain ⟨_, last⟩ := chars_of_endsLine ends
    rw [joined, List.map_append, List.map_singleton, Piece.print_append, Piece.print_singleton,
      List.getLast?_append, last]
    rintro c ⟨⟩
    rfl

/-- Text after the last tag of a line ends the line, unless the line is the last. -/
theorem newline_of_more {tokens left right : List Token} {t : Tag}
    {before after : List (List Token)}
    (cut : lines tokens = before ++ (left ++ .tag t :: right) :: after) (more : after ≠ []) :
    '\n' ∈ Piece.print (right.map piece) := by
  obtain ⟨init, token, own, ends⟩ := ends_of_splitAfter cut more
  obtain ⟨text, last⟩ := chars_of_endsLine ends
  rcases List.eq_nil_or_concat right with rfl | ⟨right, final, rfl⟩
  · obtain ⟨_, same⟩ := List.append_inj' own rfl
    cases same
    cases text
  · rw [List.concat_eq_append, ← List.cons_append, ← List.append_assoc] at own
    obtain ⟨_, same⟩ := List.append_inj' own rfl
    cases same
    rw [List.concat_eq_append, List.map_append, List.map_singleton, Piece.print_append,
      Piece.print_singleton]
    exact List.mem_append_right _ (List.mem_of_getLast? last)

/-- The tag of a standalone line stands alone among the pieces. -/
theorem standsAlone_of_line {tokens line : List Token} {ps : List Piece}
    (same : tokens.map piece = ps.flatMap Piece.lines) (member : line ∈ lines tokens)
    (alone : isStandalone line = true) : ∃ i < ps.length, Piece.standsAlone ps i = true := by
  obtain ⟨earlier, later, cut⟩ := List.append_of_mem member
  obtain ⟨left, t, right, rfl, kind, blank, blank'⟩ := split_of_isStandalone alone
  have whole : (lines tokens).flatten = tokens := flatten_splitAfter endsLine tokens
  have cut' : ps.flatMap Piece.lines = (earlier.flatten ++ left).map piece ++
      .tag t.kind t.content :: (right ++ later.flatten).map piece := by
    rw [← same, ← whole, cut]
    simp [piece]
  obtain ⟨before, after, rfl, before', after'⟩ := Piece.split_of_lines cut'
  refine ⟨before.length, by simp, ?_⟩
  rw [Piece.standsAlone_length, ← Piece.print_lines before, ← Piece.print_lines after, before', after',
    List.map_append, List.map_append, Piece.print_append, Piece.print_append, List.reverse_append]
  simp only [Bool.and_eq_true, List.all_eq_true]
  refine ⟨⟨kind, fun c taken => ?_⟩, fun c taken => ?_⟩
  · have stop : ∀ c ∈ (Piece.print (earlier.flatten.map piece)).reverse.head?,
        decide (c ≠ '\n') = false := by
      rw [List.head?_reverse]
      intro c last
      simpa using newline_of_cut cut c last
    exact blank c (List.mem_reverse.mp (mem_of_mem_takeWhile (.inr stop) taken))
  · refine blank' c (mem_of_mem_takeWhile ?_ taken)
    by_cases more : later = []
    · subst more
      exact .inr fun c member => by cases member
    · exact .inl ⟨'\n', newline_of_more cut more, by decide⟩

/-! ### Joining lines -/

theorem join_run {tokens rest : List Token} {cuts : List (List Char)} (ne : cuts ≠ [])
    (same : tokens.map piece = cuts.map fun cut => .text (String.ofList cut))
    (stop : ∀ p ∈ ((join rest).map piece).head?, p.isText = false) :
    (join (tokens ++ rest)).map piece =
      .text (String.ofList cuts.flatten) :: (join rest).map piece := by
  induction cuts generalizing tokens with
  | nil => exact absurd rfl ne
  | cons cut cuts ih =>
    obtain ⟨token, others, rfl, own, run⟩ := List.map_eq_cons_iff.mp same
    cases token with
    | tag t => cases own
    | text s line =>
      cases own
      cases cuts with
      | nil =>
        obtain rfl := List.map_eq_nil_iff.mp run
        rw [List.singleton_append, join]
        split
        · next joined =>
          rw [joined] at stop
          cases stop _ rfl
        · simp [piece]
      | cons next cuts =>
        obtain ⟨token, tail, found, own, rest'⟩ := List.map_eq_cons_iff.mp (ih (by simp) run)
        cases token with
        | tag t => cases own
        | text more n =>
          cases own
          rw [List.cons_append, join, found]
          simp [piece, rest']

/-- Lines are joined to the texts that they were cut from. -/
theorem join_lines {tokens : List Token} {ps : List Piece} (legible : Piece.Legible ps)
    (same : tokens.map piece = ps.flatMap Piece.lines) : (join tokens).map piece = ps := by
  induction legible generalizing tokens with
  | nil =>
    obtain rfl := List.map_eq_nil_iff.mp same
    rfl
  | @text s ps fits apart _ ih =>
    obtain ⟨run, rest, rfl, own, others⟩ := List.map_eq_append_iff.mp same
    have joined := ih others
    have ne : splitAfter (· == '\n') s.toList ≠ [] := by
      intro empty
      have whole := flatten_splitAfter (· == '\n') s.toList
      rw [empty] at whole
      exact fits.1 (String.toList_eq_nil_iff.mp whole.symm)
    have stop : ∀ p ∈ ((join rest).map piece).head?, p.isText = false := by
      rw [joined]
      exact apart
    rw [join_run ne own stop, flatten_splitAfter, joined, String.ofList_toList]
  | @tag kind content ps _ _ ih =>
    obtain ⟨token, rest, rfl, own, others⟩ := List.map_eq_cons_iff.mp same
    cases token with
    | text => cases own
    | tag t => rw [join, List.map_cons, own, ih others]

/-- Printed pieces are left as they are if no tag stands alone. -/
theorem settled_print {tokens : List Token} {ps : List Piece} (legible : Piece.Legible ps)
    (same : tokens.map piece = ps.flatMap Piece.lines)
    (mixed : ∀ i < ps.length, Piece.standsAlone ps i = false) : (settled tokens).map piece = ps := by
  have kept : dropStandalone tokens = tokens := by
    refine dropStandalone_of_mixed fun line member => ?_
    cases alone : isStandalone line with
    | false => rfl
    | true =>
      obtain ⟨i, within, found⟩ := standsAlone_of_line same member alone
      rw [mixed i within] at found
      cases found
  have shown : visible tokens = tokens := by
    refine List.filter_eq_self.mpr fun token member => ?_
    cases token with
    | text => rfl
    | tag t =>
      have among : (Token.tag t).piece ∈ ps.flatMap Piece.lines := same ▸ List.mem_map_of_mem member
      obtain ⟨p, place, inside⟩ := List.mem_flatMap.mp among
      have fits := legible.fits p place
      cases p with
      | text s => simp [Piece.lines, piece] at inside
      | tag kind content =>
        cases List.mem_singleton.mp inside
        simpa [tag?] using fits.1
  rw [settled, kept, shown, join_lines legible same]

end Token

/-! ### Balanced tags -/

namespace Outline

theorem balanced_of_flat {o : Outline} {p : Piece} {tokens : List Token} (flat : pieces o = [p])
    (same : tokens.map Token.piece = pieces o) : Tag.Balanced (Token.sectionTags tokens) := by
  obtain ⟨token, rfl, own⟩ := List.map_eq_singleton_iff.mp (same.trans flat)
  subst own
  have skipped : token.sectionTag? = none := sectionTag?_of_flat flat
  have none : Token.sectionTags [token] = [] := by
    rw [Token.sectionTags, List.filterMap_cons, skipped]
    rfl
  rw [none]
  exact .nil

mutual

theorem balanced_pieces : ∀ (o : Outline) {tokens : List Token},
    tokens.map Token.piece = pieces o → Tag.Balanced (Token.sectionTags tokens)
  | .block inverted key children, tokens, same => by
    obtain ⟨start, others, rfl, starts, rest⟩ := List.map_eq_cons_iff.mp same
    obtain ⟨inner, last, rfl, within, tail⟩ := List.map_eq_append_iff.mp rest
    obtain ⟨stop, none, rfl, ends, nil⟩ := List.map_eq_cons_iff.mp tail
    obtain rfl := List.map_eq_nil_iff.mp nil
    cases start with
    | text => cases starts
    | tag o =>
      cases stop with
      | text => cases ends
      | tag c =>
        obtain ⟨kind, key⟩ := Piece.tag.inj starts
        obtain ⟨kind', key'⟩ := Piece.tag.inj ends
        have opens := Tag.opens_of_start kind
        rw [Token.sectionTags_block opens kind']
        exact .pair opens kind' (key'.trans key.symm) (balanced_piecesAll children within) .nil
  | .text s, _, same => balanced_of_flat rfl same
  | .value unescaped key, _, same => balanced_of_flat rfl same
  | .inclusion name, _, same => balanced_of_flat rfl same
  | .comment s, _, same => balanced_of_flat rfl same

theorem balanced_piecesAll : ∀ (outlines : List Outline) {tokens : List Token},
    tokens.map Token.piece = piecesAll outlines → Tag.Balanced (Token.sectionTags tokens)
  | [], tokens, same => by
    obtain rfl := List.map_eq_nil_iff.mp same
    exact .nil
  | o :: outlines, tokens, same => by
    obtain ⟨left, right, rfl, own, others⟩ := List.map_eq_append_iff.mp same
    rw [Token.sectionTags_append]
    exact (balanced_pieces o own).append (balanced_piecesAll outlines others)

end

end Outline

namespace Piece

/-- A line of nothing but blanks and one tag that writes no value. -/
def TakesLine (line : List Char) : Prop :=
  ∃ before kind content after, line = before ++ ((Piece.tag kind content).chars ++ after) ∧
    kind.standsAlone = true ∧ before.all Text.isBlank = true ∧ after.all Text.isBlank = true

theorem TakesLine.braces {line : List Char} (h : TakesLine line) : '{' ∈ line ∧ '}' ∈ line := by
  obtain ⟨before, kind, content, after, rfl, _⟩ := h
  simp [chars, Delimiters.standard]

end Piece

namespace Template

/-- A printed outline compiles to segments with the same outline, if no tag stands alone on its
line. -/
theorem ofSource_print (outlines : List Outline) (fits : Outline.AllFit outlines)
    (mixed : Outline.Mixed outlines) (instanceId : Nat) (name : String) (split : KeySplitter) :
    ∃ t, ofSource instanceId name (Outline.print outlines) split = .ok t ∧
      Segment.outlineAll t.segments = outlines := by
  have legible := Outline.legible_of_allFit fits
  obtain ⟨tokens, scanned, same⟩ := Token.scan_print legible
  have settled := Token.settled_print legible same mixed
  have balanced := Outline.balanced_piecesAll outlines settled
  rw [Token.sectionTags_settled] at balanced
  obtain ⟨t, compiled⟩ := ofSource_of_balanced scanned balanced instanceId name split
  refine ⟨t, compiled, Outline.piecesAll_inj ?_⟩
  rcases ofSource_of_tokens scanned instanceId name split with
    ⟨segments, found, spelled⟩ | ⟨f, failed, _⟩
  · rw [found] at compiled
    cases compiled
    exact spelled.pieces.trans settled
  · rw [failed] at compiled
    cases compiled

theorem ofSource_print_nested :
    Outline.AllFit [.text "a ", .block false "k" [.value true "x", .text "\x7d\n"], .inclusion "p"] ∧
      Outline.Mixed [.text "a ", .block false "k" [.value true "x", .text "\x7d\n"], .inclusion "p"] ∧
      ∃ t, ofSource 0 "t" (Outline.print
          [.text "a ", .block false "k" [.value true "x", .text "\x7d\n"], .inclusion "p"]) Key.dotted =
        .ok t ∧ Segment.outlineAll t.segments =
          [.text "a ", .block false "k" [.value true "x", .text "\x7d\n"], .inclusion "p"] :=
  ⟨by decide, by decide, ofSource_print _ (by decide) (by decide) 0 "t" Key.dotted⟩

/-- A comment on two lines stands alone: neither line holds all of it, and yet the blank before it is
lost. -/
theorem not_ofSource_print_comment :
    Outline.AllFit [.text " ", .comment "a\nb"] ∧
      (∀ line ∈ (Outline.print [.text " ", .comment "a\nb"]).toList.splitOn '\n',
        ¬ Piece.TakesLine line) ∧
      ¬ ∃ t, ofSource 0 "t" (Outline.print [.text " ", .comment "a\nb"]) Key.dotted = .ok t ∧
        Segment.outlineAll t.segments = [.text " ", .comment "a\nb"] := by
  have fits : Outline.AllFit [.text " ", .comment "a\nb"] := by decide
  refine ⟨fits, ?_, ?_⟩
  · have lines : (Outline.print [.text " ", .comment "a\nb"]).toList.splitOn '\n' =
        [" \x7b\x7b!a".toList, "b\x7d\x7d".toList] := by
      rw [Outline.print, String.toList_ofList]
      decide
    rw [lines]
    intro line member takes
    have braces := takes.braces
    rcases List.mem_cons.mp member with rfl | member
    · exact absurd braces (by decide)
    · obtain rfl := List.mem_singleton.mp member
      exact absurd braces (by decide)
  · rintro ⟨t, compiled, same⟩
    obtain ⟨tokens, scanned, pieces⟩ := Token.scan_print (Outline.legible_of_allFit fits)
    obtain ⟨blank, rest, rfl, blank', rest'⟩ := List.map_eq_cons_iff.mp pieces
    obtain ⟨comment, none, rfl, comment', none'⟩ := List.map_eq_cons_iff.mp rest'
    obtain rfl := List.map_eq_nil_iff.mp none'
    cases blank with
    | tag => cases blank'
    | text s n =>
      cases comment with
      | text => cases comment'
      | tag tag =>
        obtain ⟨kind, content, line, start, stop⟩ := tag
        cases blank'
        cases comment'
        rcases ofSource_of_tokens scanned 0 "t" Key.dotted with
          ⟨segments, found, spelled⟩ | ⟨f, failed, _⟩
        · cases compiled.symm.trans found
          have pieces := spelled.pieces
          rw [same] at pieces
          cases pieces
        · cases compiled.symm.trans failed

end Template

end Logicless
