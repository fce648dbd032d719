import Logicless.Proofs.Segments
import Logicless.Proofs.Shape

/-!
# Sections as templates

A section whose start stands between the standard delimiters has content that compiles by itself, into
segments of the shapes that its children have (`Template.ofSource_content`).
-/

namespace Logicless

namespace Segment

/-- The section goes from its start to its end, and its children are made of the tokens between. -/
structure Stretches (source : List Char) (tag : SectionTag) (children : List Segment) (o : Tag)
    (inner : List Token) (c : Tag) : Prop where
  starts : o.kind = .start tag.inverted
  ends : c.kind = .sectionEnd
  key : o.content = tag.text
  line : o.line = tag.origin.line
  content : Text.Between source o.stop c.start tag.content.toList
  within : Spells source children inner

variable {source : List Char} {segments children : List Segment} {tokens : List Token}

theorem sections_of_flat {segment : Segment} {token : Token}
    (flat : segment.outline.pieces = [token.piece]) :
    sections segment = [] ∧ token.opens = false := by
  constructor
  · cases segment with
    | block => simp [outline, Outline.pieces] at flat
    | _ => rfl
  · have none := Outline.sectionTag?_of_flat flat
    cases token with
    | text => rfl
    | tag t =>
      obtain ⟨kind, _⟩ := t
      cases kind with
      | sectionStart | invertedStart => cases none
      | _ => rfl

/-- The tags that start sections in a section: its own, and those of its children. -/
theorem countP_block {o c : Tag} (opens : o.kind.opens = true) (ends : c.kind = .sectionEnd)
    (inner tokens : List Token) :
    (.tag o :: (inner ++ .tag c :: tokens)).countP Token.opens =
      inner.countP Token.opens + tokens.countP Token.opens + 1 := by
  have starting : (Token.tag o).opens = true := opens
  have ending : ¬ (Token.tag c).opens = true := by simp [Token.opens, Token.tag?, ends, TagKind.opens]
  rw [List.countP_cons_of_pos starting, List.countP_append, List.countP_cons_of_neg ending]

/-- There is a section for each tag that starts one. -/
theorem Spells.length_sectionsOf (h : Spells source segments tokens) :
    (sectionsOf segments).length = tokens.countP Token.opens := by
  induction h with
  | nil => rfl
  | leaf flat _ _ ih =>
    obtain ⟨none, plain⟩ := sections_of_flat flat
    rw [sectionsOf, none, List.nil_append, ih, List.countP_cons_of_neg (by simp [plain])]
  | block starts ends _ _ _ _ _ _ within after =>
    rw [countP_block (Tag.opens_of_start starts) ends, sectionsOf, sections, List.length_append,
      List.length_cons, within, after]
    omega

/-- A section goes from the tag that starts as many sections into the source as it is in the tree. -/
theorem Spells.exists_stretch (h : Spells source segments tokens) {i : Nat} {tag : SectionTag}
    (found : (sectionsOf segments)[i]? = some (tag, children)) :
    ∃ before o inner c after, tokens = before ++ .tag o :: (inner ++ .tag c :: after) ∧
      before.countP Token.opens = i ∧ Stretches source tag children o inner c := by
  induction h generalizing i with
  | nil => cases found
  | @leaf _ token _ _ flat _ _ ih =>
    obtain ⟨none, plain⟩ := sections_of_flat flat
    rw [sectionsOf, none, List.nil_append] at found
    obtain ⟨before, o, inner, c, after, rfl, rfl, stretches⟩ := ih found
    exact ⟨token :: before, o, inner, c, after, rfl, List.countP_cons_of_neg (by simp [plain]),
      stretches⟩
  | @block tag' o' c' children' segments inner' tokens starts ends key same line content spelled _ within
      after =>
    have opens := Tag.opens_of_start starts
    rw [sectionsOf, sections, List.cons_append] at found
    cases i with
    | zero =>
      cases found
      exact ⟨[], o', inner', c', tokens, rfl, rfl, starts, ends, key, line.symm, content, spelled⟩
    | succ i =>
      -- The section is one of those within this one, or it comes after it.
      rw [List.getElem?_cons_succ] at found
      by_cases inside : i < (sectionsOf children').length
      · rw [List.getElem?_append_left inside] at found
        obtain ⟨before, o, inner, c, rest, rfl, rfl, stretches⟩ := within found
        refine ⟨.tag o' :: before, o, inner, c, rest ++ .tag c' :: tokens, by simp, ?_, stretches⟩
        exact List.countP_cons_of_pos opens
      · rw [List.getElem?_append_right (Nat.le_of_not_lt inside), spelled.length_sectionsOf] at found
        rw [spelled.length_sectionsOf] at inside
        obtain ⟨before, o, inner, c, rest, rfl, count, stretches⟩ := after found
        refine ⟨.tag o' :: (inner' ++ .tag c' :: before), o, inner, c, rest, by simp, ?_, stretches⟩
        rw [countP_block opens ends, count]
        omega

end Segment

namespace Tag

theorem Balanced.of_shift {n k : Nat} {tags : List Tag} (h : Balanced (tags.map (Tag.shift n k))) :
    Balanced tags := by
  generalize same : tags.map (Tag.shift n k) = shifted at h
  induction h generalizing tags with
  | nil =>
    rw [List.map_eq_nil_iff.mp same]
    exact .nil
  | pair opens closes key _ _ within after =>
    obtain ⟨o, others, rfl, rfl, tail⟩ := List.map_eq_cons_iff.mp same
    obtain ⟨inner, others, rfl, first, tail⟩ := List.map_eq_append_iff.mp tail
    obtain ⟨c, rest, rfl, rfl, last⟩ := List.map_eq_cons_iff.mp tail
    exact .pair opens closes key (within first) (after last)

end Tag

namespace Token

theorem sectionTags_shift (n k : Nat) (tokens : List Token) :
    sectionTags (tokens.map (shift n k)) = (sectionTags tokens).map (Tag.shift n k) := by
  rw [sectionTags, sectionTags, List.filterMap_map, List.map_filterMap]
  congr
  funext token
  cases token with
  | text => rfl
  | tag t =>
    obtain ⟨kind, _⟩ := t
    cases kind <;> rfl

end Token

namespace Template

/-- The segments of a template are made of the tokens of its source. -/
theorem spells_of_compiled {instanceId : Nat} {name source : String} {split : KeySplitter} {t : Template}
    (compiled : ofSource instanceId name source split = .ok t) :
    ∃ tokens, Token.scan source = .ok tokens ∧
      Segment.Spells source.toList t.segments (Token.settled tokens) := by
  cases scanned : Token.scan source with
  | error f =>
    rw [ofSource_of_refused scanned] at compiled
    cases compiled
  | ok tokens =>
    refine ⟨tokens, rfl, ?_⟩
    rcases ofSource_of_tokens scanned instanceId name split with
      ⟨segments, found, spelled⟩ | ⟨f, failed, _⟩
    · rw [found] at compiled
      cases compiled
      exact spelled
    · rw [failed] at compiled
      cases compiled

/-- The content of a section compiles by itself if the standard delimiters are in effect after its
start. -/
theorem ofSource_of_stretches {source : String} {before inner after made : List Token} {o c : Tag}
    (scanned : Token.scan source = .ok (before ++ .tag o :: (inner ++ .tag c :: after)))
    (standard : Delimiters.after before = some .standard) {tag : SectionTag} {children : List Segment}
    (stretches : Segment.Stretches source.toList tag children o made c)
    (same : made.flatMap Token.traces = inner.flatMap Token.traces) (instanceId : Nat) (name : String)
    (split : KeySplitter) :
    ∃ t, ofSource instanceId name tag.content split = .ok t ∧
      Segment.shapesAll t.segments = Segment.shapesAll children := by
  have inEffect : Delimiters.after (before ++ [.tag o]) = some .standard := by
    rw [Token.after_concat_tag, if_neg, standard]
    rw [stretches.starts]
    cases tag.inverted <;> decide
  obtain ⟨part, tokens, k, between, scanned, rfl⟩ := Token.scan_between scanned inEffect
  obtain rfl : part = tag.content.toList := between.slice_eq.symm.trans stretches.content.slice_eq
  rw [String.ofList_toList] at scanned
  have balanced : Tag.Balanced (Token.sectionTags tokens) := by
    have within := stretches.within.balanced
    rw [← Token.sectionTags_traces, same, Token.sectionTags_traces, Token.sectionTags_shift] at within
    exact within.of_shift
  obtain ⟨t, compiled⟩ := ofSource_of_balanced scanned balanced instanceId name split
  obtain ⟨tokens', scanned', spelled⟩ := spells_of_compiled compiled
  obtain rfl : tokens = tokens' := Except.ok.inj (scanned.symm.trans scanned')
  have own := spelled.traced
  rw [Token.traces_settled] at own
  have given := stretches.within.traced
  rw [same, Token.traces_shift] at given
  exact ⟨t, compiled, (own.shift between k).unique given⟩

/-- The content of each section whose start is read with the standard delimiters compiles by itself,
into segments of the same shapes as the children of the section. -/
theorem ofSource_content {instanceId : Nat} {name source : String} {split : KeySplitter} {t : Template}
    (compiled : ofSource instanceId name source split = .ok t) :
    ∃ tokens, Token.scan source = .ok tokens ∧
      ∀ i tag children, (Segment.sectionsOf t.segments)[i]? = some (tag, children) →
        ∃ before o after, tokens = before ++ .tag o :: after ∧ before.countP Token.opens = i ∧
          o.kind = .start tag.inverted ∧ o.content = tag.text ∧ o.line = tag.origin.line ∧
          (Delimiters.after before = some .standard → ∀ instanceId' name', ∃ t',
            ofSource instanceId' name' tag.content split = .ok t' ∧
              Segment.shapesAll t'.segments = Segment.shapesAll children) := by
  obtain ⟨tokens, scanned, spelled⟩ := spells_of_compiled compiled
  refine ⟨tokens, scanned, fun i tag children found => ?_⟩
  obtain ⟨left, o, made, c, right, settled, count, stretches⟩ := spelled.exists_stretch found
  -- The tokens of the source have the start and the end of the section among the same traces.
  have traces := Token.traces_settled tokens
  rw [settled, List.flatMap_append, List.flatMap_cons, List.flatMap_append, List.flatMap_cons,
    Token.traces_of_opens (Tag.opens_of_start stretches.starts),
    Token.traces_of_ends stretches.ends] at traces
  obtain ⟨before, rest, rfl, first, traces⟩ := Token.split_of_traces traces.symm
  obtain ⟨inner, after, rfl, same, _⟩ := Token.split_of_traces traces
  refine ⟨before, o, _, rfl, ?_, stretches.starts, stretches.key, stretches.line,
    fun standard instanceId' name' => ?_⟩
  · rw [← count, ← Token.countP_traces, first, Token.countP_traces]
  · exact ofSource_of_stretches scanned standard stretches same.symm instanceId' name' split

/-- The comment stands alone on its line in the content of the section, and not in the source. -/
theorem ofSource_content_comment :
    ∃ t, ofSource 0 "t"
        "\x7b\x7b#a\x7d\x7d \x7b\x7b!c\x7d\x7d\n\x7b\x7b^b\x7d\x7dy\x7b\x7b/b\x7d\x7d \x7b\x7b/a\x7d\x7d"
        Key.whole = .ok t ∧
      ∃ tag children, (Segment.sectionsOf t.segments)[0]? = some (tag, children) ∧
        ∃ t', ofSource 1 "u" tag.content Key.whole = .ok t' ∧
          Segment.shapesAll t'.segments = Segment.shapesAll children ∧
          Segment.outlineAll t'.segments = [.comment "c", .block true "b" [.text "y"], .text " "] ∧
          Segment.outlineAll children =
            [.text " ", .comment "c", .text "\n", .block true "b" [.text "y"], .text " "] := by
  have compiled : ofSource 0 "t"
      "\x7b\x7b#a\x7d\x7d \x7b\x7b!c\x7d\x7d\n\x7b\x7b^b\x7d\x7dy\x7b\x7b/b\x7d\x7d \x7b\x7b/a\x7d\x7d"
      Key.whole = .ok ⟨0, "t", [.block ⟨false, "a", ⟨"t", 1, 1⟩, ["a"],
          " \x7b\x7b!c\x7d\x7d\n\x7b\x7b^b\x7d\x7dy\x7b\x7b/b\x7d\x7d "⟩
        [.text " " ⟨"t", 1, 2⟩, .comment "c" ⟨"t", 1, 3⟩, .text "\n" ⟨"t", 1, 4⟩,
          .block ⟨true, "b", ⟨"t", 2, 5⟩, ["b"], "y"⟩ [.text "y" ⟨"t", 2, 6⟩],
          .text " " ⟨"t", 2, 7⟩]]⟩ := by
    with_unfolding_all rfl
  have recompiled : ofSource 1 "u" " \x7b\x7b!c\x7d\x7d\n\x7b\x7b^b\x7d\x7dy\x7b\x7b/b\x7d\x7d "
      Key.whole = .ok ⟨1, "u", [.comment "c" ⟨"u", 1, 1⟩,
        .block ⟨true, "b", ⟨"u", 2, 2⟩, ["b"], "y"⟩ [.text "y" ⟨"u", 2, 3⟩],
        .text " " ⟨"u", 2, 4⟩]⟩ := by
    with_unfolding_all rfl
  have start : Token.scan
      "\x7b\x7b#a\x7d\x7d \x7b\x7b!c\x7d\x7d\n\x7b\x7b^b\x7d\x7dy\x7b\x7b/b\x7d\x7d \x7b\x7b/a\x7d\x7d" =
      .ok (.tag ⟨.sectionStart, "a", 1, 0, 6⟩ :: [.text " " 1, .tag ⟨.comment, "c", 1, 7, 13⟩,
        .text "\n" 1, .tag ⟨.invertedStart, "b", 2, 14, 20⟩, .text "y" 2,
        .tag ⟨.sectionEnd, "b", 2, 21, 27⟩, .text " " 2, .tag ⟨.sectionEnd, "a", 2, 28, 34⟩]) := by
    with_unfolding_all rfl
  obtain ⟨tokens, scanned, sections⟩ := ofSource_content compiled
  obtain ⟨before, o, after, split, count, _, _, _, content⟩ := sections 0 _ _ rfl
  have first : before = [] := by
    rw [split] at scanned
    cases before with
    | nil => rfl
    | cons token before =>
      obtain ⟨rfl, _⟩ := List.cons.inj (Except.ok.inj (scanned.symm.trans start))
      rw [List.countP_cons_of_pos rfl] at count
      cases count
  subst first
  obtain ⟨t', found, shapes⟩ := content rfl 1 "u"
  refine ⟨_, compiled, _, _, rfl, t', found, shapes, ?_, rfl⟩
  obtain rfl := Except.ok.inj (found.symm.trans recompiled)
  rfl

end Template

end Logicless
