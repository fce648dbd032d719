import Logicless.Proofs.Outline
import Logicless.Proofs.Tiling
import Logicless.Segment.Tree

/-!
# Sections pair up

A source compiles just if its section tags pair up, and then its segments, walked depth first, are
its tokens (`Template.ofSource_spells`). While tokens are read, the tree holds all of them: those of
the open sections and their siblings, and those of the finished segments.
-/

namespace Logicless

/-! ### Section tags -/

def TagKind.opens : TagKind → Bool
  | .sectionStart | .invertedStart => true
  | _ => false

theorem Tag.opens_of_start {o : Tag} {inverted : Bool} (starts : o.kind = .start inverted) :
    o.kind.opens = true := by
  rw [starts]
  cases inverted <;> rfl

def TagKind.ofSection (k : TagKind) : Bool :=
  k.opens || k == .sectionEnd

def Token.sectionTag? : Token → Option Tag
  | .text .. => none
  | .tag t => if t.kind.ofSection then some t else none

def Token.sectionTags (tokens : List Token) : List Tag :=
  tokens.filterMap sectionTag?

namespace Tag

inductive Balanced : List Tag → Prop where
  | nil : Balanced []
  | pair {o c : Tag} {inner rest : List Tag} (opens : o.kind.opens = true)
      (closes : c.kind = .sectionEnd) (key : c.content = o.content) (within : Balanced inner)
      (after : Balanced rest) : Balanced (o :: (inner ++ c :: rest))

/-- Balanced but for the starts of open sections, the latest first. -/
inductive Unclosed : List Tag → List Tag → Prop where
  | closed {tags : List Tag} (h : Balanced tags) : Unclosed [] tags
  | opened {o : Tag} {stack before after : List Tag} (outer : Unclosed stack before)
      (opens : o.kind.opens = true) (within : Balanced after) :
      Unclosed (o :: stack) (before ++ o :: after)

/-- Where section tags fail to pair up: at the first end that closes nothing or a section of another
key, else at the latest start that is left open. -/
inductive Misnested : List Tag → SourceFault → Prop where
  | unexpected {c : Tag} {before after : List Tag} (h : Balanced before)
      (closes : c.kind = .sectionEnd) :
      Misnested (before ++ c :: after) ⟨c.line, .unexpectedEnd c.content⟩
  | mismatched {o c : Tag} {stack before after : List Tag} (h : Unclosed (o :: stack) before)
      (closes : c.kind = .sectionEnd) (other : c.content ≠ o.content) :
      Misnested (before ++ c :: after) ⟨c.line, .mismatchedEnd o.content c.content⟩
  | unterminated {o : Tag} {stack tags : List Tag} (h : Unclosed (o :: stack) tags) :
      Misnested tags ⟨o.line, .unterminatedSection o.content⟩

theorem Balanced.append {left right : List Tag} (h : Balanced left) (h' : Balanced right) :
    Balanced (left ++ right) := by
  induction h with
  | nil => exact h'
  | pair opens closes key within _ _ ih =>
    have joined := Balanced.pair opens closes key within ih
    simpa using joined

theorem Unclosed.append {stack tags more : List Tag} (h : Unclosed stack tags) (h' : Balanced more) :
    Unclosed stack (tags ++ more) := by
  cases h with
  | closed h => exact .closed (h.append h')
  | opened outer opens within =>
    rw [List.append_assoc, List.cons_append]
    exact .opened outer opens (within.append h')

theorem Unclosed.concat {stack tags : List Tag} {o : Tag} (h : Unclosed stack tags)
    (opens : o.kind.opens = true) : Unclosed (o :: stack) (tags ++ [o]) :=
  .opened h opens .nil

end Tag

/-! ### Tokens that segments stand for -/

namespace Token

def join : List Token → List Token
  | [] => []
  | .tag t :: rest => .tag t :: join rest
  | .text s line :: rest =>
    match join rest with
    | .text more _ :: joined => .text (s ++ more) line :: joined
    | joined => .text s line :: joined

def visible (tokens : List Token) : List Token :=
  tokens.filter fun token => token.tag?.all fun t => t.kind ≠ .delimiters

theorem visible_concat {tokens : List Token} {token : Token}
    (shown : token.tag?.all (fun t => t.kind ≠ .delimiters) = true) :
    visible (tokens ++ [token]) = visible tokens ++ [token] := by
  simp only [visible, List.filter_append, List.filter_cons, shown, if_pos, List.filter_nil]

/-- The tokens that segments are made of. -/
def settled (tokens : List Token) : List Token :=
  join (visible (dropStandalone tokens))

def addText (s : String) (line : Nat) : List Token → List Token
  | [] => [.text s line]
  | [.text before first] => [.text (before ++ s) first]
  | token :: rest => token :: addText s line rest

theorem addText_concat_text (init : List Token) (b s : String) (first line : Nat) :
    addText s line (init ++ [.text b first]) = init ++ [.text (b ++ s) first] := by
  induction init with
  | nil => rfl
  | cons token rest ih => cases rest <;> cases token <;> simp_all [addText]

theorem addText_concat_tag (init : List Token) (t : Tag) (s : String) (line : Nat) :
    addText s line (init ++ [.tag t]) = init ++ [.tag t, .text s line] := by
  induction init with
  | nil => rfl
  | cons token rest ih => cases rest <;> cases token <;> simp_all [addText]

theorem addText_of_ends_tag {tokens : List Token} {s : String} {line : Nat}
    (ends : tokens = [] ∨ ∃ left t, tokens = left ++ [.tag t]) :
    addText s line tokens = tokens ++ [.text s line] := by
  rcases ends with rfl | ⟨left, t, rfl⟩
  · rfl
  · rw [addText_concat_tag, List.append_assoc]
    rfl

theorem join_concat_text (tokens : List Token) (s : String) (line : Nat) :
    join (tokens ++ [.text s line]) = addText s line (join tokens) := by
  induction tokens with
  | nil => rfl
  | cons token rest ih =>
    cases token with
    | tag t =>
      rw [List.cons_append, join, ih, join]
      cases join rest <;> rfl
    | text b first =>
      rw [List.cons_append, join, ih, join]
      rcases join rest with _ | ⟨_ | _, _ | _⟩ <;> simp [addText, String.append_assoc]

theorem join_concat_tag (tokens : List Token) (t : Tag) :
    join (tokens ++ [.tag t]) = join tokens ++ [.tag t] := by
  induction tokens with
  | nil => rfl
  | cons token rest ih =>
    cases token with
    | tag t => rw [List.cons_append, join, ih, join, List.cons_append]
    | text b first =>
      rw [List.cons_append, join, ih, join]
      rcases join rest with _ | ⟨_ | _, _⟩ <;> rfl

theorem sectionTags_append (xs ys : List Token) :
    sectionTags (xs ++ ys) = sectionTags xs ++ sectionTags ys :=
  List.filterMap_append

theorem sectionTags_block {o c : Tag} (opens : o.kind.opens = true) (ends : c.kind = .sectionEnd)
    (inner tokens : List Token) : sectionTags (.tag o :: (inner ++ .tag c :: tokens)) =
      o :: (sectionTags inner ++ c :: sectionTags tokens) := by
  simp [sectionTags, sectionTag?, TagKind.ofSection, opens, ends]

theorem eq_of_sectionTag? {token : Token} {t : Tag} (found : token.sectionTag? = some t) :
    token = .tag t := by
  cases token with
  | text => cases found
  | tag t' =>
    simp only [sectionTag?] at found
    split at found
    · cases found
      rfl
    · cases found

theorem sectionTags_join (tokens : List Token) : sectionTags (join tokens) = sectionTags tokens := by
  induction tokens with
  | nil => rfl
  | cons token rest ih =>
    cases token with
    | tag t =>
      simp only [join, sectionTags, List.filterMap_cons] at ih ⊢
      rw [ih]
    | text s line =>
      have skipped : sectionTags (.text s line :: rest) = sectionTags (join rest) := ih.symm
      rw [skipped, join]
      rcases join rest with _ | ⟨_ | _, _⟩ <;> rfl

theorem sectionTags_visible (tokens : List Token) :
    sectionTags (visible tokens) = sectionTags tokens := by
  rw [sectionTags, visible, List.filterMap_filter]
  congr
  funext token
  cases token with
  | text s line => rfl
  | tag t =>
    obtain ⟨kind, _⟩ := t
    cases kind <;> rfl

theorem sectionTags_eq (tokens : List Token) :
    sectionTags tokens = (tokens.filterMap tag?).filter fun t => t.kind.ofSection := by
  rw [List.filter_filterMap, sectionTags]
  congr
  funext token
  cases token with
  | text => rfl
  | tag t => simp only [sectionTag?, tag?, Option.filter_some]

theorem sectionTags_dropStandalone (tokens : List Token) :
    sectionTags (dropStandalone tokens) = sectionTags tokens := by
  rw [sectionTags_eq, tags_dropStandalone, sectionTags_eq]

theorem sectionTags_settled (tokens : List Token) :
    sectionTags (settled tokens) = sectionTags tokens := by
  rw [settled, sectionTags_join, sectionTags_visible, sectionTags_dropStandalone]

/-- Of two section tags of a source, the part between them stands there. -/
theorem Covers.between_of_sublist {source : List Char} {tokens : List Token} {o c : Tag}
    (h : Covers source tokens) (order : [o, c].Sublist (sectionTags tokens)) :
    ∃ part, Text.Between source o.stop c.start part := by
  obtain ⟨left, right, split, first, second⟩ := List.cons_sublist_iff.mp order
  obtain ⟨xs, ys, rfl, rfl, rfl⟩ := List.filterMap_eq_append_iff.mp split
  obtain ⟨token, member, found⟩ := List.mem_filterMap.mp first
  obtain ⟨token', member', found'⟩ := List.mem_filterMap.mp (List.singleton_sublist.mp second)
  obtain ⟨before, inner, rfl⟩ := List.append_of_mem member
  obtain ⟨inner', after, rfl⟩ := List.append_of_mem member'
  obtain rfl := eq_of_sectionTag? found
  obtain rfl := eq_of_sectionTag? found'
  have joined : Covers source (before ++ .tag o :: ((inner ++ inner') ++ .tag c :: after)) := by
    simpa using h
  exact ⟨_, joined.between⟩

end Token

/-- The token of an outline without children is no section tag. -/
theorem Outline.sectionTag?_of_flat {o : Outline} {token : Token} (flat : o.pieces = [token.piece]) :
    token.sectionTag? = none := by
  cases token with
  | text => rfl
  | tag t =>
    obtain ⟨kind, content, line, start, stop⟩ := t
    cases o with
    | text s => cases flat
    | value unescaped key =>
      cases unescaped <;> cases flat <;> rfl
    | block inverted key children => simp [pieces, Token.piece] at flat
    | inclusion name | comment s =>
      cases flat
      rfl

namespace Segment

/-- The segments are made of the tokens: a section of its start, those of its children, and its end,
and its content is what the source has between the two tags. -/
inductive Spells (source : List Char) : List Segment → List Token → Prop where
  | nil : Spells source [] []
  | leaf {segment : Segment} {token : Token} {segments : List Segment} {tokens : List Token}
      (flat : segment.outline.pieces = [token.piece]) (line : segment.origin.line = token.line)
      (after : Spells source segments tokens) : Spells source (segment :: segments) (token :: tokens)
  | block {tag : SectionTag} {o c : Tag} {children segments : List Segment}
      {inner tokens : List Token} (starts : o.kind = .start tag.inverted) (ends : c.kind = .sectionEnd)
      (key : o.content = tag.text) (same : c.content = tag.text) (line : tag.origin.line = o.line)
      (content : Text.Between source o.stop c.start tag.content.toList)
      (within : Spells source children inner) (after : Spells source segments tokens) :
      Spells source (.block tag children :: segments) (.tag o :: (inner ++ .tag c :: tokens))

namespace Spells

variable {source : List Char} {segments segments' : List Segment} {tokens tokens' : List Token}

theorem text (s : String) (origin : Origin) : Spells source [.text s origin] [.text s origin.line] :=
  .leaf rfl rfl .nil

/-- A walk through the segments meets the tokens. -/
theorem pieces (h : Spells source segments tokens) :
    Outline.piecesAll (outlineAll segments) = tokens.map Token.piece := by
  induction h with
  | nil => rfl
  | leaf flat _ _ ih =>
    rw [outlineAll, Outline.piecesAll, flat, ih, List.map_cons, List.singleton_append]
  | block starts ends key same _ _ _ _ within after =>
    simp only [outlineAll, outline, Outline.piecesAll, Outline.pieces, List.map_cons, List.map_append,
      Token.piece, starts, ends, key, same, within, after, List.cons_append, List.append_assoc,
      List.nil_append]

theorem append (h : Spells source segments tokens) (h' : Spells source segments' tokens') :
    Spells source (segments ++ segments') (tokens ++ tokens') := by
  induction h with
  | nil => exact h'
  | leaf flat line _ ih => exact .leaf flat line ih
  | block starts ends key same line content within _ _ ih =>
    have joined := Spells.block starts ends key same line content within ih
    simpa using joined

theorem split (h : Spells source (segments ++ segments') tokens) :
    ∃ left right, tokens = left ++ right ∧ Spells source segments left ∧
      Spells source segments' right := by
  induction segments generalizing tokens with
  | nil => exact ⟨[], tokens, rfl, .nil, h⟩
  | cons segment segments ih =>
    cases h with
    | leaf flat line after =>
      obtain ⟨left, right, rfl, spelled, rest⟩ := ih after
      exact ⟨_ :: left, right, rfl, .leaf flat line spelled, rest⟩
    | block starts ends key same line content within after =>
      obtain ⟨left, right, rfl, spelled, rest⟩ := ih after
      exact ⟨_, right, by simp, .block starts ends key same line content within spelled, rest⟩

theorem balanced (h : Spells source segments tokens) : Tag.Balanced (Token.sectionTags tokens) := by
  induction h with
  | nil => exact .nil
  | @leaf segment token _ tokens flat _ _ ih =>
    have skipped : Token.sectionTags (token :: tokens) = Token.sectionTags tokens := by
      rw [Token.sectionTags, List.filterMap_cons, Outline.sectionTag?_of_flat flat]
      rfl
    rw [skipped]
    exact ih
  | @block tag o c _ _ inner tokens starts ends key same _ _ _ _ within after =>
    rw [Token.sectionTags_block (Tag.opens_of_start starts) ends]
    exact .pair (Tag.opens_of_start starts) ends (same.trans key.symm) within after

/-- A text at the end is made of a single token. -/
theorem split_text {s : String} {origin : Origin}
    (h : Spells source (segments ++ [.text s origin]) tokens) :
    ∃ left, tokens = left ++ [.text s origin.line] ∧ Spells source segments left := by
  obtain ⟨left, right, rfl, spelled, last⟩ := h.split
  refine ⟨left, ?_, spelled⟩
  cases last with
  | @leaf _ token _ _ flat line after =>
    cases after
    cases token with
    | text s' line' =>
      cases flat
      cases line
      rfl
    | tag t => cases flat

/-- Segments that end with another segment than a text are made of tokens that end with a tag. -/
theorem ends_tag {segment : Segment} (h : Spells source (segments ++ [segment]) tokens)
    (other : ∀ s origin, segment ≠ .text s origin) : ∃ left t, tokens = left ++ [.tag t] := by
  obtain ⟨left, right, rfl, _, last⟩ := h.split
  cases last with
  | @leaf _ token _ _ flat _ after =>
    cases after
    cases token with
    | text s line =>
      cases segment with
      | text s' origin => exact absurd rfl (other s' origin)
      | _ => cases flat
    | tag t => exact ⟨left, t, rfl⟩
  | @block _ o c _ _ inner _ _ _ _ _ _ _ _ after =>
    cases after
    exact ⟨left ++ .tag o :: inner, c, by simp⟩

end Spells

end Segment

/-! ### What the tree holds -/

structure OpenSection.OpenedBy (opened : OpenSection) (o : Tag) : Prop where
  kind : o.kind = .start opened.inverted
  key : o.content = opened.key
  line : o.line = opened.line
  start : opened.contentStart = o.stop

theorem OpenSection.OpenedBy.opens {opened : OpenSection} {o : Tag} (h : opened.OpenedBy o) :
    o.kind.opens = true :=
  Tag.opens_of_start h.kind

namespace Tree

inductive Encloses (source : List Char) :
    List (OpenSection × List Segment) → List Tag → List Token → Prop where
  | nil : Encloses source [] [] []
  | cons {opened : OpenSection} {o : Tag} {siblings : List Segment}
      {enclosing : List (OpenSection × List Segment)} {stack : List Tag} {before tokens : List Token}
      (outer : Encloses source enclosing stack before)
      (spelled : Segment.Spells source siblings.reverse tokens) (tag : opened.OpenedBy o) :
      Encloses source ((opened, siblings) :: enclosing) (o :: stack) (before ++ tokens ++ [.tag o])

/-- The tree has been built from the tokens. The sections that `stack` starts are open. -/
def Holds (source : List Char) (stack : List Tag) (tokens : List Token) (t : Tree) : Prop :=
  ∃ before current, tokens = before ++ current ∧ Encloses source t.enclosing stack before ∧
    Segment.Spells source t.siblings.reverse current

theorem Encloses.unclosed {source : List Char} {enclosing : List (OpenSection × List Segment)}
    {stack : List Tag} {tokens : List Token} (h : Encloses source enclosing stack tokens) :
    Tag.Unclosed stack (Token.sectionTags tokens) := by
  induction h with
  | nil => exact .closed .nil
  | @cons _ o _ _ _ before tokens _ spelled tag ih =>
    have last : Token.sectionTags [.tag o] = [o] := by
      simp [Token.sectionTags, Token.sectionTag?, TagKind.ofSection, tag.opens]
    rw [Token.sectionTags_append, Token.sectionTags_append, last]
    exact (ih.append spelled.balanced).concat tag.opens

/-- Text never comes just before the siblings of an open section. -/
theorem Encloses.ends_tag {source : List Char} {enclosing : List (OpenSection × List Segment)}
    {stack : List Tag} {tokens : List Token} (h : Encloses source enclosing stack tokens) :
    tokens = [] ∨ ∃ left t, tokens = left ++ [.tag t] := by
  cases h with
  | nil => exact .inl rfl
  | cons => exact .inr ⟨_, _, rfl⟩

variable {c : Setting} {t t' : Tree} {stack : List Tag} {tokens : List Token}

theorem Holds.unclosed (h : t.Holds c.source stack tokens) :
    Tag.Unclosed stack (Token.sectionTags tokens) := by
  obtain ⟨before, current, rfl, encloses, spelled⟩ := h
  rw [Token.sectionTags_append]
  exact encloses.unclosed.append spelled.balanced

theorem holds_empty (source : List Char) : empty.Holds source [] [] :=
  ⟨[], [], rfl, .nil, .nil⟩

/-- Text is joined in the tree just when it is joined among the tokens. -/
theorem Holds.addText (h : t.Holds c.source stack tokens) (s : String) (line : Nat) :
    (t.addText c s line).Holds c.source stack (Token.addText s line tokens) := by
  obtain ⟨before, current, rfl, encloses, spelled⟩ := h
  unfold Tree.addText
  split
  · next earlier origin rest siblings =>
    rw [siblings, List.reverse_cons] at spelled
    obtain ⟨left, rfl, others⟩ := spelled.split_text
    refine ⟨before, left ++ [.text (earlier ++ s) origin.line], ?_, encloses, ?_⟩
    · rw [← List.append_assoc, Token.addText_concat_text, List.append_assoc]
    · rw [List.reverse_cons]
      exact others.append (.text _ origin)
  · next other =>
    have ends : before ++ current = [] ∨ ∃ left tag, before ++ current = left ++ [.tag tag] := by
      cases siblings : t.siblings with
      | nil =>
        rw [siblings] at spelled
        cases spelled
        rw [List.append_nil]
        exact encloses.ends_tag
      | cons segment rest =>
        rw [siblings, List.reverse_cons] at spelled
        obtain ⟨left, tag, rfl⟩ := spelled.ends_tag fun b origin text =>
          other b origin rest (by rw [siblings, text])
        exact .inr ⟨before ++ left, tag, (List.append_assoc ..).symm⟩
    refine ⟨before, current ++ [.text s line], ?_, encloses, ?_⟩
    · rw [Token.addText_of_ends_tag ends, List.append_assoc]
    · rw [List.reverse_cons]
      exact spelled.append (.text s ⟨c.template, line, t.numbered + 1⟩)

/-- A segment without children is held beside what was held before. -/
theorem Holds.addLeaf (h : t.Holds c.source stack tokens) {line : Nat} {leaf : Origin → Segment}
    {token : Token} (flat : ∀ o, (leaf o).outline.pieces = [token.piece])
    (origin : ∀ o, (leaf o).origin = o) (place : token.line = line) :
    (t.addLeaf c line leaf).Holds c.source stack (tokens ++ [token]) := by
  obtain ⟨before, current, rfl, encloses, spelled⟩ := h
  refine ⟨before, current ++ [token], by rw [List.append_assoc], encloses, ?_⟩
  simp only [Tree.addLeaf, List.reverse_cons]
  exact spelled.append (.leaf (flat _) (by rw [origin, place]) .nil)

theorem Holds.openSection (h : t.Holds c.source stack tokens) {inverted : Bool} {tag : Tag}
    (kind : tag.kind = .start inverted) :
    (t.openSection inverted tag).Holds c.source (tag :: stack) (tokens ++ [.tag tag]) := by
  obtain ⟨before, current, rfl, encloses, spelled⟩ := h
  exact ⟨_, [], (List.append_nil _).symm, encloses.cons spelled ⟨kind, rfl, rfl, rfl⟩, .nil⟩

/-- A section is closed by the end that has its key, and no other one. -/
theorem Holds.closeSection (h : t.Holds c.source stack tokens) {tag : Tag}
    (ends : tag.kind = .sectionEnd)
    (between : ∀ o ∈ Token.sectionTags tokens, ∃ part, Text.Between c.source o.stop tag.start part) :
    (∃ t' stack', t.closeSection c tag = .ok t' ∧ t'.Holds c.source stack' (tokens ++ [.tag tag])) ∨
      ∃ f, t.closeSection c tag = .error f ∧
        ∀ after, Tag.Misnested (Token.sectionTags tokens ++ tag :: after) f := by
  have unclosed := h.unclosed
  obtain ⟨before, current, rfl, encloses, spelled⟩ := h
  obtain ⟨siblings, enclosing, numbered⟩ := t
  simp only at encloses spelled
  cases encloses with
  | nil =>
    cases unclosed with
    | closed balanced => exact .inr ⟨_, rfl, fun after => .unexpected balanced ends⟩
  | @cons opened o siblings' enclosing stack before tokens outer spelled' openedBy =>
    by_cases key : opened.key = tag.content
    · have member : o ∈ Token.sectionTags (before ++ tokens ++ [.tag o] ++ current) := by
        simp [Token.sectionTags, Token.sectionTag?, TagKind.ofSection, openedBy.opens]
      obtain ⟨part, between⟩ := between o member
      simp only [Tree.closeSection, if_pos key]
      refine .inl ⟨_, stack, rfl, before, tokens ++ .tag o :: (current ++ [.tag tag]), ?_, outer, ?_⟩
      · simp
      · simp only [List.reverse_cons]
        refine spelled'.append (.block openedBy.kind ends openedBy.key key.symm openedBy.line.symm ?_
          spelled .nil)
        rw [openedBy.start, String.toList_ofList, between.slice_eq]
        exact between
    · simp only [Tree.closeSection, if_neg key]
      refine .inr ⟨_, rfl, fun after => ?_⟩
      have other : tag.content ≠ o.content := fun same => key (openedBy.key.symm.trans same.symm)
      rw [← openedBy.key]
      exact .mismatched unclosed ends other

/-- The end of a section is held beside the tokens before it, or it is out of place. -/
theorem Holds.addEnd {consumed : List Token} {tag : Tag} (ends : tag.kind = .sectionEnd)
    (h : t.Holds c.source stack (Token.join (Token.visible consumed)))
    (between : ∀ o e, [o, e].Sublist (Token.sectionTags (consumed ++ [.tag tag])) →
      ∃ part, Text.Between c.source o.stop e.start part) :
    (∃ t' stack', t.closeSection c tag = .ok t' ∧
        t'.Holds c.source stack' (Token.join (Token.visible consumed) ++ [.tag tag])) ∨
      ∃ f, t.closeSection c tag = .error f ∧
        ∀ after, Tag.Misnested (Token.sectionTags (consumed ++ .tag tag :: after)) f := by
  have last (after : List Token) :
      Token.sectionTags (.tag tag :: after) = tag :: Token.sectionTags after := by
    simp [Token.sectionTags, Token.sectionTag?, TagKind.ofSection, ends]
  have held : Token.sectionTags (Token.join (Token.visible consumed)) = Token.sectionTags consumed := by
    rw [Token.sectionTags_join, Token.sectionTags_visible]
  have before (o : Tag) (member : o ∈ Token.sectionTags (Token.join (Token.visible consumed))) :
      ∃ part, Text.Between c.source o.stop tag.start part := by
    apply between
    rw [held] at member
    rw [Token.sectionTags_append, last]
    exact (List.singleton_sublist.mpr member).append (List.Sublist.refl [tag])
  rcases h.closeSection ends before with ⟨t', stack', closed, holds⟩ | ⟨f, failed, misnested⟩
  · exact .inl ⟨t', stack', closed, holds⟩
  · refine .inr ⟨f, failed, fun after => ?_⟩
    rw [Token.sectionTags_append, last, ← held]
    exact misnested _

/-- The next token is held beside those before it, or it is an end out of place. -/
theorem Holds.add {consumed : List Token} {token : Token}
    (h : t.Holds c.source stack (Token.join (Token.visible consumed)))
    (between : ∀ o e, [o, e].Sublist (Token.sectionTags (consumed ++ [token])) →
      ∃ part, Text.Between c.source o.stop e.start part) :
    (∃ t' stack', t.add c token = .ok t' ∧
        t'.Holds c.source stack' (Token.join (Token.visible (consumed ++ [token])))) ∨
      ∃ f, t.add c token = .error f ∧
        ∀ after, Tag.Misnested (Token.sectionTags (consumed ++ token :: after)) f := by
  cases token with
  | text s line =>
    rw [Token.visible_concat rfl, Token.join_concat_text]
    exact .inl ⟨_, stack, rfl, h.addText s line⟩
  | tag tag =>
    by_cases changes : tag.kind = .delimiters
    · have hidden : Token.visible (consumed ++ [.tag tag]) = Token.visible consumed := by
        simp [Token.visible, Token.tag?, changes]
      refine .inl ⟨t, stack, ?_, ?_⟩
      · simp only [Tree.add, addTag, changes]
      · rw [hidden]
        exact h
    · have shown : (Token.tag tag).tag?.all (fun t => t.kind ≠ .delimiters) = true := by
        simpa [Token.tag?] using changes
      rw [Token.visible_concat shown, Token.join_concat_tag]
      cases kind : tag.kind with
      | delimiters => exact absurd kind changes
      | sectionEnd =>
        simp only [Tree.add, addTag, kind]
        exact h.addEnd kind between
      | sectionStart | invertedStart =>
        simp only [Tree.add, addTag, kind]
        exact .inl ⟨_, _, rfl, h.openSection kind⟩
      | escaped | unescaped | comment | inclusion =>
        simp only [Tree.add, addTag, kind]
        refine .inl ⟨_, stack, rfl, h.addLeaf (fun _ => ?_) (fun _ => rfl) rfl⟩
        rw [Token.piece, kind]
        rfl

theorem Holds.addAll {consumed tokens : List Token}
    (h : t.Holds c.source stack (Token.join (Token.visible consumed)))
    (between : ∀ o e, [o, e].Sublist (Token.sectionTags (consumed ++ tokens)) →
      ∃ part, Text.Between c.source o.stop e.start part) :
    (∃ t' stack', addAll c tokens t = .ok t' ∧
        t'.Holds c.source stack' (Token.join (Token.visible (consumed ++ tokens)))) ∨
      ∃ f, addAll c tokens t = .error f ∧
        Tag.Misnested (Token.sectionTags (consumed ++ tokens)) f := by
  induction tokens generalizing consumed t stack with
  | nil =>
    rw [List.append_nil]
    exact .inl ⟨t, stack, rfl, h⟩
  | cons token rest ih =>
    have joined : consumed ++ token :: rest = (consumed ++ [token]) ++ rest := by simp
    have between' (o e : Tag) (order : [o, e].Sublist (Token.sectionTags (consumed ++ [token]))) :
        ∃ part, Text.Between c.source o.stop e.start part := by
      apply between
      rw [joined, Token.sectionTags_append]
      exact order.trans (List.sublist_append_left _ _)
    rcases h.add between' with ⟨t', stack', added, holds⟩ | ⟨f, failed, misnested⟩
    · rw [Tree.addAll, added, joined]
      exact ih holds (joined ▸ between)
    · rw [Tree.addAll, failed]
      exact .inr ⟨f, rfl, misnested rest⟩

theorem ofTokens_of_ok (added : addAll c tokens empty = .ok t) : ofTokens c tokens = t.finish := by
  rw [ofTokens, added]
  rfl

theorem ofTokens_of_error {f : SourceFault} (failed : addAll c tokens empty = .error f) :
    ofTokens c tokens = .error f := by
  rw [ofTokens, failed]
  rfl

/-- Tokens are built into segments that are made of them, or a section tag is out of place. -/
theorem ofTokens_spells (between : ∀ o e, [o, e].Sublist (Token.sectionTags tokens) →
      ∃ part, Text.Between c.source o.stop e.start part) :
    (∃ segments, ofTokens c tokens = .ok segments ∧
        Segment.Spells c.source segments (Token.join (Token.visible tokens))) ∨
      ∃ f, ofTokens c tokens = .error f ∧ Tag.Misnested (Token.sectionTags tokens) f := by
  have start : empty.Holds c.source [] (Token.join (Token.visible [])) := holds_empty c.source
  rcases start.addAll between with ⟨t, stack, added, holds⟩ | ⟨f, failed, misnested⟩
  · have unclosed := holds.unclosed
    rw [Token.sectionTags_join, Token.sectionTags_visible, List.nil_append] at unclosed
    obtain ⟨before, current, same, encloses, spelled⟩ := holds
    rw [ofTokens_of_ok added]
    rw [List.nil_append] at same
    rw [same]
    obtain ⟨siblings, enclosing, numbered⟩ := t
    simp only at encloses spelled
    cases encloses with
    | nil => exact .inl ⟨_, rfl, spelled⟩
    | cons _ _ openedBy =>
      refine .inr ⟨_, rfl, ?_⟩
      rw [← openedBy.key, ← openedBy.line]
      exact .unterminated unclosed
  · exact .inr ⟨f, ofTokens_of_error failed, misnested⟩

/-! ### Balanced sections -/

theorem addAll_append {xs ys : List Token} (added : addAll c xs t = .ok t') :
    addAll c (xs ++ ys) t = addAll c ys t' := by
  induction xs generalizing t with
  | nil =>
    cases added
    rfl
  | cons token rest ih =>
    rw [List.cons_append, Tree.addAll]
    rw [Tree.addAll] at added
    split at added
    · cases added
    · exact ih added

/-- Tokens other than section tags leave the open sections alone. -/
theorem addAll_of_sectionTags_nil (none : Token.sectionTags tokens = []) :
    ∃ t', addAll c tokens t = .ok t' ∧ t'.enclosing = t.enclosing := by
  induction tokens generalizing t with
  | nil => exact ⟨t, rfl, rfl⟩
  | cons token rest ih =>
    have others := List.filterMap_eq_nil_iff.mp none
    have step : ∃ t', t.add c token = .ok t' ∧ t'.enclosing = t.enclosing := by
      cases token with
      | text s line =>
        refine ⟨_, rfl, ?_⟩
        rw [addText]
        split <;> rfl
      | tag tag =>
        have other := others (.tag tag) List.mem_cons_self
        obtain ⟨kind, content, line, start, stop⟩ := tag
        cases kind with
        | sectionStart | invertedStart | sectionEnd => cases other
        | escaped | unescaped | comment | inclusion | delimiters => exact ⟨_, rfl, rfl⟩
    obtain ⟨t', added, same⟩ := step
    obtain ⟨t'', added', same'⟩ := ih (t := t') (List.filterMap_eq_nil_iff.mpr
      fun x member => others x (List.mem_cons_of_mem _ member))
    refine ⟨t'', ?_, same'.trans same⟩
    rw [Tree.addAll, added]
    exact added'

theorem add_of_opens {o : Tag} (opens : o.kind.opens = true) :
    ∃ t' opened, t.add c (.tag o) = .ok t' ∧ t'.enclosing = (opened, t.siblings) :: t.enclosing ∧
      opened.key = o.content := by
  obtain ⟨kind, content, line, start, stop⟩ := o
  cases kind with
  | sectionStart => exact ⟨_, _, rfl, rfl, rfl⟩
  | invertedStart => exact ⟨_, _, rfl, rfl, rfl⟩
  | _ => cases opens

theorem add_of_closes {e : Tag} (closes : e.kind = .sectionEnd) {opened : OpenSection}
    {siblings : List Segment} {enclosing : List (OpenSection × List Segment)}
    (top : t.enclosing = (opened, siblings) :: enclosing) (key : opened.key = e.content) :
    ∃ t', t.add c (.tag e) = .ok t' ∧ t'.enclosing = enclosing := by
  simp only [add, addTag, closes, closeSection, top, if_pos key]
  exact ⟨_, rfl, rfl⟩

/-- Balanced sections are all closed again. -/
theorem addAll_of_balanced {tags : List Tag} (h : Tag.Balanced tags)
    (same : Token.sectionTags tokens = tags) :
    ∃ t', addAll c tokens t = .ok t' ∧ t'.enclosing = t.enclosing := by
  induction h generalizing tokens t with
  | nil => exact addAll_of_sectionTags_nil same
  | @pair o e inner rest opens closes key _ _ within after =>
    -- The tokens are leaves, the start, the tokens within, leaves, the end, and what is after it.
    obtain ⟨leaves, token, others, rfl, none, start, tags₁⟩ := List.filterMap_eq_cons_iff.mp same
    obtain ⟨children, others', rfl, inner, tags₂⟩ := List.filterMap_eq_append_iff.mp tags₁
    obtain ⟨leaves', token', last, rfl, none', stop, tags₃⟩ := List.filterMap_eq_cons_iff.mp tags₂
    obtain rfl := Token.eq_of_sectionTag? start
    obtain rfl := Token.eq_of_sectionTag? stop
    obtain ⟨t₁, added₁, same₁⟩ :=
      addAll_of_sectionTags_nil (t := t) (c := c) (List.filterMap_eq_nil_iff.mpr none)
    obtain ⟨t₂, opened, added₂, same₂, key₂⟩ := add_of_opens (t := t₁) (c := c) opens
    obtain ⟨t₃, added₃, same₃⟩ := within (t := t₂) inner
    obtain ⟨t₄, added₄, same₄⟩ :=
      addAll_of_sectionTags_nil (t := t₃) (c := c) (List.filterMap_eq_nil_iff.mpr none')
    have top : t₄.enclosing = (opened, t₁.siblings) :: t₁.enclosing := by rw [same₄, same₃, same₂]
    obtain ⟨t₅, added₅, same₅⟩ := add_of_closes (c := c) closes top (key₂.trans key.symm)
    obtain ⟨t₆, added₆, same₆⟩ := after (t := t₅) tags₃
    refine ⟨t₆, ?_, by rw [same₆, same₅, same₁]⟩
    rw [addAll_append added₁, addAll, added₂]
    simp only
    rw [addAll_append added₃, addAll_append added₄, addAll, added₅]
    exact added₆

end Tree

namespace Template

theorem ofSource_of_scan {source : String} {tokens : List Token}
    (scanned : Token.scan source = .ok tokens) (instanceId : Nat) (name : String)
    (split : KeySplitter) :
    ofSource instanceId name source split =
      match Tree.ofTokens ⟨name, source.toList, split⟩ (Token.dropStandalone tokens) with
      | .ok segments => .ok ⟨instanceId, name, segments⟩
      | .error f => .error (.ofSourceFault name f) := by
  rw [ofSource, Tree.ofSource, scanned]
  rfl

theorem ofSource_of_refused {source : String} {f : SourceFault}
    (refused : Token.scan source = .error f) (instanceId : Nat) (name : String) (split : KeySplitter) :
    ofSource instanceId name source split = .error (.ofSourceFault name f) := by
  rw [ofSource, Tree.ofSource, refused]
  rfl

/-- The tokens of a source are built into segments that are made of them, or a section tag is out of
place. -/
theorem ofSource_of_tokens {source : String} {tokens : List Token}
    (scanned : Token.scan source = .ok tokens) (instanceId : Nat) (name : String)
    (split : KeySplitter) :
    (∃ segments, ofSource instanceId name source split = .ok ⟨instanceId, name, segments⟩ ∧
        Segment.Spells source.toList segments (Token.settled tokens)) ∨
      ∃ f, ofSource instanceId name source split = .error (.ofSourceFault name f) ∧
        Tag.Misnested (Token.sectionTags tokens) f := by
  have between (o e : Tag)
      (order : [o, e].Sublist (Token.sectionTags (Token.dropStandalone tokens))) :
      ∃ part, Text.Between source.toList o.stop e.start part := by
    rw [Token.sectionTags_dropStandalone] at order
    exact (Token.covers_of_scan scanned).between_of_sublist order
  rw [ofSource_of_scan scanned]
  rcases Tree.ofTokens_spells (c := ⟨name, source.toList, split⟩) between with
    ⟨segments, built, spelled⟩ | ⟨f, failed, misnested⟩
  · rw [built]
    exact .inl ⟨segments, rfl, spelled⟩
  · rw [failed]
    rw [Token.sectionTags_dropStandalone] at misnested
    exact .inr ⟨f, rfl, misnested⟩

theorem ofSource_of_balanced {source : String} {tokens : List Token}
    (scanned : Token.scan source = .ok tokens) (balanced : Tag.Balanced (Token.sectionTags tokens))
    (instanceId : Nat) (name : String) (split : KeySplitter) :
    ∃ t, ofSource instanceId name source split = .ok t := by
  rw [← Token.sectionTags_dropStandalone] at balanced
  obtain ⟨t, added, closed⟩ :=
    Tree.addAll_of_balanced (c := ⟨name, source.toList, split⟩) (t := Tree.empty) balanced rfl
  rw [ofSource_of_scan scanned, Tree.ofTokens_of_ok added, Tree.finish, closed]
  exact ⟨_, rfl⟩

/-- A template compiles just if its tokens are read and its section tags are balanced. Its segments
are then made of its tokens, and else the fault is reported where the section tags go wrong. -/
theorem ofSource_spells (instanceId : Nat) (name source : String) (split : KeySplitter) :
    ((∃ t, ofSource instanceId name source split = .ok t) ↔
        ∃ tokens, Token.scan source = .ok tokens ∧ Tag.Balanced (Token.sectionTags tokens)) ∧
      ∀ tokens, Token.scan source = .ok tokens →
        (∀ t, ofSource instanceId name source split = .ok t →
          Outline.piecesAll (Segment.outlineAll t.segments) =
              (Token.settled tokens).map Token.piece ∧
            Segment.Spells source.toList t.segments (Token.settled tokens)) ∧
        ∀ err, ofSource instanceId name source split = .error err →
          ∃ f, err = .ofSourceFault name f ∧ Tag.Misnested (Token.sectionTags tokens) f := by
  have built {tokens : List Token} (scanned : Token.scan source = .ok tokens) :=
    ofSource_of_tokens scanned instanceId name split
  refine ⟨⟨?_, ?_⟩, fun tokens scanned => ⟨?_, ?_⟩⟩
  · rintro ⟨t, compiled⟩
    cases scanned : Token.scan source with
    | error f =>
      rw [ofSource_of_refused scanned] at compiled
      cases compiled
    | ok tokens =>
      refine ⟨tokens, rfl, ?_⟩
      rcases built scanned with ⟨segments, _, spelled⟩ | ⟨f, failed, _⟩
      · rw [← Token.sectionTags_settled]
        exact spelled.balanced
      · rw [failed] at compiled
        cases compiled
  · rintro ⟨tokens, scanned, balanced⟩
    exact ofSource_of_balanced scanned balanced instanceId name split
  · intro t compiled
    rcases built scanned with ⟨segments, found, spelled⟩ | ⟨f, failed, _⟩
    · rw [found] at compiled
      cases compiled
      exact ⟨spelled.pieces, spelled⟩
    · rw [failed] at compiled
      cases compiled
  · intro err failed
    rcases built scanned with ⟨segments, found, _⟩ | ⟨f, found, misnested⟩
    · rw [found] at failed
      cases failed
    · rw [found] at failed
      cases failed
      exact ⟨f, rfl, misnested⟩

end Template

end Logicless
