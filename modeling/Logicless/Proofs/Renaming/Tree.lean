import Logicless.Proofs.Renaming.Source
import Logicless.Segment.Tree
import Mathlib.Data.List.Forall2

/-!
# Renaming the templates of a tree

Sources that differ in the names of templates have the same segments, but for these names, or the
same fault (`Tree.ofSource_renames`).
-/

namespace Logicless

/-! ### Lines -/

namespace Token

variable {ρ : String → String} {source source' : List Char} {pair : Token × Token}
  {pairs : List (Token × Token)}

theorem Alike.endsLine (h : Alike ρ pair) : pair.2.endsLine = pair.1.endsLine := by
  cases h <;> rfl

theorem Alike.isTag (h : Alike ρ pair) : pair.2.isTag = pair.1.isTag := by
  cases h <;> rfl

theorem Alike.isBlank (h : Alike ρ pair) : pair.2.isBlank = pair.1.isBlank := by
  cases h <;> rfl

theorem Alike.kind (h : Alike ρ pair) : pair.2.tag?.map (·.kind) = pair.1.tag?.map (·.kind) := by
  cases h with
  | text s line => rfl
  | tag kind _ _ => exact congrArg some kind

/-- Whether a line is standalone depends on the kinds of its tags. -/
theorem isStandalone_eq (line : List Token) : isStandalone line =
    match line.filterMap fun token => token.tag?.map (·.kind) with
    | [kind] => kind.standsAlone && (line.map fun token => token.isTag || token.isBlank).all id
    | _ => false := by
  have kinds : (line.filterMap fun token => token.tag?.map (·.kind)) =
      (line.filterMap tag?).map (·.kind) := by
    rw [List.map_filterMap]
  rw [isStandalone, kinds, List.all_map]
  match line.filterMap tag? with
  | [] => rfl
  | [t] => rfl
  | _ :: _ :: _ => rfl

theorem isStandalone_alike (alike : ∀ pair ∈ pairs, Alike ρ pair) :
    isStandalone (pairs.map (·.2)) = isStandalone (pairs.map (·.1)) := by
  have kinds : (pairs.map (·.2)).filterMap (fun token => token.tag?.map (·.kind)) =
      (pairs.map (·.1)).filterMap fun token => token.tag?.map (·.kind) := by
    rw [List.filterMap_map, List.filterMap_map]
    exact List.filterMap_congr fun pair member => (alike pair member).kind
  have blanks : (pairs.map (·.2)).map (fun token => token.isTag || token.isBlank) =
      (pairs.map (·.1)).map fun token => token.isTag || token.isBlank := by
    rw [List.map_map, List.map_map]
    refine List.map_congr_left fun pair member => ?_
    rw [Function.comp_apply, Function.comp_apply, (alike pair member).isTag, (alike pair member).isBlank]
  rw [isStandalone_eq, isStandalone_eq, kinds, blanks]

theorem tags_filter (pairs : List (Token × Token)) : tags (pairs.filter fun pair => pair.1.isTag) = tags pairs := by
  rw [tags, List.filterMap_filter]
  refine List.filterMap_congr fun pair _ => ?_
  obtain ⟨_ | _, _⟩ := pair <;> rfl

/-- A line keeps the same of its tokens, and all of its tags. -/
theorem keepLine_alike (alike : ∀ pair ∈ pairs, Alike ρ pair) :
    ∃ kept : List (Token × Token), kept ⊆ pairs ∧ tags kept = tags pairs ∧
      kept.map (·.1) = keepLine (pairs.map (·.1)) ∧ kept.map (·.2) = keepLine (pairs.map (·.2)) := by
  rw [keepLine, keepLine, isStandalone_alike alike]
  split
  · refine ⟨pairs.filter fun pair => pair.1.isTag, List.filter_subset_self pairs, tags_filter pairs, ?_, ?_⟩
    · rw [List.filter_map]
      rfl
    · rw [List.filter_map]
      rw [List.filter_congr fun pair member => (alike pair member).isTag.symm]
      rfl
  · exact ⟨pairs, fun _ h => h, rfl, rfl, rfl⟩

theorem keepLines_alike {lines : List (List (Token × Token))}
    (alike : ∀ line ∈ lines, ∀ pair ∈ line, Alike ρ pair) :
    ∃ kept : List (Token × Token), kept ⊆ lines.flatten ∧ tags kept = tags lines.flatten ∧
      kept.map (·.1) = (lines.map (List.map (·.1))).flatMap keepLine ∧
      kept.map (·.2) = (lines.map (List.map (·.2))).flatMap keepLine := by
  induction lines with
  | nil => exact ⟨[], fun _ h => h, rfl, rfl, rfl⟩
  | cons line rest ih =>
    obtain ⟨first, sub, same, fst, snd⟩ := keepLine_alike (alike line List.mem_cons_self)
    obtain ⟨later, sub', same', fst', snd'⟩ := ih fun l member => alike l (List.mem_cons_of_mem line member)
    refine ⟨first ++ later, ?_, ?_, ?_, ?_⟩
    · exact List.append_subset.mpr ⟨List.subset_append_of_subset_left _ sub,
        List.subset_append_of_subset_right _ sub'⟩
    · rw [List.flatten_cons, tags_append, tags_append, same, same']
    · rw [List.map_append, fst, fst']
      rfl
    · rw [List.map_append, snd, snd']
      rfl

/-- What is left without the standalone lines. -/
theorem Paired.dropStandalone (paired : Paired ρ source source' pairs) :
    ∃ kept, Paired ρ source source' kept ∧ kept.map (·.1) = Token.dropStandalone (pairs.map (·.1)) ∧
      kept.map (·.2) = Token.dropStandalone (pairs.map (·.2)) := by
  have whole := flatten_splitAfter (fun pair : Token × Token => pair.1.endsLine) pairs
  have alike : ∀ line ∈ splitAfter (fun pair : Token × Token => pair.1.endsLine) pairs,
      ∀ pair ∈ line, Alike ρ pair := fun line within pair member =>
    paired.alike pair (whole ▸ List.mem_flatten.mpr ⟨line, within, member⟩)
  obtain ⟨kept, sub, same, fst, snd⟩ := keepLines_alike alike
  refine ⟨kept, paired.thin (whole ▸ sub) (by rw [same, whole]), ?_, ?_⟩
  · rw [fst, Token.dropStandalone, lines, splitAfter_map]
  · rw [snd, Token.dropStandalone, lines, splitAfter_map,
      splitAfter_congr fun pair member => (paired.alike pair member).endsLine]

end Token

/-! ### Segments -/

structure Origin.Renames (named : String → String → Prop) (o o' : Origin) : Prop where
  template : named o.template o'.template
  line : o'.line = o.line
  index : o'.index = o.index

structure ValueTag.Renames (named : String → String → Prop) (t t' : ValueTag) : Prop where
  text : t'.text = t.text
  origin : t.origin.Renames named t'.origin
  unescaped : t'.unescaped = t.unescaped
  parts : t'.parts = t.parts

structure SectionTag.Renames (ρ : String → String) (named : String → String → Prop)
    (t t' : SectionTag) : Prop where
  inverted : t'.inverted = t.inverted
  text : t'.text = t.text
  origin : t.origin.Renames named t'.origin
  parts : t'.parts = t.parts
  content : ∃ d, Token.Renames ρ d t.content.toList t'.content.toList

/-- Another template is included at the segment, or within it. -/
inductive Segment.Includes : Segment → Prop where
  | inclusion (name : String) (origin : Origin) : Includes (.inclusion name origin)
  | block {tag : SectionTag} {children : List Segment} {child : Segment} (member : child ∈ children)
      (inside : child.Includes) : Includes (.block tag children)

/-- The segments are the same, but for the names of templates. The source of a section is the same, if
it includes no templates. -/
inductive Segment.Renames (ρ : String → String) (named : String → String → Prop) :
    Segment → Segment → Prop where
  | text {o o' : Origin} (s : String) (origin : o.Renames named o') : Renames ρ named (.text s o) (.text s o')
  | value {t t' : ValueTag} (tag : t.Renames named t') : Renames ρ named (.value t) (.value t')
  | block {t t' : SectionTag} {children children' : List Segment} (tag : t.Renames ρ named t')
      (inside : List.Forall₂ (Renames ρ named) children children')
      (plain : (∀ child ∈ children, ¬ child.Includes) → t'.content = t.content) :
      Renames ρ named (.block t children) (.block t' children')
  | inclusion {o o' : Origin} (name : String) (origin : o.Renames named o') :
      Renames ρ named (.inclusion name o) (.inclusion (ρ name) o')
  | comment {o o' : Origin} (s : String) (origin : o.Renames named o') :
      Renames ρ named (.comment s o) (.comment s o')

namespace Tree

open Token (Paired Alike)

variable {ρ : String → String} {named : String → String → Prop} {source source' : List Char}

/-- Sections that are open. The tags that are still to come end them with texts that stand for each
other. `plain` is that no templates have been included since the section was opened. -/
structure OpenAlike (ρ : String → String) (source source' : List Char) (coming : List (Token × Token))
    (plain : Prop) (o o' : OpenSection) : Prop where
  inverted : o'.inverted = o.inverted
  key : o'.key = o.key
  line : o'.line = o.line
  index : o'.index = o.index
  content : ∀ within c after, Token.tags coming = within ++ c :: after →
    ∃ d, Token.Renames ρ d (Text.slice source o.contentStart c.1.start)
        (Text.slice source' o'.contentStart c.2.start) ∧
      (plain → Token.Plain within →
        Text.slice source' o'.contentStart c.2.start = Text.slice source o.contentStart c.1.start)

inductive Enclosing (ρ : String → String) (named : String → String → Prop) (source source' : List Char)
    (coming : List (Token × Token)) :
    Prop → List (OpenSection × List Segment) → List (OpenSection × List Segment) → Prop where
  | nil {plain : Prop} : Enclosing ρ named source source' coming plain [] []
  | cons {plain : Prop} {o o' : OpenSection} {before before' : List Segment}
      {outer outer' : List (OpenSection × List Segment)}
      (alike : OpenAlike ρ source source' coming plain o o')
      (siblings : List.Forall₂ (Segment.Renames ρ named) before before')
      (further : Enclosing ρ named source source' coming (plain ∧ ∀ s ∈ before, ¬ s.Includes) outer outer') :
      Enclosing ρ named source source' coming plain ((o, before) :: outer) ((o', before') :: outer')

structure Renames (ρ : String → String) (named : String → String → Prop) (source source' : List Char)
    (coming : List (Token × Token)) (t t' : Tree) : Prop where
  siblings : List.Forall₂ (Segment.Renames ρ named) t.siblings t'.siblings
  enclosing : Enclosing ρ named source source' coming (∀ s ∈ t.siblings, ¬ s.Includes) t.enclosing
    t'.enclosing
  numbered : t'.numbered = t.numbered

variable {coming : List (Token × Token)} {t t' : Tree} {c c' : Setting}

/-- Less is still to come. What has come since is no partial tag, if `later` holds. -/
theorem Enclosing.mono {plain later : Prop} {fewer : List (Token × Token)} (gone : List (Tag × Tag))
    {outer outer' : List (OpenSection × List Segment)}
    (h : Enclosing ρ named source source' coming plain outer outer')
    (same : Token.tags coming = gone ++ Token.tags fewer) (sooner : later → plain ∧ Token.Plain gone) :
    Enclosing ρ named source source' fewer later outer outer' := by
  induction h generalizing later with
  | nil => exact .nil
  | cons alike siblings _ ih =>
    refine .cons ⟨alike.inverted, alike.key, alike.line, alike.index, ?_⟩ siblings
      (ih fun ⟨h, clear⟩ => ⟨⟨(sooner h).1, clear⟩, (sooner h).2⟩)
    intro within c after further
    obtain ⟨d, renames, equal⟩ := alike.content (gone ++ within) c after
      (by rw [same, further, List.append_assoc])
    refine ⟨d, renames, fun h clear => equal (sooner h).1 fun p member => ?_⟩
    rcases List.mem_append.mp member with member | member
    · exact (sooner h).2 p member
    · exact clear p member

structure SettingAlike (named : String → String → Prop) (source source' : List Char) (c c' : Setting) :
    Prop where
  template : named c.template c'.template
  source : c.source = source
  source' : c'.source = source'
  split : c'.split = c.split

theorem addText_renames (setting : SettingAlike named source source' c c')
    (h : Renames ρ named source source' coming t t') (s : String) (line : Nat) :
    Renames ρ named source source' coming (t.addText c s line) (t'.addText c' s line) := by
  obtain ⟨siblings, enclosing, numbered⟩ := h
  obtain ⟨first, before, n⟩ := t
  obtain ⟨first', before', n'⟩ := t'
  obtain rfl : n' = n := numbered
  have fresh : Renames ρ named source source' coming
      ⟨.text s ⟨c.template, line, n' + 1⟩ :: first, before, n' + 1⟩
      ⟨.text s ⟨c'.template, line, n' + 1⟩ :: first', before', n' + 1⟩ :=
    ⟨.cons (.text s ⟨setting.template, rfl, rfl⟩) siblings,
      enclosing.mono [] rfl fun clear => ⟨(List.forall_mem_cons.mp clear).2, List.forall_mem_nil _⟩, rfl⟩
  cases siblings with
  | nil => exact fresh
  | cons head tail =>
    cases head with
    | text s' origin =>
      refine ⟨.cons (.text (s' ++ s) origin) tail, enclosing.mono [] rfl fun clear => ?_, rfl⟩
      exact ⟨List.forall_mem_cons.mpr ⟨nofun, (List.forall_mem_cons.mp clear).2⟩, List.forall_mem_nil _⟩
    | _ => exact fresh

section

variable {tag tag' : Tag} (h : Renames ρ named source source' ((.tag tag, .tag tag') :: coming) t t')

include h

theorem addLeaf_renames (setting : SettingAlike named source source' c c') (line : Nat)
    {leaf leaf' : Origin → Segment} (included : tag.kind = .inclusion → ∀ o, (leaf o).Includes)
    (leaves : ∀ {o o'}, Origin.Renames named o o' → Segment.Renames ρ named (leaf o) (leaf' o')) :
    Renames ρ named source source' coming (t.addLeaf c line leaf) (t'.addLeaf c' line leaf') := by
  have origin : Origin.Renames named ⟨c.template, line, t.numbered + 1⟩
      ⟨c'.template, line, t'.numbered + 1⟩ := ⟨setting.template, rfl, by rw [h.numbered]⟩
  refine ⟨.cons (leaves origin) h.siblings, ?_, by rw [addLeaf, addLeaf, h.numbered]⟩
  refine h.enclosing.mono [(tag, tag')] (Token.tags_tag tag tag' coming) fun clear => ?_
  obtain ⟨here, clear⟩ := List.forall_mem_cons.mp clear
  exact ⟨clear, List.forall_mem_singleton.mpr fun kind => here (included kind _)⟩

theorem skip_renames (kind : tag.kind ≠ .inclusion) : Renames ρ named source source' coming t t' :=
  ⟨h.siblings, h.enclosing.mono [(tag, tag')] (Token.tags_tag tag tag' coming) fun clear =>
    ⟨clear, List.forall_mem_singleton.mpr kind⟩, h.numbered⟩

theorem closeSection_renames (setting : SettingAlike named source source' c c') (kind : tag.kind ≠ .inclusion)
    (content : tag'.content = tag.content) (line : tag'.line = tag.line) :
    Correspond Eq (Renames ρ named source source' coming) (t.closeSection c tag)
      (t'.closeSection c' tag') := by
  obtain ⟨siblings, enclosing, numbered⟩ := h
  obtain ⟨first, outer, n⟩ := t
  obtain ⟨first', outer', n'⟩ := t'
  unfold closeSection
  rw [content, line]
  cases enclosing with
  | nil => exact .error rfl
  | @cons _ o o' before before' _ _ alike preceding further =>
    obtain ⟨inverted, key, opened, index, start⟩ := o
    obtain ⟨inverted', key', opened', index', start'⟩ := o'
    obtain ⟨rfl, rfl, rfl, rfl, inside⟩ := alike
    obtain ⟨d, renames, same⟩ := inside [] (tag, tag') _ (Token.tags_tag tag tag' coming)
    simp only
    split
    · have closed : SectionTag.Renames ρ named
          ⟨inverted', key', ⟨c.template, opened', index'⟩, c.split key',
            String.ofList (Text.slice c.source start tag.start)⟩
          ⟨inverted', key', ⟨c'.template, opened', index'⟩, c'.split key',
            String.ofList (Text.slice c'.source start' tag'.start)⟩ := by
        refine ⟨rfl, rfl, ⟨setting.template, rfl, rfl⟩, by rw [setting.split], d, ?_⟩
        simp only [setting.source, setting.source', String.toList_ofList]
        exact renames
      refine .ok ⟨.cons (.block closed (List.rel_reverse siblings) fun clear => ?_) preceding, ?_, numbered⟩
      · have clear : ∀ s ∈ first, ¬ s.Includes := fun s member => clear s (List.mem_reverse.mpr member)
        simp only [setting.source, setting.source']
        rw [same clear (List.forall_mem_nil _)]
      · refine further.mono [(tag, tag')] (Token.tags_tag tag tag' coming) fun clear => ?_
        obtain ⟨block, clear⟩ := List.forall_mem_cons.mp clear
        refine ⟨⟨fun s member includes => ?_, clear⟩, List.forall_mem_singleton.mpr kind⟩
        exact block (.block (List.mem_reverse.mpr member) includes)
    · exact .error rfl

/-- What stands between the tag and those that are still to come. -/
theorem openSection_renames (inverted : Bool) (kind : tag.kind ≠ .inclusion)
    (content : tag'.content = tag.content) (line : tag'.line = tag.line)
    (ends : ∀ within c after, Token.tags coming = within ++ c :: after →
      ∃ d, Token.Renames ρ d (Text.slice source tag.stop c.1.start) (Text.slice source' tag'.stop c.2.start) ∧
        (Token.Plain within →
          Text.slice source' tag'.stop c.2.start = Text.slice source tag.stop c.1.start)) :
    Renames ρ named source source' coming (t.openSection inverted tag) (t'.openSection inverted tag') := by
  obtain ⟨siblings, enclosing, numbered⟩ := h
  have index : t'.numbered + 1 = t.numbered + 1 := by rw [numbered]
  refine ⟨.nil, .cons ⟨rfl, content, line, index, fun within c after same => ?_⟩ siblings ?_, index⟩
  · obtain ⟨d, renames, equal⟩ := ends within c after same
    exact ⟨d, renames, fun _ => equal⟩
  · exact enclosing.mono [(tag, tag')] (Token.tags_tag tag tag' coming) fun clear =>
      ⟨clear.2, List.forall_mem_singleton.mpr kind⟩

theorem addTag_renames (setting : SettingAlike named source source' c c')
    (alike : Alike ρ (.tag tag, .tag tag'))
    (ends : ∀ within c after, Token.tags coming = within ++ c :: after →
      ∃ d, Token.Renames ρ d (Text.slice source tag.stop c.1.start) (Text.slice source' tag'.stop c.2.start) ∧
        (Token.Plain within →
          Text.slice source' tag'.stop c.2.start = Text.slice source tag.stop c.1.start)) :
    Correspond Eq (Renames ρ named source source' coming) (t.addTag c tag) (t'.addTag c' tag') := by
  cases alike with
  | tag kind content line =>
    have same (other : tag.kind ≠ .inclusion) : tag'.content = tag.content := by
      rw [content, Token.renamedContent, if_neg other]
    have value (other : tag.kind ≠ .inclusion) (unescaped : Bool) :
        Renames ρ named source source' coming
          (t.addLeaf c tag.line fun o => .value ⟨tag.content, o, unescaped, c.split tag.content⟩)
          (t'.addLeaf c' tag.line fun o => .value ⟨tag'.content, o, unescaped, c'.split tag'.content⟩) := by
      refine addLeaf_renames h setting _ (fun inclusion => absurd inclusion other) fun origin =>
        .value ⟨same other, origin, rfl, ?_⟩
      rw [setting.split, same other]
    unfold addTag
    simp only [kind, line]
    cases which : tag.kind with
    | inclusion =>
      rw [content, Token.renamedContent, if_pos which]
      exact .ok (addLeaf_renames h setting _ (fun _ o => .inclusion _ o) fun origin => .inclusion _ origin)
    | escaped => exact .ok (value (by simp [which]) false)
    | unescaped => exact .ok (value (by simp [which]) true)
    | sectionStart =>
      have other : tag.kind ≠ .inclusion := by simp [which]
      exact .ok (openSection_renames h false other (same other) line ends)
    | invertedStart =>
      have other : tag.kind ≠ .inclusion := by simp [which]
      exact .ok (openSection_renames h true other (same other) line ends)
    | sectionEnd =>
      have other : tag.kind ≠ .inclusion := by simp [which]
      exact closeSection_renames h setting other (same other) line
    | comment =>
      have other : tag.kind ≠ .inclusion := by simp [which]
      rw [same other]
      exact .ok (addLeaf_renames h setting _ (fun inclusion => absurd inclusion other) fun origin =>
        .comment _ origin)
    | delimiters => exact .ok (skip_renames h (by simp [which]))

end

theorem addAll_renames (setting : SettingAlike named source source' c c') {pairs : List (Token × Token)}
    (paired : Paired ρ source source' pairs) (h : Renames ρ named source source' pairs t t') :
    Correspond Eq (Renames ρ named source source' []) (addAll c (pairs.map (·.1)) t)
      (addAll c' (pairs.map (·.2)) t') := by
  induction pairs generalizing t t' with
  | nil => exact .ok h
  | cons pair rest ih =>
    have alike := paired.alike pair List.mem_cons_self
    obtain ⟨token, token'⟩ := pair
    have added : Correspond Eq (Renames ρ named source source' rest) (t.add c token)
        (t'.add c' token') := by
      cases alike with
      | text s line =>
        have h : Renames ρ named source source' rest t t' :=
          ⟨h.siblings, h.enclosing.mono [] (Token.tags_text s s line line rest) fun clear =>
            ⟨clear, List.forall_mem_nil _⟩, h.numbered⟩
        exact .ok (addText_renames setting h s line)
      | @tag tag tag' kind content line =>
        refine addTag_renames h setting (.tag kind content line) fun within c after same => ?_
        obtain ⟨d, part, part', ⟨renames, plain⟩, here, here'⟩ :=
          paired.between [] (tag, tag') within c after (by rw [Token.tags_tag, same]; rfl)
        rw [here.slice_eq, here'.slice_eq]
        exact ⟨d, renames, plain⟩
    simp only [List.map_cons, addAll]
    generalize t.add c token = r, t'.add c' token' = r' at added ⊢
    cases added with
    | ok h => exact ih paired.tail h
    | error same => exact .error same

theorem finish_renames (h : Renames ρ named source source' coming t t') :
    Correspond Eq (List.Forall₂ (Segment.Renames ρ named)) t.finish t'.finish := by
  obtain ⟨siblings, enclosing, numbered⟩ := h
  obtain ⟨first, outer, n⟩ := t
  obtain ⟨first', outer', n'⟩ := t'
  unfold finish
  cases enclosing with
  | nil => exact .ok (List.rel_reverse siblings)
  | cons alike _ _ =>
    refine .error ?_
    simp only [alike.key, alike.line]

/-- The segments of a renamed source. -/
theorem ofSource_renames {source source' : String} {name name' : String} (split : KeySplitter)
    (h : Source.Renames ρ source source') (names : named name name') :
    Correspond Eq (List.Forall₂ (Segment.Renames ρ named)) (ofSource name source split)
      (ofSource name' source' split) := by
  have setting : SettingAlike named source.toList source'.toList ⟨name, source.toList, split⟩
      ⟨name', source'.toList, split⟩ := ⟨names, rfl, rfl, rfl⟩
  unfold ofSource
  have scanned := Token.scan_renames h
  generalize Token.scan source = r, Token.scan source' = r' at scanned ⊢
  cases scanned with
  | error same => exact .error same
  | ok both =>
    obtain ⟨pairs, rfl, rfl, paired⟩ := both
    obtain ⟨kept, paired, fst, snd⟩ := paired.dropStandalone
    have nothing : Renames ρ named source.toList source'.toList kept empty empty := ⟨.nil, .nil, rfl⟩
    have added := addAll_renames setting paired nothing
    change Correspond Eq _ (ofTokens _ (Token.dropStandalone _)) (ofTokens _ (Token.dropStandalone _))
    rw [← fst, ← snd]
    unfold ofTokens
    generalize addAll _ (kept.map (·.1)) empty = r, addAll _ (kept.map (·.2)) empty = r' at added ⊢
    cases added with
    | ok h => exact finish_renames h
    | error same => exact .error same

/-- A source without partial tags has the same segments under another name. -/
theorem ofSource_nameless {source name name' : String} (split : KeySplitter)
    (nameless : Token.Nameless source) (names : named name name') :
    Correspond Eq (List.Forall₂ (Segment.Renames ρ named)) (ofSource name source split)
      (ofSource name' source split) := by
  cases scanned : Token.scan source with
  | error f =>
    unfold ofSource
    rw [scanned]
    exact .error rfl
  | ok tokens =>
    exact ofSource_renames split (Token.renames_of_nameless ρ scanned (nameless tokens scanned)) names

end Tree

end Logicless
