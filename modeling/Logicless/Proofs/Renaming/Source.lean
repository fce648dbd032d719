import Logicless.Proofs.Reading

/-!
# Renaming the templates of a source

A renaming of templates replaces the names in the partial tags of a source (`Token.Renames`). The
tokens of the new source are those of the old one with other names (`Token.scan_renames`).
-/

namespace Logicless

inductive Correspond {E E' α α' : Type} (bad : E → E' → Prop) (good : α → α' → Prop) :
    Except E α → Except E' α' → Prop where
  | ok {a : α} {a' : α'} (h : good a a') : Correspond bad good (.ok a) (.ok a')
  | error {err : E} {err' : E'} (h : bad err err') : Correspond bad good (.error err) (.error err')

theorem Correspond.elim {E E' α α' : Type} {bad : E → E' → Prop} {good : α → α' → Prop} {r : Except E α}
    {r' : Except E' α'} (h : Correspond bad good r r') :
    (∃ err err', r = .error err ∧ r' = .error err' ∧ bad err err') ∨
      ∃ a a', r = .ok a ∧ r' = .ok a' ∧ good a a' := by
  cases h with
  | ok h => exact Or.inr ⟨_, _, rfl, rfl, h⟩
  | error h => exact Or.inl ⟨_, _, rfl, rfl, h⟩

/-! ### Tags -/

structure Delimiters.Takes (d : Delimiters) (name : String) : Prop where
  nonempty : name ≠ ""
  trimmed : Text.Trimmed name.toList
  free : ∀ c ∈ name.toList, c ∉ d.closing

/-- The blanks of a partial tag: before its sigil, and on both sides of its name. -/
structure Padding where
  sigil : List Char
  left : List Char
  right : List Char
  blank : ∀ c ∈ sigil ++ left ++ right, Text.isBlank c = true

def Padding.body (p : Padding) (d : Delimiters) (name : String) : List Char :=
  p.sigil ++ '>' :: p.left ++ (name.toList ++ p.right) ++ d.closing

namespace Tag

variable {d : Delimiters} {after : List Char}

/-- A partial tag is read with another name in it. -/
theorem read_renamed {r : Reading after} (h : read d after = .ok r) (kind : r.kind = .inclusion)
    {p : Padding} (body : r.body = p.body d (String.ofList r.content)) {name : String}
    (takes : d.Takes name) (tail : List Char) :
    ∃ r' : Reading (p.body d name ++ tail), read d (p.body d name ++ tail) = .ok r' ∧
      r'.kind = .inclusion ∧ r'.content = name.toList ∧ r'.delimiters = d ∧
      r'.body = p.body d name ∧ r'.rest = tail := by
  obtain ⟨triple, raw, q, cut, same, tells⟩ := read_tells h
  rcases split?_ok cut with ⟨rfl, _⟩ | ⟨rfl, _, whole, cut⟩
  · have label := tells.label
    rw [if_pos rfl, kind] at label
    cases label
  · have nonempty : name.toList ≠ [] := fun empty => takes.nonempty (String.toList_eq_nil_iff.mp empty)
    have sigil (c : Char) (member : c ∈ p.sigil) : Text.isBlank c = true := p.blank c (by simp [member])
    have left (c : Char) (member : c ∈ p.left) : Text.isBlank c = true := p.blank c (by simp [member])
    have right (c : Char) (member : c ∈ p.right) : Text.isBlank c = true := p.blank c (by simp [member])
    obtain rfl : raw = p.sigil ++ '>' :: p.left ++ (r.content ++ p.right) := by
      rw [same, body, Padding.body, String.toList_ofList] at whole
      exact (List.append_cancel_right whole).symm
    have cut := Text.splitAt?_replace d.closing_ne nonempty takes.free cut tail
    have plain : ∀ c ∈ (p.sigil ++ '>' :: p.left ++ (name.toList ++ p.right) ++
        (d.closing ++ tail)).head?, c ≠ '{' := by
      cases first : p.sigil with
      | nil => simp
      | cons b bs =>
        have blank := sigil b (by simp [first])
        rintro c ⟨⟩ rfl
        exact absurd blank (by decide)
    obtain ⟨q', cut, same'⟩ := split?_plain (fun _ => plain) cut
    have trimmed : Text.trim (p.sigil ++ '>' :: p.left ++ (name.toList ++ p.right)) =
        '>' :: (p.left ++ name.toList) := by
      have inner : Text.Trimmed ('>' :: (p.left ++ name.toList)) := by
        refine ⟨by simp [show Text.isBlank '>' = false by decide], fun c last => takes.trimmed.2 c ?_⟩
        rw [← List.cons_append, List.getLast?_append, List.getLast?_eq_some_getLast nonempty] at last
        rwa [List.getLast?_eq_some_getLast nonempty]
      rw [show p.sigil ++ '>' :: p.left ++ (name.toList ++ p.right) =
        p.sigil ++ ('>' :: (p.left ++ name.toList) ++ p.right) by simp]
      exact Text.trim_pad sigil right inner (List.cons_ne_nil _ _)
    have tells : Tells d false (p.sigil ++ '>' :: p.left ++ (name.toList ++ p.right)) .inclusion
        name.toList d := by
      refine ⟨?_, fun empty => absurd empty nonempty, rfl⟩
      have nothing : ∀ c ∈ ([] : List Char), Text.isBlank c = true := nofun
      have content := Text.trim_pad left nothing takes.trimmed nonempty
      rw [List.append_nil] at content
      rw [if_neg Bool.false_ne_true, trimmed, classify, content]
    have text : p.body d name ++ tail =
        p.sigil ++ '>' :: p.left ++ (name.toList ++ p.right) ++ (d.closing ++ tail) := by
      rw [Padding.body, List.append_assoc _ d.closing]
    rw [text]
    exact ⟨_, read_of_tells cut tells, rfl, rfl, rfl, congrArg Prod.fst same', congrArg Prod.snd same'⟩

end Tag

/-! ### Sources -/

namespace Token

/-- A source that goes on with the delimiters, and what it becomes when templates are renamed. Names
are replaced by names that can stand in the same tag, on as many lines. What follows a tag that cannot
be read stays as it is. -/
inductive Renames (ρ : String → String) : Delimiters → List Char → List Char → Prop where
  | text {d : Delimiters} {cs : List Char} (missing : Text.splitAt? d.opening cs = none) :
      Renames ρ d cs cs
  | refused {d : Delimiters} {cs before after : List Char} {fault : Fault}
      (cut : Text.splitAt? d.opening cs = some (before, after)) (refused : Tag.read d after = .error fault) :
      Renames ρ d cs cs
  | kept {d : Delimiters} {cs before after rest : List Char} {r : Tag.Reading after}
      (cut : Text.splitAt? d.opening cs = some (before, after)) (read : Tag.read d after = .ok r)
      (same : r.kind = .inclusion → ρ (String.ofList r.content) = String.ofList r.content)
      (further : Renames ρ r.delimiters r.rest rest) :
      Renames ρ d cs (before ++ (d.opening ++ (r.body ++ rest)))
  | renamed {d : Delimiters} {cs before after rest : List Char} {r : Tag.Reading after} {p : Padding}
      (cut : Text.splitAt? d.opening cs = some (before, after)) (read : Tag.read d after = .ok r)
      (kind : r.kind = .inclusion) (body : r.body = p.body d (String.ofList r.content))
      (takes : d.Takes (ρ (String.ofList r.content)))
      (lines : newlines (ρ (String.ofList r.content)).toList = newlines r.content)
      (further : Renames ρ r.delimiters r.rest rest) :
      Renames ρ d cs (before ++ (d.opening ++ (p.body d (ρ (String.ofList r.content)) ++ rest)))

variable {ρ : String → String} {d : Delimiters} {cs cs' before after : List Char}

def renamedContent (ρ : String → String) (kind : TagKind) (content : String) : String :=
  if kind = .inclusion then ρ content else content

structure Counterparts (ρ : String → String) (d : Delimiters) (before : List Char)
    {after after' : List Char} (r : Tag.Reading after) (r' : Tag.Reading after') : Prop where
  kind : r'.kind = r.kind
  content : String.ofList r'.content = renamedContent ρ r.kind (String.ofList r.content)
  delimiters : r'.delimiters = r.delimiters
  lines : newlines r'.body = newlines r.body
  body : r.kind ≠ .inclusion → r'.body = r.body
  further : Renames ρ r.delimiters r.rest r'.rest
  /-- The tags stand for each other whatever is between them and the end. -/
  part : ∀ {cs cs'}, Renames ρ r.delimiters cs cs' →
    Renames ρ d (before ++ (d.opening ++ (r.body ++ cs))) (before ++ (d.opening ++ (r'.body ++ cs')))

/-- Where the one source has a tag, so has the other. -/
theorem Renames.counterpart (h : Renames ρ d cs cs')
    (cut : Text.splitAt? d.opening cs = some (before, after)) {r : Tag.Reading after}
    (read : Tag.read d after = .ok r) :
    ∃ (after' : List Char) (r' : Tag.Reading after'), Text.splitAt? d.opening cs' = some (before, after') ∧
      Tag.read d after' = .ok r' ∧ Counterparts ρ d before r r' := by
  have retail (tail : List Char) : ∃ r'' : Tag.Reading (r.body ++ tail),
      Text.splitAt? d.opening (before ++ (d.opening ++ (r.body ++ tail))) = some (before, r.body ++ tail) ∧
      Tag.read d (r.body ++ tail) = .ok r'' ∧ r''.kind = r.kind ∧ r''.content = r.content ∧
      r''.delimiters = r.delimiters ∧ r''.body = r.body ∧ r''.rest = tail := by
    obtain ⟨r'', found⟩ := Tag.read_retail read tail
    exact ⟨r'', Text.splitAt?_retail d.opening_ne cut _, found⟩
  cases h with
  | text missing =>
    rw [missing] at cut
    cases cut
  | refused cut' refused =>
    rw [cut'] at cut
    cases cut
    rw [refused] at read
    cases read
  | @kept _ _ _ _ rest _ cut' read' same further =>
    rw [cut'] at cut
    cases cut
    rw [read'] at read
    cases read
    obtain ⟨r', cut, found, kind, content, delimiters, body, rest⟩ := retail rest
    refine ⟨_, r', cut, found, kind, ?_, delimiters, by rw [body], fun _ => body,
      by rw [rest]; exact further, ?_⟩
    · rw [content, renamedContent]
      split
      · next inclusion => exact (same inclusion).symm
      · rfl
    · intro cs cs' renames
      obtain ⟨r'', cut, found, kind, content, delimiters, body', rest⟩ := retail cs
      have again := Renames.kept cut found (by rw [kind, content]; exact same)
        (by rw [delimiters, rest]; exact renames)
      rw [body]
      rwa [body'] at again
  | @renamed _ _ _ _ rest _ p cut' read' kind body takes lines further =>
    rw [cut'] at cut
    cases cut
    rw [read'] at read
    cases read
    have unchanged : r.delimiters = d := by
      have changes := (Tag.read_ok read').2
      rwa [if_neg (by rw [kind]; decide)] at changes
    obtain ⟨r', found, kind', content, delimiters, body', rest⟩ := Tag.read_renamed read' kind body takes rest
    refine ⟨_, r', Text.splitAt?_retail d.opening_ne cut' _, found, kind'.trans kind.symm, ?_,
      delimiters.trans unchanged.symm, ?_, fun other => absurd kind other, by rw [rest]; exact further, ?_⟩
    · rw [content, String.ofList_toList, renamedContent, if_pos kind]
    · rw [body', body]
      simp only [Padding.body, newlines_append, lines, String.toList_ofList]
    · intro cs cs' renames
      obtain ⟨r'', cut, found, kind'', content, delimiters, body'', rest⟩ := retail cs
      have again := Renames.renamed (p := p) cut found (kind''.trans kind)
        (by rw [body'', content, body]) (by rw [content]; exact takes) (by rw [content]; exact lines)
        (by rw [delimiters, rest]; exact renames)
      rw [body']
      rwa [content] at again

/-- Where no tag can be read, the sources are the same. -/
theorem Renames.eq_of_unread (h : Renames ρ d cs cs')
    (unread : ∀ before after, Text.splitAt? d.opening cs = some (before, after) →
      ∃ fault, Tag.read d after = .error fault) : cs' = cs := by
  have absurd {before after : List Char} {r : Tag.Reading after}
      (cut : Text.splitAt? d.opening cs = some (before, after)) (read : Tag.read d after = .ok r) :
      False := by
    obtain ⟨fault, refused⟩ := unread _ _ cut
    rw [read] at refused
    cases refused
  cases h with
  | text _ => rfl
  | refused _ _ => rfl
  | kept cut read _ _ => exact (absurd cut read).elim
  | renamed cut read _ _ _ _ _ => exact (absurd cut read).elim

def Nameless (source : String) : Prop :=
  ∀ tokens, scan source = .ok tokens → ∀ t, tag t ∈ tokens → t.kind ≠ .inclusion

theorem nameless_of_text {source : String}
    (missing : Text.splitAt? Delimiters.standard.opening source.toList = none) : Nameless source := by
  intro tokens scanned t member
  have text : scan source = .ok (ofText 1 source.toList) := scanFrom_of_none 0 1 missing
  rw [text] at scanned
  cases scanned
  obtain ⟨_, _, same⟩ := List.mem_mapIdx.mp member
  cases same

/-- What has no partial tags stays as it is. -/
theorem renames_of_nameless (ρ : String → String) {offset line : Nat} {tokens : List Token}
    (scanned : scanFrom d offset line cs = .ok tokens)
    (nameless : ∀ t, tag t ∈ tokens → t.kind ≠ .inclusion) : Renames ρ d cs cs := by
  induction d, cs using scan_induction generalizing offset line tokens with
  | text cut => exact .text cut
  | refused cut result => exact .refused cut result
  | @read _ _ _ _ r cut result ih =>
    rw [scanFrom_of_read _ _ cut result] at scanned
    generalize further : scanFrom r.delimiters _ _ r.rest = rest at scanned
    cases rest with
    | error f => cases scanned
    | ok rest =>
      cases scanned
      have kind : r.kind ≠ .inclusion := nameless _ (List.mem_append_right _ List.mem_cons_self)
      have renames := ih further
        fun t member => nameless t (List.mem_append_right _ (List.mem_cons_of_mem _ member))
      have kept := Renames.kept cut result (fun same => absurd same kind) renames
      rwa [← r.whole cut] at kept

/-! ### Tokens -/

inductive Alike (ρ : String → String) : Token × Token → Prop where
  | text (s : String) (line : Nat) : Alike ρ (.text s line, .text s line)
  | tag {t t' : Tag} (kind : t'.kind = t.kind) (content : t'.content = renamedContent ρ t.kind t.content)
      (line : t'.line = t.line) : Alike ρ (.tag t, .tag t')

def tags (pairs : List (Token × Token)) : List (Tag × Tag) :=
  pairs.filterMap fun
    | (.tag t, .tag t') => some (t, t')
    | _ => none

def Plain (tags : List (Tag × Tag)) : Prop :=
  ∀ p ∈ tags, p.1.kind ≠ .inclusion

@[simp]
theorem tags_text (s s' : String) (line line' : Nat) (pairs : List (Token × Token)) :
    tags ((.text s line, .text s' line') :: pairs) = tags pairs := rfl

@[simp]
theorem tags_tag (t t' : Tag) (pairs : List (Token × Token)) :
    tags ((.tag t, .tag t') :: pairs) = (t, t') :: tags pairs := rfl

theorem tags_append (pairs pairs' : List (Token × Token)) : tags (pairs ++ pairs') = tags pairs ++ tags pairs' :=
  List.filterMap_append

/-- Two texts that stand for each other. They are the same, if there are no partial tags in them. -/
structure Parts (ρ : String → String) (d : Delimiters) (within : List (Tag × Tag)) (part part' : List Char) :
    Prop where
  renames : Renames ρ d part part'
  plain : Plain within → part' = part

structure Paired (ρ : String → String) (source source' : List Char) (pairs : List (Token × Token)) :
    Prop where
  alike : ∀ pair ∈ pairs, Alike ρ pair
  between : ∀ before o within c after, tags pairs = before ++ o :: (within ++ c :: after) →
    ∃ d part part', Parts ρ d within part part' ∧ Text.Between source o.1.stop c.1.start part ∧
      Text.Between source' o.2.stop c.2.start part'

/-- Tokens that have the same tags. -/
theorem Paired.thin {source source' : List Char} {pairs kept : List (Token × Token)}
    (h : Paired ρ source source' pairs) (sub : kept ⊆ pairs) (same : tags kept = tags pairs) :
    Paired ρ source source' kept :=
  ⟨fun pair member => h.alike pair (sub member), same ▸ h.between⟩

theorem Paired.tail {source source' : List Char} {pair : Token × Token} {pairs : List (Token × Token)}
    (h : Paired ρ source source' (pair :: pairs)) : Paired ρ source source' pairs := by
  refine ⟨fun p member => h.alike p (List.mem_cons_of_mem pair member), ?_⟩
  intro before o within c after same
  have first : tags (pair :: pairs) = tags [pair] ++ tags pairs := tags_append [pair] pairs
  exact h.between (tags [pair] ++ before) o within c after (by rw [first, same, List.append_assoc])

def twice (tokens : List Token) : List (Token × Token) :=
  tokens.map fun token => (token, token)

@[simp]
theorem map_fst_twice (tokens : List Token) : (twice tokens).map (·.1) = tokens := by
  simp [twice, Function.comp_def]

@[simp]
theorem map_snd_twice (tokens : List Token) : (twice tokens).map (·.2) = tokens := by
  simp [twice, Function.comp_def]

theorem mem_twice_ofText {line : Nat} {pair : Token × Token} (h : pair ∈ twice (ofText line cs)) :
    ∃ s l, pair = (text s l, text s l) := by
  obtain ⟨token, member, rfl⟩ := List.mem_map.mp h
  obtain ⟨i, _, rfl⟩ := List.mem_mapIdx.mp member
  exact ⟨_, _, rfl⟩

@[simp]
theorem tags_twice_ofText (line : Nat) : tags (twice (ofText line cs)) = [] := by
  refine List.filterMap_eq_nil_iff.mpr fun pair member => ?_
  obtain ⟨s, l, rfl⟩ := mem_twice_ofText member
  rfl

structure Leads (ρ : String → String) (d : Delimiters) (read read' cs cs' : List Char)
    (within : List (Tag × Tag)) (c : Tag × Tag) (part part' tail tail' : List Char) : Prop where
  parts : Parts ρ d within part part'
  whole : cs = part ++ tail
  whole' : cs' = part' ++ tail'
  start : c.1.start = Text.byteLength (read ++ part)
  start' : c.2.start = Text.byteLength (read' ++ part')

structure Scans (ρ : String → String) (d : Delimiters) (read read' cs cs' : List Char)
    (pairs : List (Token × Token)) : Prop where
  paired : Paired ρ (read ++ cs) (read' ++ cs') pairs
  leads : ∀ within c after, tags pairs = within ++ c :: after →
    ∃ part part' tail tail', Leads ρ d read read' cs cs' within c part part' tail tail'

theorem scans_text (ρ : String → String) (d : Delimiters) (read read' cs : List Char) (line : Nat) :
    Scans ρ d read read' cs cs (twice (ofText line cs)) := by
  have none {α : Type} {before after : List α} {c : α} : [] ≠ before ++ c :: after := by simp
  refine ⟨⟨fun pair member => ?_, fun before o within c after same => ?_⟩, fun within c after same => ?_⟩
  · obtain ⟨s, l, rfl⟩ := mem_twice_ofText member
    exact .text s l
  · rw [tags_twice_ofText] at same
    exact absurd same none
  · rw [tags_twice_ofText] at same
    exact absurd same none

/-- Literal text and the tag after it. -/
theorem Scans.step {after after' : List Char} {r : Tag.Reading after} {r' : Tag.Reading after'}
    (counter : Counterparts ρ d before r r') (clear : Text.splitAt? d.opening before = none)
    {read read' : List Char} {pairs : List (Token × Token)} {line : Nat} {t t' : Tag}
    (alike : Alike ρ (tag t, tag t')) (kind : t.kind = r.kind)
    (start : t.start = Text.byteLength (read ++ before))
    (stop : t.stop = Text.byteLength (read ++ (before ++ (d.opening ++ r.body))))
    (start' : t'.start = Text.byteLength (read' ++ before))
    (stop' : t'.stop = Text.byteLength (read' ++ (before ++ (d.opening ++ r'.body))))
    (h : Scans ρ r.delimiters (read ++ (before ++ (d.opening ++ r.body)))
      (read' ++ (before ++ (d.opening ++ r'.body))) r.rest r'.rest pairs) :
    Scans ρ d read read' (before ++ (d.opening ++ (r.body ++ r.rest)))
      (before ++ (d.opening ++ (r'.body ++ r'.rest)))
      (twice (ofText line before) ++ (tag t, tag t') :: pairs) := by
  obtain ⟨⟨all, between⟩, leads⟩ := h
  have whole (read body rest : List Char) : read ++ (before ++ (d.opening ++ body)) ++ rest =
      read ++ (before ++ (d.opening ++ (body ++ rest))) := by simp
  rw [whole, whole] at between
  have first : tags (twice (ofText line before) ++ (tag t, tag t') :: pairs) = (t, t') :: tags pairs := by
    rw [tags_append, tags_twice_ofText, List.nil_append, tags_tag]
  refine ⟨⟨fun pair member => ?_, fun earlier o within c later same => ?_⟩, fun within c later same => ?_⟩
  · rcases List.mem_append.mp member with member | member
    · obtain ⟨s, l, rfl⟩ := mem_twice_ofText member
      exact .text s l
    · rcases List.mem_cons.mp member with rfl | member
      · exact alike
      · exact all pair member
  · rw [first] at same
    cases earlier with
    | nil =>
      obtain ⟨rfl, further⟩ := List.cons.inj same
      obtain ⟨part, part', tail, tail', parts, rest, rest', here, here'⟩ := leads within c later further
      refine ⟨r.delimiters, part, part', parts, ⟨_, tail, ?_, stop, here⟩, ⟨_, tail', ?_, stop', here'⟩⟩
      · rw [rest]
        simp
      · rw [rest']
        simp
    | cons _ earlier => exact between earlier o within c later (List.cons.inj same).2
  · rw [first] at same
    cases within with
    | nil =>
      obtain ⟨rfl, _⟩ := List.cons.inj same
      exact ⟨before, before, _, _, ⟨.text clear, fun _ => rfl⟩, rfl, rfl, start, start'⟩
    | cons p within =>
      obtain ⟨rfl, further⟩ := List.cons.inj same
      obtain ⟨part, part', tail, tail', ⟨renames, plain⟩, rest, rest', here, here'⟩ :=
        leads within c later further
      refine ⟨_, _, tail, tail', ⟨counter.part renames, fun none => ?_⟩, ?_, ?_, ?_, ?_⟩
      · rw [counter.body (kind ▸ none _ List.mem_cons_self),
          plain fun p member => none p (List.mem_cons_of_mem _ member)]
      · rw [rest]
        simp
      · rw [rest']
        simp
      · rw [here]
        simp
      · rw [here']
        simp

inductive Scanned (ρ : String → String) (d : Delimiters) (read read' cs cs' : List Char) :
    Except SourceFault (List Token) → Except SourceFault (List Token) → Prop where
  | ok {pairs : List (Token × Token)} {tokens tokens' : List Token} (first : tokens = pairs.map (·.1))
      (second : tokens' = pairs.map (·.2)) (scans : Scans ρ d read read' cs cs' pairs) :
      Scanned ρ d read read' cs cs' (.ok tokens) (.ok tokens')
  | error (f : SourceFault) : Scanned ρ d read read' cs cs' (.error f) (.error f)

theorem scanFrom_renames (h : Renames ρ d cs cs') (read read' : List Char) (line : Nat) :
    Scanned ρ d read read' cs cs' (scanFrom d (Text.byteLength read) line cs)
      (scanFrom d (Text.byteLength read') line cs') := by
  induction d, cs using scan_induction generalizing cs' read read' line with
  | text cut =>
    have same := h.eq_of_unread fun _ _ cut' => by
      rw [cut] at cut'
      cases cut'
    rw [same, scanFrom_of_none _ _ cut, scanFrom_of_none _ _ cut]
    exact .ok (map_fst_twice _).symm (map_snd_twice _).symm (scans_text ρ _ read read' _ line)
  | @refused _ _ _ _ fault cut result =>
    have same := h.eq_of_unread fun _ _ cut' => by
      rw [cut] at cut'
      cases cut'
      exact ⟨fault, result⟩
    rw [same, scanFrom_of_refused _ _ cut result, scanFrom_of_refused _ _ cut result]
    exact .error _
  | @read d cs before after r cut result ih =>
    obtain ⟨after', r', cut', result', counter⟩ := h.counterpart cut result
    have lines : newlines (before ++ (d.opening ++ r'.body)) =
        newlines (before ++ (d.opening ++ r.body)) := by
      simp only [newlines_append, counter.lines]
    have further := ih counter.further (read ++ (before ++ (d.opening ++ r.body)))
      (read' ++ (before ++ (d.opening ++ r'.body)))
      (line + newlines (before ++ (d.opening ++ r.body)))
    rw [scanFrom_of_read _ _ cut result, scanFrom_of_read _ _ cut' result', counter.delimiters, lines]
    simp only [← Text.byteLength_append]
    generalize scanFrom r.delimiters _ _ r.rest = scanned at further ⊢
    generalize scanFrom r.delimiters _ _ r'.rest = scanned' at further ⊢
    cases further with
    | error f => exact .error f
    | @ok pairs _ _ first second scans =>
      have clear : Text.splitAt? d.opening before = none :=
        (Text.splitAt?_eq_none_iff d.opening_ne).mpr (Text.not_infix_of_splitAt? d.opening_ne cut)
      have alike : Alike ρ
          (tag ⟨r.kind, String.ofList r.content, line + newlines before,
            Text.byteLength (read ++ before),
            Text.byteLength (read ++ (before ++ (d.opening ++ r.body)))⟩,
           tag ⟨r'.kind, String.ofList r'.content, line + newlines before,
            Text.byteLength (read' ++ before),
            Text.byteLength (read' ++ (before ++ (d.opening ++ r'.body)))⟩) :=
        .tag counter.kind counter.content rfl
      have stepped : Scans ρ d read read' _ _ (twice (ofText line before) ++ _ :: pairs) :=
        scans.step counter clear alike rfl rfl rfl rfl rfl
      rw [← r.whole cut, ← r'.whole cut'] at stepped
      exact .ok (by simp [first]) (by simp [second]) stepped

/-- The tokens of a renamed source. -/
theorem scan_renames {source source' : String}
    (h : Renames ρ Delimiters.standard source.toList source'.toList) :
    Correspond Eq (fun tokens tokens' => ∃ pairs : List (Token × Token), tokens = pairs.map (·.1) ∧
      tokens' = pairs.map (·.2) ∧ Paired ρ source.toList source'.toList pairs)
      (scan source) (scan source') := by
  have scanned := scanFrom_renames h [] [] 1
  change Scanned ρ _ [] [] _ _ (scan source) (scan source') at scanned
  generalize scan source = result, scan source' = result' at scanned ⊢
  cases scanned with
  | error f => exact .error rfl
  | ok first second scans => exact .ok ⟨_, first, second, scans.paired⟩

end Token

/-- The sources are the same, but for the names in their partial tags. -/
def Source.Renames (ρ : String → String) (source source' : String) : Prop :=
  Token.Renames ρ Delimiters.standard source.toList source'.toList

end Logicless
