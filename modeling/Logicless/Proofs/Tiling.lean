import Logicless.Template

/-!
# Tokens tile the source

One after another, the tokens of a source are the source. Each stands on the line and at the offsets
that it names, and each tag between the delimiters that the tags before it leave in effect
(`Token.scan_covers`).
-/

namespace Logicless

/-- The delimiters in effect after tokens: those that the last delimiter tag asks for. -/
def Delimiters.after (tokens : List Token) : Option Delimiters :=
  match ((tokens.filterMap Token.tag?).filter fun t => t.kind = .delimiters).getLast? with
  | none => some standard
  | some t => ofContent? t.content.toList

def Delimiters.Enclose (d : Delimiters) (cs : List Char) : Prop :=
  ∃ inner, cs = d.opening ++ inner ++ d.closing

namespace Token

def lexeme (source : List Char) : Token → List Char
  | .text s _ => s.toList
  | .tag t => Text.slice source t.start t.stop

def lexemes (source : List Char) (tokens : List Token) : List Char :=
  tokens.flatMap (lexeme source)

def Stands (source : List Char) (before : List Token) (token : Token) : Prop :=
  token.line = 1 + newlines (lexemes source before) ∧
    ∃ d, Delimiters.after before = some d ∧
      match token with
      | .text s _ => s ≠ "" ∧ '\n' ∉ s.toList.dropLast ∧ ¬ d.opening <:+: s.toList
      | .tag t =>
        t.start = Text.byteLength (lexemes source before) ∧
          t.stop = Text.byteLength (lexemes source (before ++ [.tag t])) ∧
          d.Enclose (lexeme source (.tag t))

structure Covers (source : List Char) (tokens : List Token) : Prop where
  whole : lexemes source tokens = source
  stands : ∀ before token after, tokens = before ++ token :: after → Stands source before token

/-- The source goes on with a tag that cannot be read, after tokens that cover what is before it. -/
def Refused (source : List Char) (f : SourceFault) : Prop :=
  ∃ tokens before after d, Covers before tokens ∧ Delimiters.after tokens = some d ∧
    source = before ++ d.opening ++ after ∧ f.line = 1 + newlines before ∧
    Tag.read d after = .error f.fault

/-! ### Delimiters -/

theorem after_nil : Delimiters.after [] = some Delimiters.standard := rfl

theorem after_concat_text (tokens : List Token) (s : String) (line : Nat) :
    Delimiters.after (tokens ++ [.text s line]) = Delimiters.after tokens := by
  have same : (tokens ++ [Token.text s line]).filterMap tag? = tokens.filterMap tag? := by
    rw [List.filterMap_append]
    exact List.append_nil _
  rw [Delimiters.after, Delimiters.after, same]

theorem after_concat_tag (tokens : List Token) (t : Tag) :
    Delimiters.after (tokens ++ [.tag t]) =
      if t.kind = .delimiters then Delimiters.ofContent? t.content.toList
      else Delimiters.after tokens := by
  have tags : (tokens ++ [Token.tag t]).filterMap tag? = tokens.filterMap tag? ++ [t] :=
    List.filterMap_append
  unfold Delimiters.after
  by_cases changes : t.kind = .delimiters
  · have last : [t].filter (fun t => t.kind = .delimiters) = [t] := by simp [changes]
    rw [tags, List.filter_append, last, List.getLast?_concat, if_pos changes]
  · have none : [t].filter (fun t => t.kind = .delimiters) = [] := by simp [changes]
    rw [tags, List.filter_append, none, List.append_nil, if_neg changes]

end Token

namespace Tag

/-- How the raw text of a tag is cut. -/
theorem split?_ok {d : Delimiters} {after raw : List Char} {triple : Bool}
    {p : { p : List Char × List Char // after = p.1 ++ p.2 }}
    (h : split? d after = .ok (triple, raw, p)) :
    (triple = true ∧ d.opening = Delimiters.standard.opening ∧ p.1.1 = '{' :: raw ++ '}' :: d.closing ∧
      ∃ tail, after = '{' :: tail ∧ Text.splitAt? ('}' :: d.closing) tail = some (raw, p.1.2)) ∨
    (triple = false ∧ (d.opening = Delimiters.standard.opening → ∀ c ∈ after.head?, c ≠ '{') ∧
      p.1.1 = raw ++ d.closing ∧ Text.splitAt? d.closing after = some (raw, p.1.2)) := by
  unfold split? at h
  split at h
  · next tail =>
    split at h
    · next standard =>
      split at h
      · next cut =>
        cases h
        exact .inl ⟨rfl, standard, rfl, tail, rfl, cut⟩
      · cases h
    · next other =>
      split at h
      · next cut =>
        cases h
        exact .inr ⟨rfl, fun standard => absurd standard other, rfl, cut⟩
      · cases h
  · next other =>
    split at h
    · next cut =>
      cases h
      refine .inr ⟨rfl, fun _ c head brace => ?_, rfl, cut⟩
      cases after with
      | nil => cases head
      | cons first tail =>
        cases head
        exact other tail (brace ▸ rfl)
    · cases h

/-- What the raw text of a tag says, and the delimiters in effect after the tag. -/
structure Tells (d : Delimiters) (triple : Bool) (raw : List Char) (kind : TagKind)
    (content : List Char) (d' : Delimiters) : Prop where
  label : (if triple then (.unescaped, Text.trim raw) else classify (Text.trim raw)) = (kind, content)
  given : content = [] → kind = .comment
  changes : if kind = .delimiters then Delimiters.ofContent? content = some d' else d' = d

theorem read_tells {d : Delimiters} {after : List Char} {r : Reading after} (h : read d after = .ok r) :
    ∃ triple raw p, split? d after = .ok (triple, raw, p) ∧ p.1 = (r.body, r.rest) ∧
      Tells d triple raw r.kind r.content r.delimiters := by
  unfold read at h
  cases cut : split? d after with
  | error fault =>
    rw [cut] at h
    cases h
  | ok found =>
    obtain ⟨triple, raw, ⟨body, rest⟩, covers⟩ := found
    refine ⟨triple, raw, ⟨(body, rest), covers⟩, rfl, ?_⟩
    rw [cut] at h
    simp only [bind, Except.bind] at h
    generalize label : (if triple = true then (TagKind.unescaped, Text.trim raw)
      else classify (Text.trim raw)) = shown at h
    obtain ⟨kind, content⟩ := shown
    split at h
    · cases h
    · next nonempty =>
      have given : content = [] → kind = .comment := by
        rintro rfl
        simpa using nonempty
      split at h
      · next changes =>
        split at h
        · next asked =>
          cases h
          exact ⟨rfl, label, given, by rw [if_pos changes]; exact asked⟩
        · cases h
      · next stays =>
        cases h
        exact ⟨rfl, label, given, by rw [if_neg stays]⟩

/-- A tag ends with the closing delimiter, and only a delimiter tag changes the delimiters. -/
theorem read_ok {d : Delimiters} {after : List Char} {r : Reading after} (h : read d after = .ok r) :
    (∃ inner, r.body = inner ++ d.closing) ∧
      if r.kind = .delimiters then Delimiters.ofContent? r.content = some r.delimiters
      else r.delimiters = d := by
  obtain ⟨triple, raw, p, cut, same, tells⟩ := read_tells h
  refine ⟨?_, tells.changes⟩
  have body : r.body = p.1.1 := by rw [same]
  rw [body]
  rcases split?_ok cut with ⟨_, _, whole, _⟩ | ⟨_, _, whole, _⟩
  · exact ⟨'{' :: raw ++ ['}'], by simp [whole]⟩
  · exact ⟨raw, whole⟩

end Tag

namespace Token

/-- Tokens that have been read, and the part of a source that they were read from. -/
inductive Tiles : List Char → List Token → Prop where
  | nil : Tiles [] []
  | text {read cs : List Char} {tokens : List Token} {d : Delimiters} (h : Tiles read tokens)
      (inEffect : Delimiters.after tokens = some d) (nonempty : cs ≠ []) (line : '\n' ∉ cs.dropLast)
      (clear : ¬ d.opening <:+: cs) :
      Tiles (read ++ cs) (tokens ++ [.text (String.ofList cs) (1 + newlines read)])
  | tag {read cs : List Char} {tokens : List Token} {d : Delimiters} {t : Tag} (h : Tiles read tokens)
      (inEffect : Delimiters.after tokens = some d) (encloses : d.Enclose cs)
      (line : t.line = 1 + newlines read) (start : t.start = Text.byteLength read)
      (stop : t.stop = Text.byteLength (read ++ cs)) :
      Tiles (read ++ cs) (tokens ++ [.tag t])

namespace Tiles

variable {read : List Char} {tokens : List Token} {d : Delimiters}

/-- Pieces of a text tile it if each but the last has a newline at its end. -/
theorem pieces (h : Tiles read tokens) (inEffect : Delimiters.after tokens = some d)
    {pieces : List (List Char)} (nonempty : ∀ piece ∈ pieces, piece ≠ [])
    (line : ∀ piece ∈ pieces, '\n' ∉ piece.dropLast)
    (clear : ∀ piece ∈ pieces, ¬ d.opening <:+: piece)
    (ended : ∀ before piece after, pieces = before ++ piece :: after → after ≠ [] → newlines piece = 1) :
    Tiles (read ++ pieces.flatten) (tokens ++
        pieces.mapIdx fun i piece => .text (String.ofList piece) (1 + newlines read + i)) ∧
      Delimiters.after (tokens ++
        pieces.mapIdx fun i piece => .text (String.ofList piece) (1 + newlines read + i)) = some d := by
  induction pieces generalizing read tokens with
  | nil => simpa using ⟨h, inEffect⟩
  | cons piece rest ih =>
    have first := h.text inEffect (nonempty piece List.mem_cons_self) (line piece List.mem_cons_self)
      (clear piece List.mem_cons_self)
    have after := (after_concat_text tokens (String.ofList piece) (1 + newlines read)).trans inEffect
    have rest' := ih first after (fun p member => nonempty p (List.mem_cons_of_mem _ member))
      (fun p member => line p (List.mem_cons_of_mem _ member))
      (fun p member => clear p (List.mem_cons_of_mem _ member))
      (fun before p after same => ended (piece :: before) p after (by rw [same, List.cons_append]))
    -- The lines of what follows count on from the newline of the first piece.
    have lines : (rest.mapIdx fun i p => Token.text (String.ofList p) (1 + newlines read + (i + 1))) =
        rest.mapIdx fun i p => Token.text (String.ofList p) (1 + newlines (read ++ piece) + i) := by
      cases rest with
      | nil => rfl
      | cons next rest =>
        have one : newlines piece = 1 := ended [] piece (next :: rest) rfl (by simp)
        congr
        funext i p
        rw [newlines_append, one]
        congr 1
        omega
    rw [List.mapIdx_cons, List.flatten_cons, lines, ← List.append_assoc]
    simpa only [List.append_assoc, List.singleton_append, Nat.add_zero] using rest'

/-- Literal text without an opening delimiter is tiled by its lines. -/
theorem ofText (h : Tiles read tokens) (inEffect : Delimiters.after tokens = some d) {cs : List Char}
    (clear : ¬ d.opening <:+: cs) :
    Tiles (read ++ cs) (tokens ++ Token.ofText (1 + newlines read) cs) ∧
      Delimiters.after (tokens ++ Token.ofText (1 + newlines read) cs) = some d := by
  have whole := flatten_splitAfter (· == '\n') cs
  have line (piece : List Char) (member : piece ∈ splitAfter (· == '\n') cs) :
      '\n' ∉ piece.dropLast := by
    intro inside
    have other := not_ends_of_mem_splitAfter member '\n' inside
    cases other
  have clear (piece : List Char) (member : piece ∈ splitAfter (· == '\n') cs) :
      ¬ d.opening <:+: piece := by
    intro inside
    apply clear
    rw [← whole]
    exact inside.trans (List.infix_of_mem_flatten member)
  have ended (before : List (List Char)) (piece : List Char) (after : List (List Char))
      (same : splitAfter (· == '\n') cs = before ++ piece :: after) (more : after ≠ []) :
      newlines piece = 1 := by
    obtain ⟨init, a, rfl, found⟩ := ends_of_splitAfter same more
    have none : '\n' ∉ init := by
      have outside := line (init ++ [a]) (by simp [same])
      rwa [List.dropLast_concat] at outside
    obtain rfl : a = '\n' := by simpa using found
    rw [newlines_append, newlines_eq_zero none]
    rfl
  have tiled := h.pieces inEffect (fun _ member => ne_nil_of_mem_splitAfter member) line clear ended
  rw [whole] at tiled
  exact tiled

/-- Literal text and the tag after it. -/
theorem step (h : Tiles read tokens) (inEffect : Delimiters.after tokens = some d)
    {cs before after : List Char} (cut : Text.splitAt? d.opening cs = some (before, after))
    {r : Tag.Reading after} (found : Tag.read d after = .ok r) {t : Tag} (kind : t.kind = r.kind)
    (content : t.content = String.ofList r.content) (line : t.line = 1 + newlines (read ++ before))
    (start : t.start = Text.byteLength (read ++ before))
    (stop : t.stop = Text.byteLength (read ++ (before ++ (d.opening ++ r.body)))) :
    Tiles (read ++ (before ++ (d.opening ++ r.body)))
        (tokens ++ Token.ofText (1 + newlines read) before ++ [.tag t]) ∧
      Delimiters.after (tokens ++ Token.ofText (1 + newlines read) before ++ [.tag t]) =
        some r.delimiters := by
  obtain ⟨tiled, same⟩ := h.ofText inEffect (Text.not_infix_of_splitAt? d.opening_ne cut)
  obtain ⟨⟨inner, body⟩, changes⟩ := Tag.read_ok found
  have encloses : d.Enclose (d.opening ++ r.body) := ⟨inner, by rw [body, List.append_assoc]⟩
  rw [← List.append_assoc] at stop ⊢
  refine ⟨tiled.tag same encloses line start stop, ?_⟩
  rw [after_concat_tag, same, kind, content, String.toList_ofList]
  split at changes
  · next delimiters => rw [if_pos delimiters, changes]
  · next other => rw [if_neg other, changes]

/-- The last token stands where it says if the ones before it do. -/
theorem stands_concat {source : List Char} {token : Token}
    (stands : ∀ before token after, tokens = before ++ token :: after → Stands source before token)
    (last : Stands source tokens token) :
    ∀ before token' after, tokens ++ [token] = before ++ token' :: after →
      Stands source before token' := by
  intro before token' after same
  rcases List.eq_nil_or_concat after with rfl | ⟨after, final, rfl⟩
  · obtain ⟨rfl, final⟩ := List.append_inj' same rfl
    cases final
    exact last
  · rw [List.concat_eq_append, ← List.cons_append, ← List.append_assoc] at same
    exact stands before token' after (List.append_inj' same rfl).1

/-- Tokens cover what they tile, whatever the source goes on with. -/
theorem stands (h : Tiles read tokens) (rest : List Char) :
    lexemes (read ++ rest) tokens = read ∧
      ∀ before token after, tokens = before ++ token :: after → Stands (read ++ rest) before token := by
  induction h generalizing rest with
  | nil => exact ⟨rfl, fun _ _ _ same => by simp at same⟩
  | @text read cs tokens d _ inEffect nonempty line clear ih =>
    obtain ⟨whole, stands⟩ := ih (cs ++ rest)
    rw [← List.append_assoc] at whole stands
    refine ⟨?_, stands_concat stands ⟨?_, d, inEffect, ?_⟩⟩
    · simp only [lexemes, List.flatMap_append] at whole ⊢
      rw [whole]
      simp [lexeme]
    · rw [whole]
      rfl
    · simpa using ⟨nonempty, line, clear⟩
  | @tag read cs tokens d t _ inEffect encloses line start stop ih =>
    obtain ⟨whole, stands⟩ := ih (cs ++ rest)
    have own : lexeme (read ++ cs ++ rest) (.tag t) = cs := by
      rw [lexeme, start, stop]
      exact Text.slice_append read cs rest
    rw [← List.append_assoc] at whole stands
    have joined : lexemes (read ++ cs ++ rest) (tokens ++ [.tag t]) = read ++ cs := by
      simp only [lexemes, List.flatMap_append, List.flatMap_singleton] at whole ⊢
      rw [whole, own]
    refine ⟨joined, stands_concat stands ⟨?_, d, inEffect, ?_, ?_, ?_⟩⟩
    · rw [whole]
      exact line
    · rw [whole]
      exact start
    · rw [joined]
      exact stop
    · rw [own]
      exact encloses

theorem covers (h : Tiles read tokens) : Covers read tokens := by
  obtain ⟨whole, stands⟩ := h.stands []
  rw [List.append_nil] at whole stands
  exact ⟨whole, stands⟩

end Tiles

/-- Reading on from tokens that tile what is before. -/
theorem scanFrom_tiles {read cs : List Char} {tokens : List Token} {d : Delimiters}
    (h : Tiles read tokens) (inEffect : Delimiters.after tokens = some d) :
    match scanFrom d (Text.byteLength read) (1 + newlines read) cs with
    | .ok more => Tiles (read ++ cs) (tokens ++ more)
    | .error f => Refused (read ++ cs) f := by
  induction d, cs using scan_induction generalizing read tokens with
  | text cut =>
    rw [scanFrom_of_none _ _ cut]
    exact (h.ofText inEffect ((Text.splitAt?_eq_none_iff (Delimiters.opening_ne _)).mp cut)).1
  | @refused d _ before after _ cut result =>
    rw [scanFrom_of_refused _ _ cut result]
    obtain ⟨tiled, same⟩ := h.ofText inEffect (Text.not_infix_of_splitAt? d.opening_ne cut)
    refine ⟨_, read ++ before, after, d, tiled.covers, same, ?_, ?_, result⟩
    · rw [Text.eq_of_splitAt? cut]
      simp only [List.append_assoc]
    · rw [newlines_append, Nat.add_assoc]
  | @read d cs before after r cut result ih =>
    have whole : read ++ cs = read ++ (before ++ (d.opening ++ r.body)) ++ r.rest := by
      rw [r.whole cut]
      simp only [List.append_assoc]
    have next : Text.byteLength read + Text.byteLength (before ++ (d.opening ++ r.body)) =
        Text.byteLength (read ++ (before ++ (d.opening ++ r.body))) :=
      (Text.byteLength_append _ _).symm
    have line : 1 + newlines read + newlines (before ++ (d.opening ++ r.body)) =
        1 + newlines (read ++ (before ++ (d.opening ++ r.body))) := by
      rw [newlines_append read, Nat.add_assoc]
    obtain ⟨tiled, changed⟩ := h.step inEffect cut result
      (t := ⟨r.kind, String.ofList r.content, 1 + newlines read + newlines before,
        Text.byteLength read + Text.byteLength before,
        Text.byteLength (read ++ (before ++ (d.opening ++ r.body)))⟩)
      rfl rfl (by rw [newlines_append, Nat.add_assoc]) (Text.byteLength_append _ _).symm rfl
    have rest := ih tiled changed
    rw [whole, scanFrom_of_read _ _ cut result, next, line]
    generalize scanFrom r.delimiters _ _ r.rest = scanned at rest ⊢
    cases scanned with
    | error f => exact rest
    | ok more =>
      simp only [List.append_assoc tokens, List.append_assoc (Token.ofText _ _)] at rest
      exact rest

/-- What stands between two tags are the tokens between them. -/
theorem Covers.between {source : List Char} {before inner after : List Token} {o c : Tag}
    (h : Covers source (before ++ .tag o :: (inner ++ .tag c :: after))) :
    Text.Between source o.stop c.start (lexemes source inner) := by
  obtain ⟨_, _, _, _, stop, _⟩ := h.stands before (.tag o) _ rfl
  obtain ⟨_, _, _, start, _, _⟩ := h.stands (before ++ .tag o :: inner) (.tag c) after (by simp)
  refine ⟨lexemes source (before ++ [.tag o]), lexemes source (.tag c :: after), ?_, stop, ?_⟩
  · have whole := h.whole
    simp only [lexemes, List.flatMap_append, List.flatMap_cons, List.flatMap_nil, List.append_nil,
      List.append_assoc] at whole ⊢
    exact whole.symm
  · rw [start]
    simp only [lexemes, List.flatMap_append, List.flatMap_cons, List.flatMap_nil, List.append_nil,
      List.append_assoc]

theorem scan_tiles (source : String) :
    match scan source with
    | .ok tokens => Tiles source.toList tokens
    | .error f => Refused source.toList f :=
  scanFrom_tiles .nil after_nil

theorem covers_of_scan {source : String} {tokens : List Token} (h : scan source = .ok tokens) :
    Covers source.toList tokens := by
  have tiled := scan_tiles source
  rw [h] at tiled
  exact tiled.covers

theorem refused_of_scan {source : String} {f : SourceFault} (h : scan source = .error f) :
    Refused source.toList f := by
  have refused := scan_tiles source
  rw [h] at refused
  exact refused

/-- A source is refused with an error of compilation, or its tokens are all of it, in order. -/
theorem scan_covers (name source : String) :
    (∃ tokens, scan source = .ok tokens ∧ Covers source.toList tokens) ∨
      ∃ f, scan source = .error f ∧ Refused source.toList f ∧
        ∀ instanceId split, Template.ofSource instanceId name source split =
          .error (.compilation name f.line f.fault) := by
  cases scanned : scan source with
  | ok tokens => exact .inl ⟨tokens, rfl, covers_of_scan scanned⟩
  | error f =>
    refine .inr ⟨f, rfl, refused_of_scan scanned, fun instanceId split => ?_⟩
    simp only [Template.ofSource, Tree.ofSource, scanned]
    rfl

end Token

end Logicless
