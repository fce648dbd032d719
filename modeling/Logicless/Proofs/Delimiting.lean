import Logicless.Proofs.Nesting
import Logicless.Proofs.Reading

/-!
# Delimiter tags

A tag whose text starts with an equals sign and ends with another one asks for delimiters. It gets
them, or the source is refused with the line of the tag. Without the second equals sign the tag is
read as a variable (`Token.reads_equals`).
-/

namespace Logicless

def Delimiters.AskedBy (d : Delimiters) (content : List Char) : Prop :=
  Text.words content = [d.opening, d.closing] ∧ '=' ∉ d.opening ∧ '=' ∉ d.closing

theorem Delimiters.ofContent?_eq_some_iff {d : Delimiters} {content : List Char} :
    ofContent? content = some d ↔ d.AskedBy content := by
  unfold ofContent?
  split
  · next opening closing parts =>
    dsimp only
    split
    · next equals =>
      refine ⟨nofun, fun ⟨same, free, free'⟩ => ?_⟩
      cases parts.symm.trans same
      rcases equals with inside | inside
      · exact absurd inside free
      · exact absurd inside free'
    · next equals =>
      obtain ⟨free, free'⟩ := not_or.mp equals
      constructor
      · rintro ⟨⟩
        exact ⟨parts, free, free'⟩
      · rintro ⟨same, _, _⟩
        obtain ⟨_, _⟩ := d
        cases parts.symm.trans same
        rfl
  · next other =>
    refine ⟨nofun, fun ⟨parts, _⟩ => ?_⟩
    exact (other _ _ parts).elim

namespace Tag

variable {d : Delimiters} {after raw inner content : List Char}

/-- A text that starts with an equals sign does not start with a brace. -/
theorem not_brace_of_equals (equals : Text.trim raw = '=' :: inner) (more : List Char) :
    ∀ c ∈ (raw ++ more).head?, c ≠ '{' := by
  obtain ⟨left, right, blank, whole⟩ := Text.exists_pad raw
  rw [equals] at whole
  rintro c first rfl
  cases left with
  | nil =>
    rw [whole] at first
    cases first
  | cons b left =>
    rw [whole] at first
    cases first
    exact absurd (blank '{' (by simp)) (by decide)

/-- The tag asks for delimiters. -/
theorem read_equals {p : { p : List Char × List Char // after = p.1 ++ p.2 }}
    (cut : split? d after = .ok (false, raw, p)) (equals : Text.trim raw = '=' :: (content ++ ['='])) :
    (∃ d' : Delimiters, d'.AskedBy (Text.trim content) ∧
        read d after = .ok ⟨.delimiters, Text.trim content, d', p.1.1, p.1.2, p.2⟩) ∨
      (¬ ∃ d' : Delimiters, d'.AskedBy (Text.trim content)) ∧ ∃ fault, read d after = .error fault := by
  have label : classify (Text.trim raw) = (.delimiters, Text.trim content) := by
    rw [equals]
    simp [classify]
  cases asked : Delimiters.ofContent? (Text.trim content) with
  | some d' =>
    have parts := Delimiters.ofContent?_eq_some_iff.mp asked
    refine .inl ⟨d', parts, read_of_tells cut ⟨label, fun empty => ?_, by rw [if_pos rfl]; exact asked⟩⟩
    rw [empty] at parts
    cases parts.1
  | none =>
    have unasked : ¬ ∃ d' : Delimiters, d'.AskedBy (Text.trim content) := by
      rintro ⟨d', parts⟩
      rw [Delimiters.ofContent?_eq_some_iff.mpr parts] at asked
      cases asked
    refine .inr ⟨unasked, ?_⟩
    obtain ⟨⟨body, rest⟩, covers⟩ := p
    rw [read, cut]
    simp only [bind, Except.bind, label, Bool.false_eq_true, if_false, if_true]
    split
    · exact ⟨_, rfl⟩
    · split
      · next found =>
        rw [found] at asked
        cases asked
      · exact ⟨_, rfl⟩

/-- The tag is read as a variable. -/
theorem read_unequal {p : { p : List Char × List Char // after = p.1 ++ p.2 }}
    (cut : split? d after = .ok (false, raw, p)) (equals : Text.trim raw = '=' :: inner)
    (unended : ∀ content, inner ≠ content ++ ['=']) :
    read d after = .ok ⟨.escaped, '=' :: inner, d, p.1.1, p.1.2, p.2⟩ := by
  have last : ¬ inner.getLast? = some '=' := by
    intro last
    obtain ⟨content, same⟩ := List.getLast?_eq_some_iff.mp last
    exact unended content same
  have label : classify (Text.trim raw) = (.escaped, '=' :: inner) := by
    rw [equals]
    simp [classify, last]
  refine read_of_tells cut ⟨label, fun empty => ?_, rfl⟩
  cases empty

end Tag

namespace Token

/-- What a tag comes to whose text starts with an equals sign. If another equals sign ends the text,
the two delimiters between them are in effect from then on, or the source is refused for the tag. -/
theorem reads_equals {source : String} {tokens : List Token} {d : Delimiters}
    {read rest before after raw tail inner : List Char}
    (reached : Reads source.toList tokens read d rest)
    (opens : Text.splitAt? d.opening rest = some (before, after))
    (closes : Text.splitAt? d.closing after = some (raw, tail))
    (equals : Text.trim raw = '=' :: inner) :
    let line := 1 + newlines (read ++ before)
    let upTo := read ++ before ++ (d.opening ++ (raw ++ d.closing))
    let next (kind : TagKind) (content : List Char) : List Token :=
      tokens ++ ofText (1 + newlines read) before ++ [.tag ⟨kind, String.ofList content, line,
        Text.byteLength (read ++ before), Text.byteLength upTo⟩]
    (∀ content, inner = content ++ ['='] →
      (∃ d' : Delimiters, d'.AskedBy (Text.trim content) ∧
        Reads source.toList (next .delimiters (Text.trim content)) upTo d' tail) ∨
      (¬ ∃ d' : Delimiters, d'.AskedBy (Text.trim content)) ∧
        ∃ fault, scan source = .error ⟨line, fault⟩ ∧ ∀ instanceId name split,
          Template.ofSource instanceId name source split = .error (.compilation name line fault)) ∧
    ((∀ content, inner ≠ content ++ ['=']) →
      Reads source.toList (next .escaped ('=' :: inner)) upTo d tail) := by
  intro line upTo next
  have plain : d.opening = Delimiters.standard.opening → ∀ c ∈ after.head?, c ≠ '{' := by
    intro _
    rw [Text.eq_of_splitAt? closes, List.append_assoc]
    exact Tag.not_brace_of_equals equals _
  obtain ⟨⟨⟨body, further⟩, covers⟩, cut, same⟩ := Tag.split?_plain plain closes
  obtain ⟨rfl, rfl⟩ := Prod.mk.inj same
  -- The tag that is read stands behind the text before it.
  have goes {kind : TagKind} {content : List Char} {d' : Delimiters}
      (found : Tag.read d after = .ok ⟨kind, content, d', raw ++ d.closing, further, covers⟩) :
      Reads source.toList (next kind content) upTo d' further :=
    reached.tag opens found
  refine ⟨?_, fun unended => goes (Tag.read_unequal cut equals unended)⟩
  rintro content rfl
  rcases Tag.read_equals cut equals with ⟨d', asked, found⟩ | ⟨unasked, fault, refused⟩
  · exact .inl ⟨d', asked, goes found⟩
  · have failed : scan source = .error ⟨line, fault⟩ := by
      rw [scan, reached.scanFrom, scanFrom_of_refused _ _ opens refused, Nat.add_assoc, ← newlines_append]
      rfl
    exact .inr ⟨unasked, fault, failed, fun instanceId name split =>
      Template.ofSource_of_refused failed instanceId name split⟩

theorem reads_equals_percent :
    let source := "\x7b\x7b=<% %>=\x7d\x7d<%x%>"
    Text.splitAt? Delimiters.standard.opening source.toList =
        some ([], "=<% %>=\x7d\x7d<%x%>".toList) ∧
      Text.splitAt? Delimiters.standard.closing "=<% %>=\x7d\x7d<%x%>".toList =
        some ("=<% %>=".toList, "<%x%>".toList) ∧
      Text.trim "=<% %>=".toList = '=' :: "<% %>=".toList ∧
      ∃ d' : Delimiters, d'.AskedBy "<% %>".toList ∧
        Reads source.toList [.tag ⟨.delimiters, "<% %>", 1, 0, 11⟩]
          "\x7b\x7b=<% %>=\x7d\x7d".toList d' "<%x%>".toList := by
  intro source
  have opens : Text.splitAt? Delimiters.standard.opening source.toList =
      some ([], "=<% %>=\x7d\x7d<%x%>".toList) := by decide
  have closes : Text.splitAt? Delimiters.standard.closing "=<% %>=\x7d\x7d<%x%>".toList =
      some ("=<% %>=".toList, "<%x%>".toList) := by decide
  have equals : Text.trim "=<% %>=".toList = '=' :: "<% %>=".toList := by decide
  refine ⟨opens, closes, equals, ?_⟩
  rcases (reads_equals .start opens closes equals).1 "<% %>".toList (by decide) with
    found | ⟨unasked, _⟩
  · exact found
  · exact absurd ⟨⟨['<', '%'], ['%', '>'], by decide, by decide⟩, by decide, by decide, by decide⟩
      unasked

/-- A tag that starts with an equals sign and has no other is neither refused nor read as a delimiter
tag. -/
theorem not_refused_unended :
    let source := "\x7b\x7b= x\x7d\x7d"
    Text.splitAt? Delimiters.standard.opening source.toList = some ([], "= x\x7d\x7d".toList) ∧
      Text.splitAt? Delimiters.standard.closing "= x\x7d\x7d".toList = some ("= x".toList, []) ∧
      Text.trim "= x".toList = '=' :: " x".toList ∧
      ¬ ((∃ content, ∃ d' : Delimiters, " x".toList = content ++ ['='] ∧
          d'.AskedBy (Text.trim content)) ∨ ∃ fault, scan source = .error ⟨1, fault⟩) ∧
      scan source = .ok [.tag ⟨.escaped, "= x", 1, 0, 7⟩] := by
  intro source
  have scanned : scan "\x7b\x7b= x\x7d\x7d" = .ok [.tag ⟨.escaped, "= x", 1, 0, 7⟩] := by
    with_unfolding_all rfl
  refine ⟨by decide, by decide, by decide, ?_, scanned⟩
  rintro (⟨content, d', ended, _⟩ | ⟨fault, failed⟩)
  · have last := congrArg List.getLast? ended
    rw [List.getLast?_concat] at last
    exact absurd last (by decide)
  · cases scanned.symm.trans failed

end Token

end Logicless
