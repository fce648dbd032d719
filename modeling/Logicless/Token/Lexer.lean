import Logicless.Error
import Logicless.Text.Blank
import Logicless.Text.Bytes
import Logicless.Text.Pieces
import Logicless.Text.Search
import Logicless.Token

/-!
# Reading tokens

`Token.scan` reads a source into tokens. Tags stand between an opening and a closing delimiter,
and a tag may replace both for what follows.
-/

namespace Logicless

/-- The marks between which tags stand. -/
structure Delimiters where
  opening : List Char
  closing : List Char
  opening_ne : opening ≠ []
  closing_ne : closing ≠ []

namespace Delimiters

/-- Two braces on each side. -/
def standard : Delimiters where
  opening := ['{', '{']
  closing := ['}', '}']
  opening_ne := by decide
  closing_ne := by decide

/-- The delimiters that the content of a delimiter tag asks for. -/
def ofContent? (content : List Char) : Option Delimiters :=
  match h : Text.words content with
  | [opening, closing] =>
    have nonempty : ∀ w ∈ [opening, closing], w ≠ [] := fun w member =>
      Text.ne_nil_of_mem_words (h ▸ member)
    if '=' ∈ opening ∨ '=' ∈ closing then none
    else some ⟨opening, closing, nonempty opening (by simp), nonempty closing (by simp)⟩
  | _ => none

end Delimiters

namespace Tag

/-- The kind that the trimmed text between the delimiters gives a tag, and the tag's content. -/
def classify : List Char → TagKind × List Char
  | [] => (.escaped, [])
  | sigil :: after =>
    let rest := Text.trim after
    match sigil with
    | '#' => (.sectionStart, rest)
    | '^' => (.invertedStart, rest)
    | '/' => (.sectionEnd, rest)
    | '!' => (.comment, rest)
    | '>' => (.inclusion, rest)
    | '&' => (.unescaped, rest)
    | '{' =>
      (.unescaped, Text.trim (if rest.getLast? = some '}' then rest.dropLast else rest))
    | '=' =>
      if after.getLast? = some '=' then (.delimiters, Text.trim after.dropLast)
      else (.escaped, sigil :: after)
    | _ => (.escaped, sigil :: after)

/-- A tag read from the text `after` its opening delimiter: `body` ends with the closing one. -/
structure Reading (after : List Char) where
  kind : TagKind
  content : List Char
  delimiters : Delimiters
  body : List Char
  rest : List Char
  covers : after = body ++ rest

theorem Reading.length_rest_le {after : List Char} (r : Reading after) :
    r.rest.length ≤ after.length := by
  have := congrArg List.length r.covers
  simp only [List.length_append] at this
  omega

/-- What is read is the text before the tag, the tag, and what comes after it. -/
theorem Reading.whole {d : Delimiters} {cs before after : List Char} (r : Reading after)
    (cut : Text.splitAt? d.opening cs = some (before, after)) :
    cs = before ++ (d.opening ++ (r.body ++ r.rest)) := by
  rw [← r.covers, ← List.append_assoc]
  exact Text.eq_of_splitAt? cut

/-- Each tag makes the rest of the source shorter. -/
theorem Reading.shorter {d : Delimiters} {cs before after : List Char} (r : Reading after)
    (cut : Text.splitAt? d.opening cs = some (before, after)) : r.rest.length < cs.length :=
  Nat.lt_of_le_of_lt r.length_rest_le (Text.length_lt_of_splitAt? d.opening_ne cut)

/-- The raw text of the tag that `after` starts with, its `body` and what follows. With the
standard opening delimiter, a third brace asks for a third brace at the end. -/
def split? (d : Delimiters) (after : List Char) :
    Except Fault (Bool × List Char × { p : List Char × List Char // after = p.1 ++ p.2 }) :=
  match after with
  | '{' :: after =>
    if d.opening = Delimiters.standard.opening then
      match h : Text.splitAt? ('}' :: d.closing) after with
      | some (raw, rest) =>
        .ok (true, raw, ⟨('{' :: raw ++ '}' :: d.closing, rest), by
          simp [Text.eq_of_splitAt? h]⟩)
      | none => .error (.unterminatedTag "\x7b\x7b\x7b")
    else
      match h : Text.splitAt? d.closing ('{' :: after) with
      | some (raw, rest) => .ok (false, raw, ⟨(raw ++ d.closing, rest), Text.eq_of_splitAt? h⟩)
      | none => .error (.unterminatedTag (String.ofList d.opening))
  | after =>
    match h : Text.splitAt? d.closing after with
    | some (raw, rest) => .ok (false, raw, ⟨(raw ++ d.closing, rest), Text.eq_of_splitAt? h⟩)
    | none => .error (.unterminatedTag (String.ofList d.opening))

/-- Read the tag that `after` continues. -/
def read (d : Delimiters) (after : List Char) : Except Fault (Reading after) := do
  let (triple, raw, ⟨(body, rest), covers⟩) ← split? d after
  let (kind, content) := if triple then (.unescaped, Text.trim raw) else classify (Text.trim raw)
  if content.isEmpty && kind != .comment then throw .emptyTag
  if kind = .delimiters then
    match Delimiters.ofContent? content with
    | some changed => return { kind, content, delimiters := changed, body, rest, covers }
    | none => throw (.invalidDelimiters (String.ofList content))
  else return { kind, content, delimiters := d, body, rest, covers }

end Tag

namespace Token

def newlines (cs : List Char) : Nat :=
  cs.count '\n'

theorem newlines_append (as bs : List Char) : newlines (as ++ bs) = newlines as + newlines bs :=
  List.count_append

theorem newlines_eq_zero {cs : List Char} (h : '\n' ∉ cs) : newlines cs = 0 :=
  List.count_eq_zero.mpr h

/-- Literal text that starts on line `line`, a token for each line it reaches. -/
def ofText (line : Nat) (cs : List Char) : List Token :=
  (splitAfter (· == '\n') cs).mapIdx fun i piece => .text (String.ofList piece) (line + i)

/-- The tokens of `cs`, which starts at byte `offset` on line `line` with delimiters `d`. -/
def scanFrom (d : Delimiters) (offset line : Nat) (cs : List Char) :
    Except SourceFault (List Token) :=
  match h : Text.splitAt? d.opening cs with
  | none => .ok (ofText line cs)
  | some (before, after) =>
    let tagLine := line + newlines before
    match Tag.read d after with
    | .error fault => .error ⟨tagLine, fault⟩
    | .ok r =>
      have : r.rest.length < cs.length :=
        Nat.lt_of_le_of_lt r.length_rest_le (Text.length_lt_of_splitAt? d.opening_ne h)
      let lexeme := d.opening ++ r.body
      let start := offset + Text.byteLength before
      let stop := start + Text.byteLength lexeme
      let tag : Tag := ⟨r.kind, String.ofList r.content, tagLine, start, stop⟩
      match scanFrom r.delimiters stop (tagLine + newlines lexeme) r.rest with
      | .error f => .error f
      | .ok tokens => .ok (ofText line before ++ .tag tag :: tokens)
termination_by cs.length

section

variable {d : Delimiters} (offset line : Nat) {cs before after : List Char}

theorem scanFrom_of_none (missing : Text.splitAt? d.opening cs = none) :
    scanFrom d offset line cs = .ok (ofText line cs) := by
  rw [scanFrom]
  split
  · rfl
  · next cut =>
    rw [missing] at cut
    cases cut

theorem scanFrom_of_refused (cut : Text.splitAt? d.opening cs = some (before, after)) {fault : Fault}
    (refused : Tag.read d after = .error fault) :
    scanFrom d offset line cs = .error ⟨line + newlines before, fault⟩ := by
  rw [scanFrom]
  split
  · next missing =>
    rw [cut] at missing
    cases missing
  · next cut' =>
    rw [cut] at cut'
    cases cut'
    simp only [refused]

theorem scanFrom_of_read (cut : Text.splitAt? d.opening cs = some (before, after))
    {r : Tag.Reading after} (read : Tag.read d after = .ok r) :
    scanFrom d offset line cs =
      (scanFrom r.delimiters (offset + Text.byteLength (before ++ (d.opening ++ r.body)))
        (line + newlines (before ++ (d.opening ++ r.body))) r.rest).map fun tokens =>
          ofText line before ++ .tag ⟨r.kind, String.ofList r.content, line + newlines before,
            offset + Text.byteLength before,
            offset + Text.byteLength (before ++ (d.opening ++ r.body))⟩ :: tokens := by
  have places : offset + Text.byteLength (before ++ (d.opening ++ r.body)) =
      offset + Text.byteLength before + Text.byteLength (d.opening ++ r.body) := by
    rw [Text.byteLength_append, Nat.add_assoc]
  have lines : line + newlines (before ++ (d.opening ++ r.body)) =
      line + newlines before + newlines (d.opening ++ r.body) := by
    rw [newlines_append, Nat.add_assoc]
  rw [scanFrom, places, lines]
  split
  · next missing =>
    rw [cut] at missing
    cases missing
  · next cut' =>
    rw [cut] at cut'
    cases cut'
    simp only [read]
    split
    · next failed => rw [failed]; rfl
    · next scanned => rw [scanned]; rfl

end

/-- What holds of a text without a tag, of a text whose first tag is refused, and of a text whose first
tag is read if it holds of what comes after the tag, holds of every text. -/
@[elab_as_elim]
theorem scan_induction {motive : Delimiters → List Char → Prop}
    (text : ∀ {d : Delimiters} {cs : List Char}, Text.splitAt? d.opening cs = none → motive d cs)
    (refused : ∀ {d : Delimiters} {cs before after : List Char} {fault : Fault},
      Text.splitAt? d.opening cs = some (before, after) → Tag.read d after = .error fault → motive d cs)
    (read : ∀ {d : Delimiters} {cs before after : List Char} {r : Tag.Reading after},
      Text.splitAt? d.opening cs = some (before, after) → Tag.read d after = .ok r →
        motive r.delimiters r.rest → motive d cs)
    (d : Delimiters) (cs : List Char) : motive d cs := by
  -- Each tag makes the rest of the text shorter.
  induction n : cs.length using Nat.strongRecOn generalizing d cs with
  | ind n ih =>
    subst n
    cases cut : Text.splitAt? d.opening cs with
    | none => exact text cut
    | some found =>
      obtain ⟨before, after⟩ := found
      cases result : Tag.read d after with
      | error fault => exact refused cut result
      | ok r => exact read cut result (ih _ (r.shorter cut) r.delimiters r.rest rfl)

/-- The tokens of a template source. -/
def scan (source : String) : Except SourceFault (List Token) :=
  scanFrom Delimiters.standard 0 1 source.toList

end Token

end Logicless
