import Logicless.Proofs.Nesting

/-!
# Printing

Outlines printed with the standard delimiters. Their pieces are read again as they are, texts line
by line (`Token.scan_print`): no boundary moves, whatever stands before or after it.
-/

namespace Logicless

/-! ### Printing -/

namespace TagKind

/-- What stands between the opening delimiter and the content of a tag. -/
def sigil : TagKind → List Char
  | .escaped => []
  | .unescaped => ['{']
  | .sectionStart => ['#']
  | .invertedStart => ['^']
  | .sectionEnd => ['/']
  | .comment => ['!']
  | .inclusion => ['>']
  | .delimiters => ['=']

def closer : TagKind → List Char
  | .unescaped => ['}']
  | .delimiters => ['=']
  | _ => []

theorem sigil_of_plain {kind : TagKind} (plain : kind ≠ .unescaped) (other : kind ≠ .escaped) :
    ∃ c, kind.sigil = [c] ∧ Text.isBlank c = false ∧ c ≠ '}' ∧ c ≠ '{' := by
  cases kind with
  | unescaped => exact absurd rfl plain
  | escaped => exact absurd rfl other
  | _ => exact ⟨_, rfl, by decide, by decide, by decide⟩

theorem closer_of_plain {kind : TagKind} (plain : kind ≠ .unescaped) (kept : kind ≠ .delimiters) :
    kind.closer = [] := by
  cases kind with
  | unescaped => exact absurd rfl plain
  | delimiters => exact absurd rfl kept
  | _ => rfl

end TagKind

namespace Piece

def isText : Piece → Bool
  | .text _ => true
  | .tag .. => false

def chars : Piece → List Char
  | .text s => s.toList
  | .tag kind content =>
    Delimiters.standard.opening ++
      (kind.sigil ++ (content.toList ++ (kind.closer ++ Delimiters.standard.closing)))

def print (ps : List Piece) : List Char :=
  ps.flatMap chars

def sigils : List Char :=
  ['#', '^', '/', '!', '>', '&', '{', '=']

/-- A piece that is read as it is printed, whatever tags are around it. -/
def Fits : Piece → Prop
  | .text s =>
    s ≠ "" ∧ ¬ Delimiters.standard.opening <:+: s.toList ∧ s.toList.getLast? ≠ some '{'
  | .tag kind content =>
    kind ≠ .delimiters ∧ Text.Trimmed content.toList ∧ '}' ∉ content.toList ∧
      (content = "" → kind = .comment) ∧
      (kind = .escaped → ∀ c ∈ content.toList.head?, c ∉ sigils)

instance : DecidablePred Fits
  | .text s =>
    have : Decidable (Delimiters.standard.opening <:+: s.toList) :=
      List.instDecidableIsInfixOfDecidableEq _ _
    inferInstanceAs (Decidable (_ ∧ _))
  | .tag _ content =>
    have : Decidable (∀ c ∈ content.toList.head?, c ∉ sigils) := Option.decidableForallMem _
    inferInstanceAs (Decidable (_ ∧ _))

/-- Pieces that fit, no two texts side by side. -/
inductive Legible : List Piece → Prop where
  | nil : Legible []
  | text {s : String} {ps : List Piece} (fits : (Piece.text s).Fits)
      (apart : ∀ p ∈ ps.head?, p.isText = false) (rest : Legible ps) : Legible (.text s :: ps)
  | tag {kind : TagKind} {content : String} {ps : List Piece} (fits : (Piece.tag kind content).Fits)
      (rest : Legible ps) : Legible (.tag kind content :: ps)

/-- The tag at place `i` writes no value, and its line has nothing but blanks before and after it.
A newline inside a tag ends no line. -/
def standsAlone (ps : List Piece) (i : Nat) : Bool :=
  match ps[i]? with
  | some (.tag kind _) =>
    kind.standsAlone && ((print (ps.take i)).reverse.takeWhile (· ≠ '\n')).all Text.isBlank &&
      ((print (ps.drop (i + 1))).takeWhile (· ≠ '\n')).all Text.isBlank
  | _ => false

def lines : Piece → List Piece
  | .text s => (splitAfter (· == '\n') s.toList).map fun line => .text (String.ofList line)
  | .tag kind content => [.tag kind content]

theorem print_append (xs ys : List Piece) : print (xs ++ ys) = print xs ++ print ys :=
  List.flatMap_append

theorem print_lines (ps : List Piece) : print (ps.flatMap lines) = print ps := by
  induction ps with
  | nil => rfl
  | cons p ps ih =>
    have own : print p.lines = p.chars := by
      cases p with
      | text s =>
        have whole := flatten_splitAfter (· == '\n') s.toList
        simp only [print, lines, List.flatMap_map, chars, String.toList_ofList]
        rw [List.flatMap_id', whole]
      | tag kind content => exact List.append_nil _
    rw [List.flatMap_cons, print_append, own, ih]
    rfl

end Piece

namespace Outline

def isText : Outline → Bool
  | .text _ => true
  | _ => false

mutual

def Fits : Outline → Prop
  | .text s => (Piece.text s).Fits
  | .value unescaped key => (Piece.tag (.value unescaped) key).Fits
  | .block inverted key children => (Piece.tag (.start inverted) key).Fits ∧ AllFit children
  | .inclusion name => (Piece.tag .inclusion name).Fits
  | .comment s => (Piece.tag .comment s).Fits

def AllFit : List Outline → Prop
  | [] => True
  | o :: rest => Fits o ∧ (o.isText = true → ∀ next ∈ rest.head?, next.isText = false) ∧ AllFit rest

end

mutual

instance decidableFits : DecidablePred Fits
  | .text s => inferInstanceAs (Decidable (Piece.text s).Fits)
  | .value unescaped key => inferInstanceAs (Decidable (Piece.tag (.value unescaped) key).Fits)
  | .block inverted key children =>
    have := decidableAllFit children
    inferInstanceAs (Decidable ((Piece.tag (.start inverted) key).Fits ∧ AllFit children))
  | .inclusion name => inferInstanceAs (Decidable (Piece.tag .inclusion name).Fits)
  | .comment s => inferInstanceAs (Decidable (Piece.tag .comment s).Fits)

instance decidableAllFit : DecidablePred AllFit
  | [] => inferInstanceAs (Decidable True)
  | o :: rest =>
    have := decidableFits o
    have := decidableAllFit rest
    inferInstanceAs (Decidable (Fits o ∧
      (o.isText = true → ∀ next ∈ rest.head?, next.isText = false) ∧ AllFit rest))

end

def print (outlines : List Outline) : String :=
  String.ofList (Piece.print (piecesAll outlines))

/-- No tag stands alone on its line. -/
def Mixed (outlines : List Outline) : Prop :=
  ∀ i < (piecesAll outlines).length, Piece.standsAlone (piecesAll outlines) i = false

instance (outlines : List Outline) : Decidable (Mixed outlines) :=
  Nat.decidableBallLT _ _

end Outline

/-! ### Legible pieces -/

namespace Outline

theorem isText_head?_pieces (o : Outline) (rest : List Piece) :
    ∃ p, (pieces o ++ rest).head? = some p ∧ p.isText = o.isText := by
  cases o <;> exact ⟨_, rfl, rfl⟩

mutual

theorem legible_pieces : ∀ (o : Outline) {rest : List Piece}, Fits o →
    (o.isText = true → ∀ p ∈ rest.head?, p.isText = false) → Piece.Legible rest →
      Piece.Legible (pieces o ++ rest)
  | .text s, rest, fits, apart, legible => .text fits (apart rfl) legible
  | .value unescaped key, rest, fits, _, legible => .tag fits legible
  | .inclusion name, rest, fits, _, legible => .tag fits legible
  | .comment s, rest, fits, _, legible => .tag fits legible
  | .block inverted key children, rest, ⟨fits, within⟩, _, legible => by
    have close : (Piece.tag .sectionEnd key).Fits := by
      obtain ⟨_, trimmed, bare, nonempty, _⟩ := fits
      refine ⟨by decide, trimmed, bare, fun empty => ?_, fun kind => by cases kind⟩
      have comment := nonempty empty
      cases inverted <;> cases comment
    have inner := legible_piecesAll children within (.tag close legible) (by simp [Piece.isText])
    rw [pieces, List.cons_append, List.append_assoc]
    exact .tag fits inner

theorem legible_piecesAll : ∀ (outlines : List Outline) {rest : List Piece}, AllFit outlines →
    Piece.Legible rest → (∀ p ∈ rest.head?, p.isText = false) →
      Piece.Legible (piecesAll outlines ++ rest)
  | [], rest, _, legible, _ => legible
  | o :: outlines, rest, ⟨fits, apart, others⟩, legible, tag => by
    have after := legible_piecesAll outlines others legible tag
    rw [piecesAll, List.append_assoc]
    refine legible_pieces o fits (fun text p head => ?_) after
    cases outlines with
    | nil => exact tag p head
    | cons next outlines =>
      obtain ⟨q, head', same⟩ := isText_head?_pieces next (piecesAll outlines ++ rest)
      rw [piecesAll, List.append_assoc, head'] at head
      cases head
      exact same.trans (apart text next rfl)

end

theorem legible_of_allFit {outlines : List Outline} (fits : AllFit outlines) :
    Piece.Legible (piecesAll outlines) := by
  have legible := legible_piecesAll outlines fits .nil (fun _ head => by cases head)
  rwa [List.append_nil] at legible

end Outline

/-! ### Reading a printed tag -/

namespace Tag

section

variable {d : Delimiters} {after raw rest : List Char}

theorem split?_triple (standard : d.opening = Delimiters.standard.opening)
    (cut : Text.splitAt? ('}' :: d.closing) after = some (raw, rest)) :
    ∃ p, split? d ('{' :: after) = .ok (true, raw, p) ∧ p.1 = ('{' :: raw ++ '}' :: d.closing, rest) := by
  rw [split?, if_pos standard]
  split
  · next found =>
    rw [cut] at found
    cases found
    exact ⟨_, rfl, rfl⟩
  · next missing =>
    rw [cut] at missing
    cases missing

theorem split?_plain (other : d.opening = Delimiters.standard.opening → ∀ c ∈ after.head?, c ≠ '{')
    (cut : Text.splitAt? d.closing after = some (raw, rest)) :
    ∃ p, split? d after = .ok (false, raw, p) ∧ p.1 = (raw ++ d.closing, rest) := by
  unfold split?
  split
  · split
    · next standard => exact absurd rfl (other standard _ rfl)
    · split
      · next found =>
        rw [cut] at found
        cases found
        exact ⟨_, rfl, rfl⟩
      · next missing =>
        rw [cut] at missing
        cases missing
  · split
    · next found =>
      rw [cut] at found
      cases found
      exact ⟨_, rfl, rfl⟩
    · next missing =>
      rw [cut] at missing
      cases missing

theorem read_of_tells {triple : Bool} {p : { p : List Char × List Char // after = p.1 ++ p.2 }}
    (cut : split? d after = .ok (triple, raw, p)) {kind : TagKind} {content : List Char}
    {d' : Delimiters} (tells : Tells d triple raw kind content d') :
    read d after = .ok ⟨kind, content, d', p.1.1, p.1.2, p.2⟩ := by
  obtain ⟨label, given, changes⟩ := tells
  have nonempty : (content.isEmpty && kind != .comment) = false := by
    cases content with
    | nil => simp [given rfl]
    | cons _ _ => rfl
  obtain ⟨⟨body, rest⟩, covers⟩ := p
  rw [read, cut]
  simp only [bind, Except.bind, label, nonempty]
  by_cases asks : kind = .delimiters
  · rw [if_pos asks] at changes
    simp only [if_pos asks, changes]
    rfl
  · rw [if_neg asks] at changes
    subst changes
    simp only [if_neg asks]
    rfl

end

/-- A sigil tells the kind. -/
theorem classify_sigil {kind : TagKind} {content : String} (fits : (Piece.tag kind content).Fits)
    (plain : kind ≠ .unescaped) :
    classify (kind.sigil ++ content.toList) = (kind, content.toList) := by
  obtain ⟨kept, trimmed, _, given, free⟩ := fits
  have trim := Text.trim_of_trimmed trimmed
  cases kind with
  | unescaped => exact absurd rfl plain
  | delimiters => exact absurd rfl kept
  | escaped =>
    have free := free rfl
    cases same : content.toList with
    | nil => rfl
    | cons c cs =>
      rw [same] at free
      have other := free c rfl
      simp only [Piece.sigils, List.mem_cons, List.not_mem_nil, not_or] at other
      obtain ⟨h₁, h₂, h₃, h₄, h₅, h₆, h₇, h₈, _⟩ := other
      simp [TagKind.sigil, classify, *]
  | _ => simp [TagKind.sigil, classify, trim]

/-- The raw text of a printed tag with two braces on each side. -/
theorem raw_of_plain {kind : TagKind} {content : String} (fits : (Piece.tag kind content).Fits)
    (plain : kind ≠ .unescaped) :
    Text.Trimmed (kind.sigil ++ content.toList) ∧ '}' ∉ kind.sigil ++ content.toList ∧
      ∀ c ∈ (kind.sigil ++ content.toList).head?, c ≠ '{' := by
  obtain ⟨_, trimmed, bare, _, free⟩ := fits
  by_cases escaped : kind = .escaped
  · subst escaped
    refine ⟨trimmed, bare, fun c head brace => free rfl c head ?_⟩
    rw [brace]
    decide
  · obtain ⟨c, sigil, visible, other, other'⟩ := TagKind.sigil_of_plain plain escaped
    rw [sigil, List.singleton_append]
    refine ⟨trimmed.cons visible, ?_, ?_⟩
    · simpa [other.symm] using bare
    · simpa using other'

/-- A printed tag is read. -/
theorem read_print {kind : TagKind} {content : String} (fits : (Piece.tag kind content).Fits)
    (rest : List Char) :
    ∃ r, read Delimiters.standard (kind.sigil ++ (content.toList ++ (kind.closer ++
        (Delimiters.standard.closing ++ rest)))) = .ok r ∧ r.kind = kind ∧
      r.content = content.toList ∧ r.delimiters = Delimiters.standard ∧ r.rest = rest := by
  have label := classify_sigil fits
  have plainly := raw_of_plain fits
  obtain ⟨kept, trimmed, bare, given, _⟩ := fits
  have given (empty : content.toList = []) : kind = .comment :=
    given (String.toList_eq_nil_iff.mp empty)
  -- The closing delimiter is found where it was printed, as no brace is before it.
  by_cases triple : kind = .unescaped
  · subst triple
    obtain ⟨p, cut, left⟩ := split?_triple rfl
      (Text.splitAt?_of_not_mem bare Delimiters.standard.closing rest)
    have found := read_of_tells cut
      ⟨by rw [if_pos rfl, Text.trim_of_trimmed trimmed], given, by rw [if_neg kept]⟩
    exact ⟨_, found, rfl, rfl, rfl, congrArg Prod.snd left⟩
  · obtain ⟨trimmed, bare, other⟩ := plainly triple
    have other : ∀ c ∈ (kind.sigil ++ content.toList ++
        (Delimiters.standard.closing ++ rest)).head?, c ≠ '{' := by
      cases raw : kind.sigil ++ content.toList with
      | nil =>
        rintro c ⟨⟩
        decide
      | cons c cs =>
        rw [raw] at other
        exact other
    obtain ⟨p, cut, left⟩ := split?_plain (d := Delimiters.standard) (fun _ => other)
      (Text.splitAt?_of_not_mem bare ['}'] rest)
    have label : classify (Text.trim (kind.sigil ++ content.toList)) = (kind, content.toList) := by
      rw [Text.trim_of_trimmed trimmed, label triple]
    have found := read_of_tells cut
      ⟨by rw [if_neg Bool.false_ne_true, label], given, by rw [if_neg kept]⟩
    rw [TagKind.closer_of_plain triple kept, List.nil_append, ← List.append_assoc]
    exact ⟨_, found, rfl, rfl, rfl, congrArg Prod.snd left⟩

end Tag

namespace Token

variable {d : Delimiters}

theorem ofText_nil (line : Nat) : ofText line [] = [] := rfl

/-- Text is read up to the next tag. -/
theorem scanFrom_text (offset line : Nat) {cs rest : List Char}
    (next : rest = [] ∨ d.opening <+: rest)
    (first : ∀ tail, tail ≠ [] → tail <:+ cs → ¬ d.opening <+: tail ++ rest) :
    scanFrom d offset line (cs ++ rest) =
      (scanFrom d (offset + Text.byteLength cs) (line + newlines cs) rest).map
        fun tokens => ofText line cs ++ tokens := by
  rcases next with rfl | ⟨after, rfl⟩
  · have missing : Text.splitAt? d.opening cs = none := by
      rw [Text.splitAt?_eq_none_iff d.opening_ne]
      intro inside
      obtain ⟨tail, starts, suffix⟩ := List.infix_iff_prefix_suffix.mp inside
      refine first tail (fun empty => ?_) suffix (by rwa [List.append_nil])
      rw [empty, List.prefix_nil] at starts
      exact d.opening_ne starts
    have missing' : Text.splitAt? d.opening [] = none :=
      (Text.splitAt?_eq_none_iff d.opening_ne).mpr (by simpa using d.opening_ne)
    rw [List.append_nil, scanFrom_of_none _ _ missing, scanFrom_of_none _ _ missing']
    simp [ofText_nil, Except.map]
  · have cut := Text.splitAt?_append d.opening_ne first
    have cut' := Text.splitAt?_self d.opening_ne after
    cases result : Tag.read d after with
    | error fault =>
      rw [scanFrom_of_refused _ _ cut result, scanFrom_of_refused _ _ cut' result]
      rfl
    | ok r =>
      rw [scanFrom_of_read _ _ cut result, scanFrom_of_read _ _ cut' result]
      simp only [Text.byteLength_append, newlines_append, List.nil_append, ofText_nil, Nat.add_assoc]
      generalize scanFrom _ _ _ r.rest = scanned
      cases scanned with
      | error f => rfl
      | ok tokens => simp [Except.map, Text.byteLength, newlines]

/-- A printed tag is read as a token. -/
theorem scanFrom_tag (offset line : Nat) {kind : TagKind} {content : String}
    (fits : (Piece.tag kind content).Fits) (rest : List Char) :
    ∃ t offset' line', (Token.tag t).piece = .tag kind content ∧
      scanFrom Delimiters.standard offset line ((Piece.tag kind content).chars ++ rest) =
        (scanFrom Delimiters.standard offset' line' rest).map fun tokens => .tag t :: tokens := by
  obtain ⟨r, found, same, read, delimiters, left⟩ := Tag.read_print fits rest
  have cut := Text.splitAt?_self Delimiters.standard.opening_ne
    (kind.sigil ++ (content.toList ++ (kind.closer ++ (Delimiters.standard.closing ++ rest))))
  have scanned := scanFrom_of_read offset line cut found
  rw [left, delimiters] at scanned
  simp only [Piece.chars, List.append_assoc]
  refine ⟨_, _, _, ?_, scanned⟩
  rw [Token.piece, same, read, String.ofList_toList]

theorem ofText_pieces (line : Nat) (s : String) :
    (ofText line s.toList).map piece = (Piece.text s).lines := by
  refine List.ext_getElem? fun i => ?_
  simp only [ofText, Piece.lines, List.getElem?_map, List.getElem?_mapIdx, Option.map_map]
  rfl

/-- No opening delimiter starts in a text that fits, whatever follows. -/
theorem first_of_fits {s : String} (fits : (Piece.text s).Fits) (rest tail : List Char)
    (nonempty : tail ≠ []) (suffix : tail <:+ s.toList) :
    ¬ Delimiters.standard.opening <+: tail ++ rest := by
  obtain ⟨_, clear, last⟩ := fits
  intro starts
  match tail, nonempty with
  | [c], _ =>
    obtain ⟨rfl, _⟩ := List.cons_prefix_cons.mp starts
    obtain ⟨init, same⟩ := suffix
    rw [← same, List.getLast?_concat] at last
    exact last rfl
  | c :: c' :: cs, _ =>
    obtain ⟨first, more⟩ := List.cons_prefix_cons.mp starts
    obtain ⟨second, _⟩ := List.cons_prefix_cons.mp more
    subst first second
    exact clear (List.IsInfix.trans ⟨[], cs, rfl⟩ suffix.isInfix)

theorem scanFrom_print {ps : List Piece} (legible : Piece.Legible ps) (offset line : Nat) :
    ∃ tokens, scanFrom Delimiters.standard offset line (Piece.print ps) = .ok tokens ∧
      tokens.map piece = ps.flatMap Piece.lines := by
  induction legible generalizing offset line with
  | nil => exact ⟨[], scanFrom_of_none _ _ rfl, rfl⟩
  | @text s ps fits apart rest ih =>
    -- A tag or the end of the source is next, for another text would be read with this one.
    have next : Piece.print ps = [] ∨ Delimiters.standard.opening <+: Piece.print ps := by
      cases rest with
      | nil => exact .inl rfl
      | text => cases apart _ rfl
      | tag => exact .inr ⟨_, by rw [Piece.print, List.flatMap_cons, Piece.chars, List.append_assoc]⟩
    obtain ⟨tokens, scanned, same⟩ :=
      ih (offset + Text.byteLength s.toList) (line + newlines s.toList)
    have read := scanFrom_text offset line next (first_of_fits fits _)
    rw [scanned] at read
    refine ⟨_, read, ?_⟩
    rw [List.map_append, ofText_pieces, same, List.flatMap_cons]
  | @tag kind content ps fits rest ih =>
    obtain ⟨t, offset', line', own, read⟩ :=
      scanFrom_tag offset line fits (Piece.print ps)
    obtain ⟨tokens, scanned, same⟩ := ih offset' line'
    rw [scanned] at read
    refine ⟨_, read, ?_⟩
    rw [List.map_cons, own, same, List.flatMap_cons]
    rfl

/-- Printed pieces are read as they are, texts line by line. -/
theorem scan_print {ps : List Piece} (legible : Piece.Legible ps) :
    ∃ tokens, scan (String.ofList (Piece.print ps)) = .ok tokens ∧
      tokens.map piece = ps.flatMap Piece.lines := by
  rw [scan, String.toList_ofList]
  exact scanFrom_print legible 0 1

end Token

end Logicless
