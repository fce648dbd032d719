import Logicless.Proofs.Reading

/-!
# Parts of a source

The tokens of a source do not depend on where it stands (`Token.scanFrom_shift`), nor those up to a tag
on that tag and what follows it (`Token.scanFrom_upTo`). So a part of a source between two tags has the
tokens that the source has there, if it starts with the standard delimiters
(`Token.scan_between`).
-/

namespace Logicless

/-- The tag in a text that follows `n` bytes and `k` lines. -/
def Tag.shift (n k : Nat) (t : Tag) : Tag :=
  { t with line := k + t.line, start := n + t.start, stop := n + t.stop }

namespace Token

def shift (n k : Nat) : Token → Token
  | .text s line => .text s (k + line)
  | .tag t => .tag (t.shift n k)

theorem ofText_shift (n k line : Nat) (cs : List Char) :
    ofText (k + line) cs = (ofText line cs).map (shift n k) := by
  refine List.ext_getElem? fun i => ?_
  simp only [ofText, List.getElem?_map, List.getElem?_mapIdx, Option.map_map, Function.comp_def, shift,
    Nat.add_assoc]

/-- Tokens do not depend on where they stand. -/
theorem scanFrom_shift {d : Delimiters} {n k offset line : Nat} {cs : List Char} {tokens : List Token}
    (scanned : scanFrom d (n + offset) (k + line) cs = .ok tokens) :
    ∃ own, scanFrom d offset line cs = .ok own ∧ tokens = own.map (shift n k) := by
  induction d, cs using scan_induction generalizing offset line tokens with
  | text cut =>
    rw [scanFrom_of_none _ _ cut] at scanned ⊢
    cases scanned
    exact ⟨_, rfl, ofText_shift n k line _⟩
  | refused cut result =>
    rw [scanFrom_of_refused _ _ cut result] at scanned
    cases scanned
  | @read d _ before _ r cut result ih =>
    rw [scanFrom_of_read _ _ cut result] at scanned ⊢
    simp only [Nat.add_assoc] at scanned
    generalize further : scanFrom r.delimiters _ _ r.rest = scanned' at scanned
    cases scanned' with
    | error f => cases scanned
    | ok more =>
      cases scanned
      obtain ⟨own, scanned, rfl⟩ := ih further
      rw [scanned]
      refine ⟨_, rfl, ?_⟩
      simp [ofText_shift n, shift, Tag.shift]

/-- The tokens up to a tag are those of the text up to it. -/
theorem scanFrom_upTo {d : Delimiters} {offset line : Nat} {cs : List Char} {inner after : List Token}
    {c : Tag} (scanned : scanFrom d offset line cs = .ok (inner ++ .tag c :: after)) :
    ∃ part more, cs = part ++ more ∧ c.start = offset + Text.byteLength part ∧
      scanFrom d offset line part = .ok inner := by
  induction d, cs using scan_induction generalizing offset line inner with
  | text cut =>
    rw [scanFrom_of_none _ _ cut] at scanned
    exact absurd (Except.ok.inj scanned) (ofText_ne inner after c)
  | refused cut result =>
    rw [scanFrom_of_refused _ _ cut result] at scanned
    cases scanned
  | @read d _ before further r cut result ih =>
    rw [scanFrom_of_read _ _ cut result] at scanned
    generalize later : scanFrom r.delimiters _ _ r.rest = scanned' at scanned
    cases scanned' with
    | error f => cases scanned
    | ok tokens =>
      rcases split_at_tag (fun _ => tag?_of_mem_ofText) (Except.ok.inj scanned) with
        ⟨rfl, rfl, rfl⟩ | ⟨between, rfl, rfl⟩
      · have clear : Text.splitAt? d.opening before = none :=
          (Text.splitAt?_eq_none_iff d.opening_ne).mpr (Text.not_infix_of_splitAt? d.opening_ne cut)
        refine ⟨before, d.opening ++ further, ?_, rfl, scanFrom_of_none _ _ clear⟩
        rw [Text.eq_of_splitAt? cut, List.append_assoc]
      · obtain ⟨part, more, rest, start, scanned'⟩ := ih later
        -- The tag is read as before, with nothing but the part behind it.
        obtain ⟨r', result', kind, content, delimiters, body, rest'⟩ := Tag.read_retail result part
        have cut' := Text.splitAt?_retail d.opening_ne cut (r.body ++ part)
        refine ⟨before ++ (d.opening ++ (r.body ++ part)), more, ?_, ?_, ?_⟩
        · rw [r.whole cut, rest]
          simp only [List.append_assoc]
        · rw [start]
          simp only [Text.byteLength_append, Nat.add_assoc]
        · rw [scanFrom_of_read _ _ cut' result', kind, content, delimiters, body, rest', scanned']
          rfl

/-- What a source has between two tags has the tokens that stand there, if the first of the tags leaves
the standard delimiters in effect. -/
theorem scan_between {source : String} {before inner after : List Token} {o c : Tag}
    (scanned : scan source = .ok (before ++ .tag o :: (inner ++ .tag c :: after)))
    (inEffect : Delimiters.after (before ++ [.tag o]) = some .standard) :
    ∃ part own k, Text.Between source.toList o.stop c.start part ∧
      scan (String.ofList part) = .ok own ∧ inner = own.map (shift o.stop k) := by
  have first : Reads source.toList [] [] .standard source.toList := .start
  obtain ⟨read, d, rest, reached, scanned⟩ := first.reach scanned
  rw [List.nil_append] at reached
  have whole := reached.whole
  obtain ⟨tiled, same⟩ := reached.tiles
  obtain rfl : Delimiters.standard = d := Option.some.inj (inEffect.symm.trans same)
  obtain ⟨part, more, rfl, start, scanned⟩ := scanFrom_upTo scanned
  have stop : o.stop = Text.byteLength read := by
    obtain ⟨joined, stands⟩ := tiled.stands []
    obtain ⟨_, _, _, _, stop, _⟩ := stands before (.tag o) [] rfl
    rw [stop, joined]
  have moved : scanFrom .standard (o.stop + 0) (newlines read + 1) part = .ok inner := by
    rw [stop, Nat.add_comm _ 1]
    exact scanned
  obtain ⟨own, scanned, shifted⟩ := scanFrom_shift moved
  refine ⟨part, own, newlines read, ⟨read, more, ?_, stop, ?_⟩, ?_, shifted⟩
  · rw [whole, List.append_assoc]
  · rw [start, Text.byteLength_append]
  · rw [scan, String.toList_ofList]
    exact scanned

end Token

end Logicless
