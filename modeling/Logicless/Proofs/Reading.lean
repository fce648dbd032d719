import Logicless.Proofs.Printing
import Mathlib.Data.List.TakeWhile

/-!
# How far a source has been read

Reading goes from tag to tag. `Token.Reads` says which tokens have been read, which delimiters are in
effect, and what is left of the source. What a tag is read as does not depend on what comes after it.
-/

namespace Logicless

/-- There is nothing but blanks around what is left of a text. -/
theorem Text.exists_pad (cs : List Char) :
    ∃ left right, (∀ c ∈ left ++ right, Text.isBlank c = true) ∧
      cs = left ++ (Text.trim cs ++ right) := by
  let rest := cs.dropWhile Text.isBlank
  refine ⟨cs.takeWhile Text.isBlank, (rest.reverse.takeWhile Text.isBlank).reverse,
    fun c member => ?_, ?_⟩
  · rcases List.mem_append.mp member with member | member
    · exact List.mem_takeWhile_imp member
    · exact List.mem_takeWhile_imp (List.mem_reverse.mp member)
  · have ending : rest = Text.trim cs ++ (rest.reverse.takeWhile Text.isBlank).reverse := by
      rw [Text.trim, ← List.reverse_append, List.takeWhile_append_dropWhile, List.reverse_reverse]
    rw [← ending, List.takeWhile_append_dropWhile]

namespace Tag

variable {d : Delimiters} {after : List Char}

theorem split?_retail {raw : List Char} {triple : Bool}
    {p : { p : List Char × List Char // after = p.1 ++ p.2 }}
    (h : split? d after = .ok (triple, raw, p)) (tail : List Char) :
    ∃ q, split? d (p.1.1 ++ tail) = .ok (triple, raw, q) ∧ q.1 = (p.1.1, tail) := by
  rcases split?_ok h with ⟨rfl, standard, whole, more, same, cut⟩ | ⟨rfl, other, whole, cut⟩
  · have cut := Text.splitAt?_retail (List.cons_ne_nil _ _) cut tail
    have text : p.1.1 ++ tail = '{' :: (raw ++ ('}' :: d.closing ++ tail)) := by
      rw [whole]
      simp
    rw [text, whole]
    exact split?_triple standard cut
  · have cut := Text.splitAt?_retail d.closing_ne cut tail
    have text : p.1.1 ++ tail = raw ++ (d.closing ++ tail) := by rw [whole, List.append_assoc]
    obtain ⟨first, more, start⟩ : ∃ first more, p.1.1 = first :: more := by
      rw [whole]
      exact List.exists_cons_of_ne_nil (List.append_ne_nil_of_right_ne_nil raw d.closing_ne)
    have head : (raw ++ (d.closing ++ tail)).head? = after.head? := by
      rw [← text, start, p.2, start]
      rfl
    rw [text, whole]
    exact split?_plain (fun standard c h => other standard c (head ▸ h)) cut

/-- What a tag is read as does not depend on what comes after it. -/
theorem read_retail {r : Reading after} (h : read d after = .ok r) (tail : List Char) :
    ∃ r' : Reading (r.body ++ tail), read d (r.body ++ tail) = .ok r' ∧ r'.kind = r.kind ∧
      r'.content = r.content ∧ r'.delimiters = r.delimiters ∧ r'.body = r.body ∧ r'.rest = tail := by
  obtain ⟨triple, raw, ⟨⟨body, rest⟩, covers⟩, cut, same, tells⟩ := read_tells h
  obtain ⟨rfl, rfl⟩ := Prod.mk.inj same
  obtain ⟨q, cut, same'⟩ := split?_retail cut tail
  exact ⟨_, read_of_tells cut tells, rfl, rfl, rfl, congrArg Prod.fst same', congrArg Prod.snd same'⟩

def Reading.placed (r : Reading after) (d : Delimiters) (before : List Char) : Tag :=
  ⟨r.kind, String.ofList r.content, 1 + Token.newlines before, Text.byteLength before,
    Text.byteLength (before ++ (d.opening ++ r.body))⟩

end Tag

namespace Token

/-- Of a source the tokens have been read, which are the text `read`. The next tag has to stand
between the delimiters, and `rest` is left. -/
inductive Reads (source : List Char) :
    List Token → List Char → Delimiters → List Char → Prop where
  | start : Reads source [] [] .standard source
  | tag {tokens : List Token} {read rest before after : List Char} {d : Delimiters}
      {r : Tag.Reading after} (h : Reads source tokens read d rest)
      (cut : Text.splitAt? d.opening rest = some (before, after)) (found : Tag.read d after = .ok r) :
      Reads source
        (tokens ++ ofText (1 + newlines read) before ++ [.tag (r.placed d (read ++ before))])
        (read ++ before ++ (d.opening ++ r.body)) r.delimiters r.rest

theorem tag?_of_mem_ofText {line : Nat} {cs : List Char} {token : Token}
    (member : token ∈ ofText line cs) : token.tag? = none := by
  obtain ⟨_, _, rfl⟩ := List.mem_mapIdx.mp member
  rfl

theorem ofText_ne {line : Nat} {cs : List Char} (before after : List Token) (t : Tag) :
    ofText line cs ≠ before ++ .tag t :: after := by
  intro same
  have member : Token.tag t ∈ ofText line cs := by
    rw [same]
    simp
  cases tag?_of_mem_ofText member

/-- A tag among texts, another tag and what follows is that other tag, or it follows. -/
theorem split_at_tag {texts more before after : List Token} {t u : Tag}
    (plain : ∀ token ∈ texts, token.tag? = none)
    (same : texts ++ .tag u :: more = before ++ .tag t :: after) :
    (before = texts ∧ t = u ∧ after = more) ∨
      ∃ between, before = texts ++ .tag u :: between ∧ more = between ++ .tag t :: after := by
  induction texts generalizing before with
  | nil =>
    cases before with
    | nil =>
      cases same
      exact .inl ⟨rfl, rfl, rfl⟩
    | cons token before =>
      cases same
      exact .inr ⟨before, rfl, rfl⟩
  | cons text texts ih =>
    cases before with
    | nil =>
      cases same
      cases plain _ List.mem_cons_self
    | cons token before =>
      obtain ⟨rfl, others⟩ := List.cons.inj same
      rcases ih (fun x member => plain x (List.mem_cons_of_mem text member)) others with
        ⟨rfl, own⟩ | ⟨between, rfl, own⟩
      · exact .inl ⟨rfl, own⟩
      · exact .inr ⟨between, rfl, own⟩

section

variable {d : Delimiters} {rest before after : List Char}

theorem scanFrom_placed (read : List Char) (cut : Text.splitAt? d.opening rest = some (before, after))
    {r : Tag.Reading after} (found : Tag.read d after = .ok r) :
    scanFrom d (Text.byteLength read) (1 + newlines read) rest =
      (scanFrom r.delimiters (Text.byteLength (read ++ before ++ (d.opening ++ r.body)))
        (1 + newlines (read ++ before ++ (d.opening ++ r.body))) r.rest).map fun tokens =>
          ofText (1 + newlines read) before ++ .tag (r.placed d (read ++ before)) :: tokens := by
  rw [scanFrom_of_read _ _ cut found]
  simp only [Tag.Reading.placed, List.append_assoc, newlines_append, Text.byteLength_append,
    Nat.add_assoc]

end

namespace Reads

variable {source read rest : List Char} {tokens : List Token} {d : Delimiters}

theorem whole (h : Reads source tokens read d rest) : source = read ++ rest := by
  induction h with
  | start => rfl
  | @tag _ _ _ _ _ _ r _ cut _ ih =>
    rw [ih, r.whole cut]
    simp only [List.append_assoc]

/-- Reading goes on from where it has come to. -/
theorem scanFrom (h : Reads source tokens read d rest) :
    scanFrom .standard 0 1 source =
      (Token.scanFrom d (Text.byteLength read) (1 + newlines read) rest).map (tokens ++ ·) := by
  induction h with
  | start =>
    change Token.scanFrom .standard 0 1 source = (Token.scanFrom .standard 0 1 source).map _
    cases Token.scanFrom .standard 0 1 source <;> rfl
  | @tag tokens read rest before after d r _ cut found ih =>
    rw [ih, scanFrom_placed read cut found]
    generalize Token.scanFrom r.delimiters _ _ r.rest = scanned
    cases scanned with
    | error f => rfl
    | ok more => simp [Except.map]

/-- What has been read are the tokens, and the last delimiter tag among them has set the delimiters. -/
theorem tiles (h : Reads source tokens read d rest) :
    Tiles read tokens ∧ Delimiters.after tokens = some d := by
  induction h with
  | start => exact ⟨.nil, after_nil⟩
  | tag _ cut found ih =>
    obtain ⟨tiled, inEffect⟩ := ih
    rw [List.append_assoc (_ : List Char)]
    exact tiled.step inEffect cut found rfl rfl rfl rfl (by simp only [Tag.Reading.placed, List.append_assoc])

/-- The reading of a source comes to each of its tags. -/
theorem reach (h : Reads source tokens read d rest) {before after : List Token} {t : Tag}
    (scanned : Token.scanFrom d (Text.byteLength read) (1 + newlines read) rest =
      .ok (before ++ .tag t :: after)) :
    ∃ read' d' rest', Reads source (tokens ++ before ++ [.tag t]) read' d' rest' ∧
      Token.scanFrom d' (Text.byteLength read') (1 + newlines read') rest' = .ok after := by
  induction d, rest using scan_induction generalizing tokens read before with
  | text cut =>
    rw [scanFrom_of_none _ _ cut] at scanned
    exact absurd (Except.ok.inj scanned) (ofText_ne before after t)
  | refused cut result =>
    rw [scanFrom_of_refused _ _ cut result] at scanned
    cases scanned
  | @read d rest text further r cut result ih =>
    have next := h.tag cut result
    rw [scanFrom_placed read cut result] at scanned
    generalize later : Token.scanFrom r.delimiters _ _ r.rest = more at scanned
    cases more with
    | error f => cases scanned
    | ok more =>
      rcases split_at_tag (fun _ => tag?_of_mem_ofText) (Except.ok.inj scanned) with
        ⟨rfl, rfl, rfl⟩ | ⟨between, rfl, rfl⟩
      · exact ⟨_, _, _, next, later⟩
      · obtain ⟨read', d', rest', reached, after⟩ := ih next later
        refine ⟨read', d', rest', ?_, after⟩
        simpa using reached

end Reads

end Token

end Logicless
