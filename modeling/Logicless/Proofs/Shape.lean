import Logicless.Proofs.Excerpt
import Logicless.Proofs.Lines
import Logicless.Proofs.Nesting

/-!
# The shape of segments

What is left of segments without their places and the blanks of their texts. It is told by the tags and
the characters that the tokens leave (`Shape.Traced.unique`), and neither the lines that stand alone nor
how texts are joined makes a difference to them (`Token.traces_settled`).
-/

namespace Logicless

/-- A segment without its place, or a character of a text that is not blank. -/
inductive Shape where
  | ink (c : Char)
  | value (unescaped : Bool) (key : String)
  | block (inverted : Bool) (key content : String) (children : List Shape)
  | inclusion (name : String)
  | comment (text : String)

def Text.inks (s : String) : List Char :=
  s.toList.filter fun c => !isBlank c

namespace Segment

mutual

def shapes : Segment → List Shape
  | .text s _ => (Text.inks s).map .ink
  | .value tag => [.value tag.unescaped tag.text]
  | .block tag children => [.block tag.inverted tag.text tag.content (shapesAll children)]
  | .inclusion name _ => [.inclusion name]
  | .comment s _ => [.comment s]

def shapesAll : List Segment → List Shape
  | [] => []
  | s :: rest => shapes s ++ shapesAll rest

end

end Segment

/-! ### What tokens leave -/

abbrev Trace :=
  Char ⊕ Tag

namespace Trace

def shift (n k : Nat) : Trace → Trace :=
  Sum.map id (Tag.shift n k)

def opens : Trace → Bool
  | .inl _ => false
  | .inr t => t.kind.opens

def sectionTag? : Trace → Option Tag
  | .inl _ => none
  | .inr t => if t.kind.ofSection then some t else none

end Trace

namespace Token

/-- The characters of a text that are not blank. A tag that changes the delimiters leaves nothing. -/
def traces : Token → List Trace
  | .text s _ => (Text.inks s).map .inl
  | .tag t => if t.kind = .delimiters then [] else [.inr t]

def opens (token : Token) : Bool :=
  token.tag?.any fun t => t.kind.opens

theorem traces_of_opens {o : Tag} (opens : o.kind.opens = true) : traces (.tag o) = [.inr o] := by
  rw [traces, if_neg]
  intro changes
  rw [changes] at opens
  cases opens

theorem traces_of_ends {c : Tag} (ends : c.kind = .sectionEnd) : traces (.tag c) = [.inr c] := by
  rw [traces, ends]
  rfl

theorem traces_join (tokens : List Token) : (join tokens).flatMap traces = tokens.flatMap traces := by
  induction tokens with
  | nil => rfl
  | cons token rest ih =>
    cases token with
    | tag t => rw [join, List.flatMap_cons, ih, List.flatMap_cons]
    | text s line =>
      rw [List.flatMap_cons, ← ih, join]
      split
      · next more _ joined same =>
        rw [same]
        simp [traces, Text.inks]
      · rfl

theorem traces_visible (tokens : List Token) :
    (visible tokens).flatMap traces = tokens.flatMap traces := by
  induction tokens with
  | nil => rfl
  | cons token rest ih =>
    rw [visible, List.filter_cons, List.flatMap_cons, ← ih]
    split
    · rfl
    · next hidden =>
      cases token with
      | text => exact absurd rfl hidden
      | tag t =>
        have changes : t.kind = .delimiters := by simpa [tag?] using hidden
        rw [traces, if_pos changes]
        rfl

theorem traces_keepLine (line : List Token) :
    (keepLine line).flatMap traces = line.flatMap traces := by
  unfold keepLine
  split
  · next alone =>
    have blank : ∀ token ∈ line, token.isTag = false → traces token = [] := by
      intro token member plain
      have spread := ((isStandalone_iff line).mp alone).2
      cases token with
      | tag => cases plain
      | text s n =>
        rw [traces, List.map_eq_nil_iff, Text.inks, List.filter_eq_nil_iff]
        intro c inside
        rw [spread c (List.mem_flatMap.mpr ⟨_, member, inside⟩)]
        decide
    clear alone
    induction line with
    | nil => rfl
    | cons token rest ih =>
      have others := ih fun x member => blank x (List.mem_cons_of_mem _ member)
      rw [List.filter_cons, List.flatMap_cons, ← others]
      split
      · rfl
      · next plain =>
        rw [blank token List.mem_cons_self (Bool.eq_false_iff.mpr plain)]
        rfl
  · rfl

/-- Tokens leave the same however their lines and texts are settled. -/
theorem traces_settled (tokens : List Token) :
    (settled tokens).flatMap traces = tokens.flatMap traces := by
  have whole : (lines tokens).flatten = tokens := flatten_splitAfter endsLine tokens
  calc
    (settled tokens).flatMap traces = (dropStandalone tokens).flatMap traces := by
      rw [settled, traces_join, traces_visible]
    _ = (lines tokens).flatMap fun line => (keepLine line).flatMap traces := List.flatMap_assoc
    _ = (lines tokens).flatMap fun line => line.flatMap traces := by simp only [traces_keepLine]
    _ = ((lines tokens).flatMap id).flatMap traces := List.flatMap_assoc.symm
    _ = tokens.flatMap traces := by rw [List.flatMap_id, whole]

theorem traces_shift (n k : Nat) (tokens : List Token) :
    (tokens.map (shift n k)).flatMap traces = (tokens.flatMap traces).map (Trace.shift n k) := by
  rw [List.map_flatMap, List.flatMap_map]
  congr
  funext token
  cases token with
  | text s line => simp [shift, traces, Trace.shift]
  | tag t =>
    rw [shift, traces, traces]
    by_cases changes : t.kind = .delimiters <;> simp [Tag.shift, Trace.shift, changes]

/-- A tag among the traces is a tag among the tokens. -/
theorem split_of_traces {tokens : List Token} {before after : List Trace} {t : Tag}
    (same : tokens.flatMap traces = before ++ .inr t :: after) :
    ∃ left right, tokens = left ++ .tag t :: right ∧ left.flatMap traces = before ∧
      right.flatMap traces = after := by
  induction tokens generalizing before with
  | nil => simp at same
  | cons token rest ih =>
    rw [List.flatMap_cons] at same
    have skip (more : List Trace) (own : before = token.traces ++ more)
        (others : rest.flatMap traces = more ++ .inr t :: after) :
        ∃ left right, token :: rest = left ++ .tag t :: right ∧ left.flatMap traces = before ∧
          right.flatMap traces = after := by
      obtain ⟨left, right, rfl, first, last⟩ := ih others
      exact ⟨token :: left, right, rfl, by rw [List.flatMap_cons, first, own], last⟩
    rcases List.append_eq_append_iff.mp same with ⟨more, own, others⟩ | ⟨more, own, others⟩
    · exact skip more own others
    · cases more with
      | nil => exact skip [] (by simpa using own.symm) others.symm
      | cons trace more =>
        obtain ⟨rfl, rfl⟩ := List.cons.inj others
        -- Only a token that is the tag leaves it.
        cases token with
        | text s line =>
          have member : Sum.inr t ∈ (text s line).traces := by rw [own]; simp
          simp [traces] at member
        | tag u =>
          rw [traces] at own
          split at own
          · simp at own
          · cases before with
            | nil =>
              obtain ⟨rfl, rfl⟩ := by simpa using own
              exact ⟨[], rest, rfl, rfl, rfl⟩
            | cons trace before => simp at own

theorem countP_traces (tokens : List Token) :
    (tokens.flatMap traces).countP Trace.opens = tokens.countP opens := by
  induction tokens with
  | nil => rfl
  | cons token rest ih =>
    rw [List.flatMap_cons, List.countP_append, ih, List.countP_cons, Nat.add_comm]
    congr 1
    cases token with
    | text s line => simp [traces, opens, tag?, Trace.opens]
    | tag t =>
      by_cases own : t.kind.opens = true
      · simp [traces_of_opens own, opens, tag?, Trace.opens, own]
      · rw [traces]
        split <;> simp [opens, tag?, Trace.opens, own]

theorem sectionTags_traces (tokens : List Token) :
    (tokens.flatMap traces).filterMap Trace.sectionTag? = sectionTags tokens := by
  induction tokens with
  | nil => rfl
  | cons token rest ih =>
    rw [List.flatMap_cons, List.filterMap_append, ih]
    cases token with
    | text s line =>
      have silent : (text s line).traces.filterMap Trace.sectionTag? = [] := by
        rw [traces, List.filterMap_map]
        exact List.filterMap_eq_nil_iff.mpr fun _ _ => rfl
      rw [silent]
      rfl
    | tag t =>
      obtain ⟨kind, _⟩ := t
      cases kind <;> rfl

end Token

namespace Shape

def ofTag? (t : Tag) : Option Shape :=
  match t.kind with
  | .escaped => some (.value false t.content)
  | .unescaped => some (.value true t.content)
  | .comment => some (.comment t.content)
  | .inclusion => some (.inclusion t.content)
  | .sectionStart | .invertedStart | .sectionEnd | .delimiters => none

/-- The shapes are those that the traces tell. The content of a section is what the source has between
its start and its end. -/
inductive Traced (source : List Char) : List Shape → List Trace → Prop where
  | nil : Traced source [] []
  | ink (c : Char) {shapes : List Shape} {traces : List Trace} (after : Traced source shapes traces) :
      Traced source (.ink c :: shapes) (.inl c :: traces)
  | leaf {t : Tag} {shape : Shape} {shapes : List Shape} {traces : List Trace}
      (own : ofTag? t = some shape) (after : Traced source shapes traces) :
      Traced source (shape :: shapes) (.inr t :: traces)
  | block {inverted : Bool} {content : String} {o c : Tag} {children shapes : List Shape}
      {inner traces : List Trace} (starts : o.kind = .start inverted) (ends : c.kind = .sectionEnd)
      (between : Text.Between source o.stop c.start content.toList)
      (within : Traced source children inner) (after : Traced source shapes traces) :
      Traced source (.block inverted o.content content children :: shapes)
        (.inr o :: (inner ++ .inr c :: traces))

inductive Ended : List Trace → Prop where
  | nil : Ended []
  | close {c : Tag} (ends : c.kind = .sectionEnd) (rest : List Trace) : Ended (.inr c :: rest)

namespace Traced

variable {source : List Char} {shapes shapes' : List Shape} {traces traces' : List Trace}

theorem inks (cs : List Char) (after : Traced source shapes traces) :
    Traced source (cs.map .ink ++ shapes) (cs.map .inl ++ traces) := by
  induction cs with
  | nil => exact after
  | cons c cs ih => exact .ink c ih

/-- Traces tell the shapes alike in a text and wherever the text stands. -/
theorem shift {part : List Char} {start stop : Nat} (h : Traced part shapes traces)
    (place : Text.Between source start stop part) (k : Nat) :
    Traced source shapes (traces.map (Trace.shift start k)) := by
  induction h with
  | nil => exact .nil
  | ink c _ ih => exact .ink c ih
  | @leaf t _ _ _ own _ ih => exact .leaf (t := t.shift start k) own ih
  | @block _ _ o c _ _ _ _ starts ends between _ _ within after =>
    rw [List.map_cons, List.map_append, List.map_cons]
    exact .block (o := o.shift start k) (c := c.shift start k) starts ends (place.within between)
      within after

theorem not_ended {shape : Shape} (h : Traced source (shape :: shapes) traces) (rest : List Trace) :
    ¬ Ended (traces ++ rest) := by
  intro ended
  cases h with
  | ink => cases ended
  | leaf own =>
    cases ended with
    | close ends => simp [ofTag?, ends] at own
  | @block inverted _ _ _ _ _ _ _ starts =>
    cases ended with
    | close ends =>
      rw [starts] at ends
      cases inverted <;> cases ends

theorem unique_of_ended (h : Traced source shapes traces) (h' : Traced source shapes' traces')
    {rest rest' : List Trace} (ended : Ended rest) (ended' : Ended rest')
    (same : traces ++ rest = traces' ++ rest') : shapes = shapes' ∧ rest = rest' := by
  induction h generalizing shapes' traces' rest rest' with
  | nil =>
    cases shapes' with
    | nil =>
      cases h'
      exact ⟨rfl, same⟩
    | cons shape' shapes' =>
      subst same
      exact absurd ended (h'.not_ended rest')
  | ink c first ih =>
    cases h' with
    | nil =>
      subst same
      exact absurd ended' ((first.ink c).not_ended rest)
    | ink c' after =>
      obtain ⟨⟨⟩, others⟩ := List.cons.inj same
      obtain ⟨rfl, rest⟩ := ih after ended ended' others
      exact ⟨rfl, rest⟩
    | leaf | block => cases same
  | leaf own first ih =>
    cases h' with
    | nil =>
      subst same
      exact absurd ended' ((first.leaf own).not_ended rest)
    | ink => cases same
    | leaf own' after =>
      obtain ⟨⟨⟩, others⟩ := List.cons.inj same
      obtain rfl := Option.some.inj (own.symm.trans own')
      obtain ⟨rfl, rest⟩ := ih after ended ended' others
      exact ⟨rfl, rest⟩
    | @block inverted' _ _ _ _ _ _ _ starts =>
      obtain ⟨⟨⟩, _⟩ := List.cons.inj same
      rw [ofTag?, starts] at own
      cases inverted' <;> cases own
  | @block inverted content _ _ _ _ inner traces starts ends between children first within after =>
    cases h' with
    | nil =>
      subst same
      exact absurd ended' ((Traced.block starts ends between children first).not_ended rest)
    | ink => cases same
    | leaf own' =>
      obtain ⟨⟨⟩, _⟩ := List.cons.inj same
      rw [ofTag?, starts] at own'
      cases inverted <;> cases own'
    | @block _ content' _ _ _ _ inner' traces' starts' ends' between' within' after' =>
      simp only [List.cons_append, List.append_assoc] at same
      obtain ⟨⟨⟩, others⟩ := List.cons.inj same
      obtain ⟨rfl, others⟩ := within within' (.close ends _) (.close ends' _) others
      obtain ⟨⟨⟩, later⟩ := List.cons.inj others
      obtain ⟨rfl, rest⟩ := after after' ended ended' later
      obtain rfl := TagKind.start_inj (starts.symm.trans starts')
      obtain rfl : content = content' :=
        String.toList_inj.mp (between.slice_eq.symm.trans between'.slice_eq)
      exact ⟨rfl, rest⟩

/-- Traces of the same source tell the same shapes. -/
theorem unique (h : Traced source shapes traces) (h' : Traced source shapes' traces) :
    shapes = shapes' :=
  (h.unique_of_ended h' .nil .nil rfl).1

end Traced

end Shape

namespace Segment

variable {source : List Char}

theorem traced_leaf {segment : Segment} {token : Token} (flat : segment.outline.pieces = [token.piece])
    {shapes : List Shape} {traces : List Trace} (after : Shape.Traced source shapes traces) :
    Shape.Traced source (segment.shapes ++ shapes) (token.traces ++ traces) := by
  cases token with
  | text s line =>
    cases segment with
    | text s' origin =>
      cases flat
      exact after.inks _
    | value | inclusion | comment => cases flat
    | block => simp [outline, Outline.pieces, Token.piece] at flat
  | tag t =>
    obtain ⟨kind, content, line, start, stop⟩ := t
    cases segment with
    | text => cases flat
    | value tag =>
      obtain ⟨text, origin, unescaped, parts⟩ := tag
      cases unescaped <;> cases flat <;> exact .leaf rfl after
    | inclusion | comment =>
      cases flat
      exact .leaf rfl after
    | block => simp [outline, Outline.pieces] at flat

/-- Segments have the shapes that their tokens tell. -/
theorem Spells.traced {segments : List Segment} {tokens : List Token}
    (h : Spells source segments tokens) :
    Shape.Traced source (shapesAll segments) (tokens.flatMap Token.traces) := by
  induction h with
  | nil => exact .nil
  | leaf flat _ _ ih => exact traced_leaf flat ih
  | @block tag o c children segments inner tokens starts ends key _ _ between _ _ within after =>
    rw [List.flatMap_cons, List.flatMap_append, List.flatMap_cons,
      Token.traces_of_opens (Tag.opens_of_start starts), Token.traces_of_ends ends, shapesAll, shapes,
      ← key]
    exact .block starts ends between within after

end Segment

end Logicless
