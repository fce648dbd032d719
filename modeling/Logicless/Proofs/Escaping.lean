import Logicless.Proofs.Passage
import Logicless.Proofs.Segments
import Logicless.Proofs.Writing

/-!
# What escaping keeps out

Where all text of a template is without markup and all its tags escape, markup gets into the output
neither through values nor through lambdas that produce them (`Engine.renderTo_unmarked`).
-/

namespace Logicless

variable {σ α : Type}

/-! ### Markup -/

namespace Text

def markup : List Char :=
  ['<', '>', '"', '\'']

def Unmarked (s : String) : Prop :=
  ∀ c ∈ s.toList, c ∉ markup

instance : DecidablePred Unmarked :=
  fun s => List.decidableBAll (fun c => c ∉ markup) s.toList

theorem unmarked_escapeChar (c : Char) : ∀ d ∈ escapeChar c, d ∉ markup := by
  unfold escapeChar entity?
  split
  case h_6 amp less greater quote apostrophe =>
    intro d same
    rw [Option.getD_none, List.mem_singleton] at same
    subst same
    simp only [markup, List.mem_cons, List.not_mem_nil, or_false, not_or]
    exact ⟨less, greater, quote, apostrophe⟩
  all_goals simp [markup]

theorem unmarked_escape (s : String) : Unmarked (escape s) := by
  intro d member
  rw [escape_eq, String.toList_ofList, escapeChars, List.mem_flatMap] at member
  obtain ⟨c, _, member⟩ := member
  exact unmarked_escapeChar c d member

end Text

def Sink.Unmarked (sink : Sink) : Prop :=
  ∀ w ∈ sink.writes, Text.Unmarked w

theorem Sink.Unmarked.text {sink : Sink} (h : sink.Unmarked) : Text.Unmarked sink.text := by
  intro c member
  rw [Sink.text, String.toList_join, List.mem_flatMap] at member
  obtain ⟨w, written, member⟩ := member
  exact h w (List.mem_reverse.mp written) c member

/-! ### Templates -/

namespace Segment

structure Escapes (segments : List Segment) : Prop where
  tags : ∀ tag ∈ valueTagsOf segments, tag.unescaped = false
  texts : ∀ text ∈ textsOf segments, Text.Unmarked text

end Segment

namespace Engine

open Segment
open Render (Point)

/-- A partial tag may stand for the segments of a template that is held for its name, or for those
that the locators give. -/
inductive Supplies (e : Engine σ) (store : Store σ) (name : String) : List Segment → Prop where
  | held {shelf : Shelf σ String (Option Template)} {entry : Entry String (Held (Option Template))}
      {t : Template} (on : store.templates = some shelf) (member : entry ∈ shelf.cache.entries)
      (same : entry.key = name) (value : entry.value = .own (some t)) : Supplies e store name t.segments
  | located {segments : List Segment}
      (given : content e.split store.locators name = .ok (some segments)) :
      Supplies e store name segments

inductive Draws (e : Engine σ) (store : Store σ) (start : List Segment) : List Segment → Prop where
  | start : Draws e store start start
  | inclusion {segments included : List Segment} {name : String} (drawn : Draws e store start segments)
      (named : name ∈ inclusionsOf segments) (supplied : e.Supplies store name included) :
      Draws e store start included

variable {e : Engine σ} {start store store' : Store σ}

/-! ### Where templates come from -/

structure Supplied (e : Engine σ) (start store : Store σ) : Prop where
  locators : store.locators = start.locators
  held : ∀ shelf, store.templates = some shelf → ∀ entry ∈ shelf.cache.entries,
    ∀ t, entry.value = .own (some t) → e.Supplies start entry.key t.segments

theorem supplied_self (e : Engine σ) (start : Store σ) : e.Supplied start start :=
  ⟨rfl, fun _ on _ member _ value => .held on member rfl value⟩

theorem Supplied.of_eq (h : e.Supplied start store) (locators : store'.locators = store.locators)
    (templates : store'.templates = store.templates) : e.Supplied start store' :=
  ⟨locators.trans h.locators, fun shelf on => h.held shelf (templates ▸ on)⟩

/-- A template that is looked up is one that a partial tag may stand for, and so is one that is held
after that. -/
theorem getTemplate_supplied (h : e.Supplied start store) (name : String) :
    e.Supplied start (e.getTemplate name store).2 ∧
      ∀ t, (e.getTemplate name store).1 = .ok (some t) → e.Supplies start name t.segments := by
  have locators := (e.getTemplate_carried name store).1.locators
  have holds : store.Holds fun name t => e.Supplies start name t.segments := h.held
  obtain ⟨held, got⟩ := e.getTemplate_holds holds fun id segments given =>
    .located (h.locators ▸ given)
  exact ⟨⟨locators.trans h.locators, held⟩, got⟩

theorem supplied_carries (e : Engine σ) (start : Store σ) :
    e.Carries fun s t => e.Supplied start s → e.Supplied start t where
  trans first second h := second (first h)
  looked same h := h.of_eq same.locators same.templates
  learned _ _ _ _ h := h.of_eq rfl rfl
  got name _ h := (getTemplate_supplied h name).1
  compiled origin tag source s h := by
    obtain ⟨carried, templates, _⟩ := e.compileOneOff_carried origin tag source s
    exact h.of_eq carried.locators templates

/-! ### Executions -/

/-- Aside from what is kept from the sink, no section tag finds a lambda in what is executed. -/
def Spares (e : Engine σ) (p : Point σ) : Prop :=
  ∀ q tag children rest found store l, e.Reaches false p q → q.segments = .block tag children :: rest →
    tag.inverted = false → e.Sees tag.parts none q.state found store → found.value ≠ some (.lambda l)

theorem Spares.along {p q : Point σ} (h : e.Spares p) (reaches : e.Reaches false p q) : e.Spares q :=
  fun q' tag children rest found store l further =>
    h q' tag children rest found store l (reaches.trans further)

structure Part (e : Engine σ) (start : Store σ) (root segments : List Segment) : Prop where
  escapes : Escapes segments
  draws : ∀ name ∈ inclusionsOf segments, ∀ included, e.Supplies start name included →
    e.Draws start root included

section

variable {root segments : List Segment} (escapes : ∀ segments, e.Draws start root segments → Escapes segments)

theorem Part.sub {part : List Segment} (h : e.Part start root segments)
    (tags : valueTagsOf part ⊆ valueTagsOf segments) (texts : textsOf part ⊆ textsOf segments)
    (names : inclusionsOf part ⊆ inclusionsOf segments) : e.Part start root part :=
  ⟨⟨fun tag member => h.escapes.tags tag (tags member),
    fun text member => h.escapes.texts text (texts member)⟩,
    fun name member => h.draws name (names member)⟩

theorem Part.rest {segment : Segment} (h : e.Part start root (segment :: segments)) :
    e.Part start root segments :=
  h.sub (List.subset_append_right _ _) (List.subset_append_right _ _) (List.subset_append_right _ _)

theorem Part.children {children : List Segment} {tag : SectionTag}
    (h : e.Part start root (.block tag children :: segments)) : e.Part start root children :=
  h.sub (List.subset_append_left _ _) (List.subset_append_left _ _) (List.subset_append_left _ _)

include escapes

theorem part_of_draws (drawn : e.Draws start root segments) : e.Part start root segments :=
  ⟨escapes segments drawn, fun _ named _ supplied => .inclusion drawn named supplied⟩

/-- Without lambdas for sections, the execution stays among the templates that can be reached. -/
theorem part_step {p q : Point σ} (spares : e.Spares p) (supplied : e.Supplied start p.state.store)
    (part : e.Part start root p.segments) (step : e.Step false p q) :
    e.Part start root q.segments := by
  cases step with
  | next _ => exact part.rest
  | scope _ _ _ _ _ => exact part.children
  | item _ _ _ _ => exact part.children
  | inverted _ _ _ => exact part.children
  | @inclusion _ _ _ name _ _ _ t _ got _ =>
    have source := (getTemplate_supplied supplied name).2 t (congrArg Prod.fst got)
    exact part_of_draws escapes (part.draws name List.mem_cons_self t.segments source)
  | output straight sees value _ _ _ =>
    exact absurd value (spares _ _ _ _ _ _ _ .refl rfl straight sees)

theorem part_reaches {p q : Point σ} (spares : e.Spares p) (supplied : e.Supplied start p.state.store)
    (part : e.Part start root p.segments) (reaches : e.Reaches false p q) :
    e.Part start root q.segments := by
  induction reaches with
  | refl => exact part
  | @tail q q' reaches step ih =>
    exact part_step escapes (spares.along reaches)
      ((e.supplied_carries start).reaches_before reaches supplied) ih step

end

theorem unmarked_writeAll {ws : List String} (unmarked : ∀ w ∈ ws, Text.Unmarked w) {sink : Sink}
    (h : sink.Unmarked) : (sink.writeAll ws).1.Unmarked := by
  induction ws generalizing sink with
  | nil => exact h
  | cons w ws ih =>
    rw [Sink.writeAll]
    split
    · next sink' written =>
      refine ih (fun w' member => unmarked w' (List.mem_cons_of_mem w member)) ?_
      rw [Sink.write?_some written]
      intro w' member
      rcases List.mem_cons.mp member with rfl | member
      · exact unmarked w' List.mem_cons_self
      · exact h w' member
    · exact h

theorem unmarked_yields {x : Exec σ α} {s t : Render.State σ} {ws : List String} {r : Except Halt α}
    (yields : x.Yields s ws r t) (unmarked : ∀ w ∈ ws, Text.Unmarked w) (h : s.sink.Unmarked) :
    (x s).2.sink.Unmarked := by
  have held : (x s).2.sink = (s.sink.writeAll ws).1 := by
    by_cases all : (s.sink.writeAll ws).2 = true
    · exact congrArg (fun out => out.2.sink) (yields.taken s.sink all)
    · exact (yields.refused s.sink (Bool.eq_false_iff.mpr all)).2
  rw [held]
  exact unmarked_writeAll unmarked h

/-- Whatever the value is, and whatever lambda produces it, a tag escapes it. -/
theorem unmarked_runValue (html : e.support = .html) (escaping : e.config.skipEscaping = false)
    (inner : Template → Exec σ Unit) {tag : ValueTag} (escaped : tag.unescaped = false) (id : Nat)
    {s : Render.State σ} (h : s.sink.Unmarked) : (e.runValue inner id tag s).2.sink.Unmarked := by
  obtain ⟨ws, r, t, yields, once⟩ := e.runValue_once inner tag id s
  refine unmarked_yields yields ?_ h
  rcases once with rfl | ⟨shown, rfl, raw | ⟨text, shows⟩⟩
  · simp
  · rw [escaped, escaping] at raw
    cases raw
  · intro w member
    rw [html] at shows
    cases shows
    rw [List.mem_singleton.mp member]
    exact Text.unmarked_escape text

theorem upholds_unmarked (html : e.support = .html) (escaping : e.config.skipEscaping = false)
    {p : Point σ} (escapes : Escapes p.segments) (spares : e.Spares p) :
    e.Upholds false (fun s => s.sink.Unmarked) p where
  text literal origin rest stands h := by
    have unmarked : Text.Unmarked literal :=
      escapes.texts literal (stands ▸ List.mem_append_left _ List.mem_cons_self)
    exact unmarked_yields (.write literal p.state)
      (fun _ member => List.mem_singleton.mp member ▸ unmarked) h
  value tag rest stands _ h := by
    have escaped : tag.unescaped = false :=
      escapes.tags tag (stands ▸ List.mem_append_left _ List.mem_cons_self)
    exact unmarked_runValue html escaping _ escaped p.instanceId h
  lambda _ _ _ _ _ l stands straight sees value _ _ :=
    absurd value (spares _ _ _ _ _ _ l .refl stands straight sees)
  lookup _ _ _ _ h := h

/-- What is left in the sink has no markup, if the template and all that its partial tags can stand
for escape, and no section tag finds a lambda. -/
theorem renderTo_unmarked (e : Engine σ) (html : e.support = .html)
    (escaping : e.config.skipEscaping = false) (t : Template) (data : Value) (limit : Option Nat)
    (store : Store σ) (escapes : ∀ segments, e.Draws store t.segments segments → Escapes segments)
    (spares : e.Spares (e.startPoint t data (Sink.empty limit) store)) :
    Text.Unmarked (e.renderTo t data (Sink.empty limit) store).2.1.text := by
  have empty : (Sink.empty limit).Unmarked := fun _ member => by cases member
  refine Sink.Unmarked.text ?_
  by_cases isOpen : store.isOpen = true
  · by_cases positive : 1 ≤ e.config.nestingLimit
    · rw [e.renderTo_finish positive isOpen]
      have silent {s s' : Render.State σ} (h : Silent s s') (unmarked : s.sink.Unmarked) :
          s'.sink.Unmarked := h.2 ▸ unmarked
      refine finish_upheld silent false _ (fun q reaches => ?_) empty
      have part := part_reaches escapes spares (e.supplied_self store)
        (part_of_draws escapes .start) reaches
      exact upholds_unmarked html escaping part.escapes (spares.along reaches)
    · rw [e.renderTo_refused positive isOpen]
      exact empty
  · simp only [renderTo, isOpen, if_false, Bool.false_eq_true]
    exact empty

/-! ### An engine that can look nothing up -/

theorem Lookup.innermost_nil (scopes : List Value) (name : String) (wanted : Bool) :
    Lookup.innermost ([] : List (Resolver σ)) scopes name wanted = pure none := by
  induction scopes with
  | nil => rfl
  | cons scope rest ih =>
    rw [Lookup.innermost, ih]
    rfl

theorem Lookup.key_nil (scopes : List Value) (parts : List String) :
    Lookup.key ([] : List (Resolver σ)) scopes parts none = pure (none, none) := by
  unfold Lookup.key
  split
  · rfl
  · rw [Lookup.innermost_nil]
    rfl
  · rw [Lookup.innermost_nil]
    rfl

theorem find_of_no_resolvers (none : e.resolvers = []) (scopes : List Value) (parts : List String)
    (store : Store σ) : e.find scopes parts .none store = (.ok ⟨.none, .none, []⟩, store) := by
  simp only [find, none, ite_self, Lookup.key_nil]
  rfl

theorem spares_of_no_resolvers (none : e.resolvers = []) (p : Point σ) : e.Spares p := by
  intro q tag _ _ found _ l _ _ _ sees value
  rw [Sees, filled, Option.map_none, find_of_no_resolvers none] at sees
  cases sees
  cases value

/-- A lambda whose output has markup, and a tag that would not escape. -/
def loudLambda : Lambda := ⟨0, fun _ => .ok (some "<b>{{{y}}}"), .literal, true⟩

def loudTag (template : String) (index : Nat) : ValueTag :=
  ⟨"x", ⟨template, 1, index⟩, false, ["x"]⟩

def loudSegments : List Segment :=
  [.value (loudTag "main" 1), .inclusion "part" ⟨"main", 1, 2⟩,
    .block ⟨true, "y", ⟨"main", 1, 3⟩, ["y"], ""⟩ [.value (loudTag "main" 4)]]

def loudStore : Store Unit :=
  { Blueprint.standard.emptyStore () with
    locators := [(0, Locator.ofSources 0 [("part", "{{x}} & co")])] }

theorem draws_loud {e : Engine Unit} (dotted : e.split = Key.dotted) {segments : List Segment}
    (drawn : e.Draws loudStore loudSegments segments) :
    segments = loudSegments ∨ segments = [.value (loudTag "part" 1), .text " & co" ⟨"part", 1, 2⟩] := by
  induction drawn with
  | start => exact Or.inl rfl
  | @inclusion segments included name _ named supplied ih =>
    have part : name = "part" := by
      rcases ih with rfl | rfl
      · simpa [inclusionsOf, inclusions, loudSegments] using named
      · simp [inclusionsOf, inclusions] at named
    subst part
    cases supplied with
    | held on _ _ _ => cases on
    | located given =>
      have compiled : content Key.dotted loudStore.locators "part" =
          .ok (some [.value (loudTag "part" 1), .text " & co" ⟨"part", 1, 2⟩]) := by
        with_unfolding_all rfl
      rw [dotted, compiled] at given
      cases given
      exact Or.inr rfl

theorem escapes_loud {e : Engine Unit} (dotted : e.split = Key.dotted) {segments : List Segment}
    (drawn : e.Draws loudStore loudSegments segments) : Escapes segments := by
  rcases draws_loud dotted drawn with rfl | rfl
  · refine ⟨fun tag member => ?_, fun text member => by cases member⟩
    simp only [loudSegments, valueTagsOf, valueTags, List.cons_append, List.nil_append,
      List.append_nil, List.mem_cons, List.not_mem_nil, or_false] at member
    rcases member with rfl | rfl <;> rfl
  · refine ⟨fun tag member => ?_, fun text member => ?_⟩
    · rw [List.mem_singleton.mp member]
      rfl
    · rw [List.mem_singleton.mp member]
      decide

/-- Gives a lambda in the place of `x`, and text with markup in the place of other values. -/
def loudHandler : MissingHandler := fun info =>
  .ok (some (if info.text = "x" then .lambda loudLambda else .string "<i>"))

theorem renderTo_unmarked_loud :
    let e := bare loudHandler
    let out := e.renderTo ⟨0, "main", loudSegments⟩ (.string "<i>") (Sink.empty none) loudStore
    Text.Unmarked out.2.1.text ∧ out.2.1.writes.reverse =
      ["&lt;b&gt;&lt;i&gt;", "&lt;b&gt;&lt;i&gt;", " & co", "&lt;b&gt;&lt;i&gt;"] := by
  intro e out
  refine ⟨?_, ?_⟩
  · exact renderTo_unmarked e rfl rfl ⟨0, "main", loudSegments⟩ (.string "<i>") none loudStore
      (fun _ => escapes_loud rfl) (spares_of_no_resolvers rfl _)
  · decide +kernel

end Engine

end Logicless
