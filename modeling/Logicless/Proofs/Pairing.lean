import Logicless.Proofs.Segments
import Logicless.Render

/-!
# Executions side by side

A pairing relates executions for one engine to executions for another, step by step of the
renderer. It relates the executions of all segments, if it relates what they nest
(`Pairing.runAll`). A property of single executions is a pairing of an engine with itself. The second
execution may be that of a template of another name (`Pairing.runAll_retitled`).
-/

namespace Logicless

/-- A handler circles if a lambda it gives in place of a value produces no value itself. -/
def MissingHandler.Circles (handler : MissingHandler) : Prop :=
  ∃ info l, handler info = .ok (some (.lambda l)) ∧ l.invoke none = .ok none

inductive Engine.Raises {σ : Type} (e : Engine σ) : Error → Prop where
  | lambda (tag reason : String) : e.Raises (.lambda tag reason)
  | missing {info : TagInfo} {err : Error} (h : e.missing info = .error err) : e.Raises err
  | support {text : String} {err : Error} (h : e.support text = .error err) : e.Raises err

/-- What is done with the result of a lookup. Its leases are released in the end, or a scope takes
them. -/
inductive Exec.Consumes {σ α : Type} (rel : Exec σ α → Exec σ α → Prop) (found found' : Found σ) :
    Exec σ α → Exec σ α → Prop where
  | release {x x' : Exec σ α} (h : rel x x') :
      Consumes rel found found' (Attempt.ensuring x (Exec.release found))
        (Attempt.ensuring x' (Exec.release found'))
  | scope {x x' : Exec σ α} {v : Value} (value : found.value = some v) (h : rel x x') :
      Consumes rel found found' (Exec.withScope v found.leases x) (Exec.withScope v found'.leases x')

/-- `rel` relates executions, `asked` the slots that a key is looked up with, and `same` what is
found. Values that become scopes are `fit`. -/
structure Likeness (σ : Type) where
  rel : {α : Type} → Exec σ α → Exec σ α → Prop
  asked : List String → Option Slot → Option Slot → Prop
  same : List String → Found σ → Found σ → Prop
  fit : Value → Prop

/-- All that the renderer does in its steps is alike for the two engines. -/
structure Pairing {σ : Type} (like : Likeness σ) (e e' : Engine σ) : Prop where
  missing : e'.missing = e.missing
  support : e'.support = e.support
  skipEscaping : e'.config.skipEscaping = e.config.skipEscaping
  same_value : ∀ {parts found found'}, like.same parts found found' → found'.value = found.value
  same_fit : ∀ {parts found found' v}, like.same parts found found' → found.value = some v → like.fit v
  fit_item : ∀ {items item}, like.fit (.list items) → item ∈ items → like.fit item
  pure : ∀ {α : Type} (a : α), like.rel (Pure.pure a) (Pure.pure a)
  bind : ∀ {α β : Type} {x x' : Exec σ α} {f f' : α → Exec σ β},
    like.rel x x' → (∀ a, like.rel (f a) (f' a)) → like.rel (x >>= f) (x' >>= f')
  fail : ∀ {α : Type} {err}, e.Raises err → like.rel (Exec.fail err : Exec σ α) (Exec.fail err)
  endless : e.missing.Circles →
    like.rel (Attempt.fail .endless : Exec σ Unit) (Attempt.fail .endless)
  write : ∀ text, like.rel (Exec.write text) (Exec.write text)
  captured : ∀ {x x'}, like.rel x x' → like.rel (Exec.captured x) (Exec.captured x')
  item : ∀ {v} {x x' : Exec σ Unit}, like.fit v → like.rel x x' →
    like.rel (Exec.withScope v [] x) (Exec.withScope v [] x')
  lookup : ∀ {α : Type} {parts slot slot'} {k k' : Found σ → Exec σ α}, like.asked parts slot slot' →
    (∀ found found', like.same parts found found' →
      Exec.Consumes like.rel found found' (k found) (k' found')) →
    like.rel (e.findHere parts slot >>= k) (e'.findHere parts slot' >>= k')
  learn : ∀ {parts slot slot' found found'},
    like.asked parts slot slot' → like.same parts found found' →
    like.rel (Attempt.update (Engine.learnHint slot found.hint))
      (Attempt.update (Engine.learnHint slot' found'.hint))

namespace Pairing

variable {σ : Type} {like : Likeness σ} {e e' : Engine σ} (p : Pairing like e e')

include p

theorem ofExcept {α β : Type} {r : Except Error α} {f f' : α → Exec σ β}
    (raises : ∀ err, r = .error err → e.Raises err) (next : ∀ a, r = .ok a → like.rel (f a) (f' a)) :
    like.rel (Exec.ofExcept r >>= f) (Exec.ofExcept r >>= f') := by
  cases r with
  | ok a => exact next a rfl
  | error err => exact p.fail (raises err rfl)

theorem invoke {β : Type} {l : Lambda} {tag : String} {input : Option String}
    {f f' : Option String → Exec σ β}
    (next : ∀ output, l.invoke input = .ok output → like.rel (f output) (f' output)) :
    like.rel (Engine.invoke l tag input >>= f) (Engine.invoke l tag input >>= f') := by
  unfold Engine.invoke
  split
  · next output returned => exact next output returned
  · next reason _ => exact p.fail (.lambda tag reason)

theorem writeValue (tag : ValueTag) (text : String) :
    like.rel (e.writeValue tag text) (e'.writeValue tag text) := by
  unfold Engine.writeValue
  rw [p.skipEscaping, p.support]
  split
  · exact p.write text
  · exact p.ofExcept (fun _ raised => .support raised) fun escaped _ => p.write escaped

omit p

inductive Hears (like : Likeness σ) (e : Engine σ) (l : Lambda) : Prop where
  | found (fit : like.fit (.lambda l)) : Hears like e l
  | missing {info : TagInfo} (given : e.missing info = .ok (some (.lambda l))) : Hears like e l

/-- In templates of names that `f` changes, the same is done about missing values, or the executions fail
alike, and the output of lambdas is executed alike. -/
structure Outputs (like : Likeness σ) (e e' : Engine σ) (f : String → String)
    (inner inner' : Template → Exec σ Unit) : Prop where
  missing : ∀ info : TagInfo, e.missing { info with template := f info.template } = e.missing info ∨
    ∃ err err', e.missing info = .error err ∧
      e.missing { info with template := f info.template } = .error err' ∧
      ∀ {α : Type}, like.rel (Exec.fail err : Exec σ α) (Exec.fail err')
  oneOff : ∀ l, Hears like e l → ∀ origin tag source,
    like.rel (e.renderOneOff inner origin tag source)
      (e'.renderOneOff inner' (Origin.retitle f origin) tag source)

variable {f : String → String} {inner inner' : Template → Exec σ Unit}

section

variable (outputs : Outputs like e e' f inner inner')

include p outputs

/-! ### Value tags -/

theorem writeLambda (tag : ValueTag) {missing missing' : Exec σ Unit} {l : Lambda}
    (heard : Hears like e l) (hmissing : l.invoke none = .ok none → like.rel missing missing') :
    like.rel (e.writeLambda inner tag missing l) (e'.writeLambda inner' (tag.retitle f) missing' l) := by
  refine p.invoke fun output returned => ?_
  cases output with
  | none => exact hmissing returned
  | some output =>
    simp only
    split
    · exact p.pure ()
    · split
      · exact p.bind (p.captured (outputs.oneOff l heard tag.origin tag.text output)) fun text =>
          p.writeValue tag text
      · exact p.writeValue tag output

theorem writeFound (tag : ValueTag) {missing missing' : Exec σ Unit} (v : Value)
    (heard : ∀ l, v = .lambda l → Hears like e l)
    (hmissing : ∀ l, v = .lambda l → l.invoke none = .ok none → like.rel missing missing') :
    like.rel (e.writeFound inner tag missing v) (e'.writeFound inner' (tag.retitle f) missing' v) := by
  cases v with
  | lambda l => exact p.writeLambda outputs tag (heard l rfl) (hmissing l rfl)
  | _ => exact p.writeValue tag _

theorem writeMissing (tag : ValueTag) :
    like.rel (e.writeMissing inner tag) (e'.writeMissing inner' (tag.retitle f)) := by
  let info : TagInfo := ⟨tag.text, tag.unescaped, tag.origin.line, tag.origin.template⟩
  have handled := outputs.missing info
  generalize asked : e.missing info = r, asked' : e.missing { info with template := f info.template } = r'
    at handled
  unfold Engine.writeMissing
  simp only [p.missing]
  change like.rel (Exec.ofExcept (e.missing info) >>= _)
    (Exec.ofExcept (e.missing { info with template := f info.template }) >>= _)
  rw [asked, asked']
  rcases handled with rfl | ⟨err, err', rfl, rfl, fails⟩
  · refine p.ofExcept (fun err raised => .missing (asked.trans raised)) fun answer given => ?_
    cases answer with
    | none => exact p.pure ()
    | some v =>
      simp only
      split
      · exact p.pure ()
      · refine p.writeFound outputs tag v ?_ ?_
        · rintro l rfl
          exact .missing (asked.trans given)
        · rintro l rfl silent
          exact p.endless ⟨_, l, asked.trans given, silent⟩
  · exact fails

theorem runValue {id id' : Nat} (tag : ValueTag)
    (asked : like.asked tag.parts (e.slot? id tag) (e'.slot? id' (tag.retitle f))) :
    like.rel (e.runValue inner id tag) (e'.runValue inner' id' (tag.retitle f)) := by
  refine p.lookup asked fun found found' same => .release ?_
  rw [p.same_value same]
  cases value : found.value with
  | none => exact p.writeMissing outputs tag
  | some v =>
    simp only
    split
    · exact p.writeMissing outputs tag
    · refine p.bind (p.learn asked same) fun _ => p.writeFound outputs tag v ?_ fun _ _ _ =>
        p.writeMissing outputs tag
      rintro l rfl
      exact .found (p.same_fit same value)

/-! ### Sections -/

variable {body body' : Exec σ Unit} (hbody : like.rel body body')

include hbody

theorem runSectionLambda (tag : SectionTag) {l : Lambda} (fit : like.fit (.lambda l)) :
    like.rel (e.runSectionLambda inner tag body l)
      (e'.runSectionLambda inner' (tag.retitle f) body' l) := by
  have wrote (output : String) : like.rel
      (if output.isEmpty then Pure.pure ()
        else if l.interpolated then e.renderOneOff inner tag.origin tag.text output
        else Exec.write output)
      (if output.isEmpty then Pure.pure ()
        else if l.interpolated then e'.renderOneOff inner' (tag.origin.retitle f) tag.text output
        else Exec.write output) := by
    split
    · exact p.pure ()
    · split
      · exact outputs.oneOff l (.found fit) tag.origin tag.text output
      · exact p.write output
  unfold Engine.runSectionLambda
  cases l.input with
  | literal =>
    refine p.invoke fun output _ => ?_
    cases output with
    | none => exact p.pure ()
    | some output => exact wrote output
  | processed =>
    refine p.bind (p.captured hbody) fun text => p.invoke fun output _ => ?_
    cases output with
    | none => exact p.pure ()
    | some output => exact wrote output

omit outputs in
theorem forEachItem {items : List Value} (fit : ∀ item ∈ items, like.fit item) :
    like.rel (Engine.forEachItem body items) (Engine.forEachItem body' items) := by
  induction items with
  | nil => exact p.pure ()
  | cons item rest ih =>
    have first : like.fit item := fit item List.mem_cons_self
    exact p.bind (p.item first hbody) fun _ => ih fun v member => fit v (List.mem_cons_of_mem item member)

theorem runSection (tag : SectionTag) (asked : like.asked tag.parts none none) :
    like.rel (e.runSection inner tag body) (e'.runSection inner' (tag.retitle f) body') := by
  refine p.lookup asked fun found found' same => ?_
  rw [p.same_value same]
  cases value : found.value with
  | none => exact .release (p.pure ())
  | some v =>
    have fit : like.fit v := p.same_fit same value
    simp only
    split
    · exact .release (p.pure ())
    · cases v with
      | list items => exact .release (p.forEachItem hbody fun _ member => p.fit_item fit member)
      | lambda l => exact .release (p.runSectionLambda outputs hbody tag fit)
      | _ => exact .scope value hbody

omit outputs in
theorem runInverted (tag : SectionTag) (asked : like.asked tag.parts none none) :
    like.rel (e.runInverted tag body) (e'.runInverted (tag.retitle f) body') := by
  -- What is found is released before the body, which goes by the value alone.
  have first (e : Engine σ) (tag : SectionTag) (body : Exec σ Unit) : e.runInverted tag body =
      (e.findHere tag.parts none >>= fun found =>
        Attempt.ensuring (Pure.pure found.value) (Exec.release found)) >>= fun value =>
          if value.all (·.isFalsy) then body else Pure.pure () := by
    rw [bind_assoc]
    rfl
  rw [first e, first e']
  refine p.bind (p.lookup asked fun found found' same => .release ?_) fun value => ?_
  · rw [p.same_value same]
    exact p.pure found.value
  · split
    · exact hbody
    · exact p.pure ()

end

/-! ### Segments -/

structure Suits (like : Likeness σ) (e e' : Engine σ) (f : String → String)
    (inner inner' : Template → Exec σ Unit) (id id' : Nat) (segments : List Segment) : Prop where
  values : ∀ tag ∈ Segment.valueTagsOf segments,
    like.asked tag.parts (e.slot? id tag) (e'.slot? id' (ValueTag.retitle f tag))
  sections : ∀ block ∈ Segment.sectionsOf segments, like.asked block.1.parts none none
  inclusions : ∀ name ∈ Segment.inclusionsOf segments, ∀ origin,
    like.rel (e.runInclusion inner name origin)
      (e'.runInclusion inner' name (Origin.retitle f origin))

theorem Suits.part {id id' : Nat} {segments part : List Segment}
    (h : Suits like e e' f inner inner' id id' segments)
    (values : Segment.valueTagsOf part ⊆ Segment.valueTagsOf segments)
    (sections : Segment.sectionsOf part ⊆ Segment.sectionsOf segments)
    (inclusions : Segment.inclusionsOf part ⊆ Segment.inclusionsOf segments) :
    Suits like e e' f inner inner' id id' part :=
  ⟨fun tag member => h.values tag (values member), fun block member => h.sections block (sections member),
    fun name member => h.inclusions name (inclusions member)⟩

include p

mutual

theorem run_retitled (outputs : Outputs like e e' f inner inner') (id id' : Nat) :
    ∀ segment : Segment, Suits like e e' f inner inner' id id' [segment] →
      like.rel (e.run inner id segment) (e'.run inner' id' (segment.retitle f))
  | .text s _, _ => p.write s
  | .value tag, suits => p.runValue outputs tag (suits.values tag List.mem_cons_self)
  | .block tag children, suits => by
    have body := runAll_retitled outputs id id' children <| suits.part
      (List.subset_append_left _ _) (fun _ member => List.mem_cons_of_mem _ (List.mem_append_left _ member))
      (List.subset_append_left _ _)
    have asked := suits.sections (tag, children) List.mem_cons_self
    rw [Segment.retitle, Engine.run, Engine.run]
    change like.rel _ (if tag.inverted then _ else _)
    split
    · exact p.runInverted body tag asked
    · exact p.runSection outputs body tag asked
  | .inclusion name origin, suits => suits.inclusions name List.mem_cons_self origin
  | .comment .., _ => p.pure ()

/-- The segments of a template are executed like those of one of another name, if what they nest is. -/
theorem runAll_retitled (outputs : Outputs like e e' f inner inner') (id id' : Nat) :
    ∀ segments : List Segment, Suits like e e' f inner inner' id id' segments →
      like.rel (e.runAll inner id segments) (e'.runAll inner' id' (Segment.retitleAll f segments))
  | [], _ => p.pure ()
  | s :: rest, suits =>
    p.bind (run_retitled outputs id id' s <| suits.part (by simp [Segment.valueTagsOf])
      (by simp [Segment.sectionsOf]) (by simp [Segment.inclusionsOf])) fun _ =>
        runAll_retitled outputs id id' rest <| suits.part (List.subset_append_right _ _)
          (List.subset_append_right _ _) (List.subset_append_right _ _)

end

omit p

structure Nests (like : Likeness σ) (e e' : Engine σ) (inner inner' : Template → Exec σ Unit) : Prop where
  asked_none : ∀ parts, like.asked parts none none
  oneOff : ∀ origin tag source,
    like.rel (e.renderOneOff inner origin tag source) (e'.renderOneOff inner' origin tag source)
  inclusion : ∀ name origin,
    like.rel (e.runInclusion inner name origin) (e'.runInclusion inner' name origin)

theorem Nests.outputs (nests : Nests like e e' inner inner') :
    Outputs like e e' (fun name => name) inner inner' :=
  ⟨fun _ => Or.inl rfl, fun _ _ => nests.oneOff⟩

theorem Nests.suits (nests : Nests like e e' inner inner') {id id' : Nat} {segments : List Segment}
    (asked : ∀ tag ∈ Segment.valueTagsOf segments,
      like.asked tag.parts (e.slot? id tag) (e'.slot? id' tag)) :
    Suits like e e' (fun name => name) inner inner' id id' segments :=
  ⟨asked, fun block _ => nests.asked_none block.1.parts, fun name _ => nests.inclusion name⟩

include p

theorem run (nests : Nests like e e' inner inner') (id id' : Nat) (segment : Segment)
    (asked : ∀ tag ∈ segment.valueTags, like.asked tag.parts (e.slot? id tag) (e'.slot? id' tag)) :
    like.rel (e.run inner id segment) (e'.run inner' id' segment) := by
  have ran := p.run_retitled nests.outputs id id' segment <| nests.suits fun tag member =>
    asked tag (List.append_nil segment.valueTags ▸ member)
  rwa [Segment.retitle_same] at ran

/-- Segments are executed alike, if what they nest is. -/
theorem runAll (nests : Nests like e e' inner inner') (id id' : Nat) (segments : List Segment)
    (asked : ∀ tag ∈ Segment.valueTagsOf segments,
      like.asked tag.parts (e.slot? id tag) (e'.slot? id' tag)) :
    like.rel (e.runAll inner id segments) (e'.runAll inner' id' segments) := by
  have ran := p.runAll_retitled nests.outputs id id' segments (nests.suits asked)
  rwa [Segment.retitleAll_same] at ran

end Pairing

end Logicless
