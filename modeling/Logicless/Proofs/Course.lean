import Logicless.Proofs.Frame
import Logicless.Proofs.Termination
import Mathlib.Logic.Relation

/-!
# The course of a render

An execution stands at a point: segments are to be executed in a state. From there it gets to
further points, of the same template or of one within it (`Engine.Step`). What is upheld at every
point that is reached holds when the execution ends (`Engine.finish_upheld`).
-/

namespace Logicless

variable {σ α β : Type}

/-- Segments of a template instance that are executed in a state, with at most `depth` templates
within one another. -/
structure Render.Point (σ : Type) where
  depth : Nat
  instanceId : Nat
  segments : List Segment
  state : Render.State σ

def ValueTag.info (tag : ValueTag) : TagInfo :=
  ⟨tag.text, tag.unescaped, tag.origin.line, tag.origin.template⟩

structure Lambda.Interpolates (l : Lambda) (input : Option String) (output : String) : Prop where
  returns : l.invoke input = .ok (some output)
  nonempty : output.isEmpty = false
  interpolated : l.interpolated = true

namespace Engine

variable (e : Engine σ)

open Render (Point)

def finish (p : Point σ) : Except Halt Unit × Render.State σ :=
  e.runAll (e.nestedIn p.depth) p.instanceId p.segments p.state

def entry (depth : Nat) (t : Template) (name : String) (s : Render.State σ) : Point σ :=
  ⟨depth, t.instanceId, t.segments, { s with context := s.context.entered name }⟩

structure EntersOutput (origin : Origin) (tag output : String) (s : Render.State σ) (t : Template)
    (store : Store σ) : Prop where
  compiled : e.compileOneOff origin tag output s.store = (.ok t, store)
  room : ¬ e.config.nestingLimit ≤ s.context.openings oneOffNesting

def Sees (parts : List String) (slot : Option Slot) (s : Render.State σ) (found : Found σ)
    (store : Store σ) : Prop :=
  e.find s.context.values parts (filled slot s.store) s.store = (.ok found, store)

/-- What a lambda is given in place of the section whose children are executed by `body`, and the
state after that. -/
inductive Given (tag : SectionTag) (body : Exec σ Unit) (l : Lambda) (s : Render.State σ) :
    String → Render.State σ → Prop where
  | literal (input : l.input = .literal) : Given tag body l s tag.content s
  | processed (input : l.input = .processed) {text : String} {t : Render.State σ}
      (ran : Exec.captured body s = (.ok text, t)) : Given tag body l s text t

/-- A lambda is to produce the value of the tag: the one that was found, or the one that the handler
of missing values gives in its place. -/
inductive Produces (tag : ValueTag) (slot : Option Slot) (found : Found σ) (s : Render.State σ) :
    Lambda → Render.State σ → Prop where
  | found {l : Lambda} (value : found.value = some (.lambda l)) :
      Produces tag slot found s l (learnHint slot found.hint s)
  | missing {l : Lambda} (value : found.isNull = true)
      (given : e.missing tag.info = .ok (some (.lambda l))) : Produces tag slot found s l s
  | silent {l l' : Lambda} (value : found.value = some (.lambda l)) (none : l.invoke none = .ok none)
      (given : e.missing tag.info = .ok (some (.lambda l'))) :
      Produces tag slot found s l' (learnHint slot found.hint s)

/-- An execution gets from one point to another. It gets to points `aside` where what is written is
kept from the sink: in the input that a lambda is given for a section, and in the output that it gives
for a value. -/
inductive Step : (aside : Bool) → Point σ → Point σ → Prop where
  | next {aside depth id segment rest s t} (ran : e.run (e.nestedIn depth) id segment s = (.ok (), t)) :
      Step aside ⟨depth, id, segment :: rest, s⟩ ⟨depth, id, rest, t⟩
  | scope {aside depth id tag children rest s found store v} (straight : tag.inverted = false)
      (sees : e.Sees tag.parts none s found store) (value : found.value = some v) (truthy : v.isFalsy = false)
      (scope : (∀ items, v ≠ .list items) ∧ ∀ l, v ≠ .lambda l) :
      Step aside ⟨depth, id, .block tag children :: rest, s⟩
        ⟨depth, id, children, { s with store, context := s.context.push v found.leases }⟩
  | item {aside depth id tag children rest s found store before item after t}
      (straight : tag.inverted = false) (sees : e.Sees tag.parts none s found store)
      (value : found.value = some (.list (before ++ item :: after)))
      (ran : forEachItem (e.runAll (e.nestedIn depth) id children) before { s with store } = (.ok (), t)) :
      Step aside ⟨depth, id, .block tag children :: rest, s⟩
        ⟨depth, id, children, { t with context := t.context.push item [] }⟩
  | inverted {aside depth id tag children rest s found store} (inverted : tag.inverted = true)
      (sees : e.Sees tag.parts none s found store) (falsy : found.value.all (·.isFalsy) = true) :
      Step aside ⟨depth, id, .block tag children :: rest, s⟩
        ⟨depth, id, children, Exec.release found { s with store }⟩
  | inclusion {aside depth id name origin rest s t store}
      (got : e.getTemplate name s.store = (.ok (some t), store))
      (room : ¬ e.config.nestingLimit ≤ s.context.openings t.name) :
      Step aside ⟨depth + 1, id, .inclusion name origin :: rest, s⟩
        (entry depth t t.name { s with store })
  | output {aside depth id tag children rest s found store l input u output t store'}
      (straight : tag.inverted = false) (sees : e.Sees tag.parts none s found store)
      (value : found.value = some (.lambda l))
      (given : Given tag (e.runAll (e.nestedIn (depth + 1)) id children) l { s with store } input u)
      (interpolates : l.Interpolates (some input) output)
      (enters : e.EntersOutput tag.origin tag.text output u t store') :
      Step aside ⟨depth + 1, id, .block tag children :: rest, s⟩
        (entry depth t oneOffNesting { u with store := store' })
  | input {depth id tag children rest s found store l} (straight : tag.inverted = false)
      (sees : e.Sees tag.parts none s found store) (value : found.value = some (.lambda l))
      (processed : l.input = .processed) :
      Step true ⟨depth, id, .block tag children :: rest, s⟩
        ⟨depth, id, children, { s with store, sink := Sink.empty none }⟩
  | value {depth id tag rest s found store l u output t store'}
      (sees : e.Sees tag.parts (e.slot? id tag) s found store)
      (produces : e.Produces tag (e.slot? id tag) found { s with store } l u)
      (interpolates : l.Interpolates none output)
      (enters : e.EntersOutput tag.origin tag.text output u t store') :
      Step true ⟨depth + 1, id, .value tag :: rest, s⟩
        (entry depth t oneOffNesting { u with store := store', sink := Sink.empty none })

def Reaches (aside : Bool) (p q : Point σ) : Prop :=
  Relation.ReflTransGen (e.Step aside) p q

def startPoint (t : Template) (data : Value) (sink : Sink) (store : Store σ) : Point σ :=
  entry (e.depthBound t.name store - 1) t t.name ⟨store, startContext data, sink⟩

/-- Whether it succeeds or not, a lookup leaves the records of the store alone. -/
theorem find_undisturbed (scopes : List Value) (parts : List String)
    (slot : Option (Option (Hint σ))) (store : Store σ) :
    store.Undisturbed (e.find scopes parts slot store).2 := by
  have offers : Resolver.Offers (fun _ => True) slot.join := fun h _ => h.admits_all
  have found := find_kept e.admits_all scopes parts offers store.owes_self
  rcases ran : e.find scopes parts slot store with ⟨_ | _, after⟩
  · rw [ran] at found
    exact found.1
  · rw [ran] at found
    exact found.1

/-! ### What segments do -/

section

variable {e} {inner : Template → Exec σ Unit} {id : Nat} {tag : SectionTag} {children : List Segment}
  {s : Render.State σ} {found : Found σ} {store : Store σ}

theorem run_of_scope {v : Value} (straight : tag.inverted = false) (sees : e.Sees tag.parts none s found store)
    (value : found.value = some v) (truthy : v.isFalsy = false)
    (scope : (∀ items, v ≠ .list items) ∧ ∀ l, v ≠ .lambda l) :
    e.run inner id (.block tag children) s =
      Exec.withScope v found.leases (e.runAll inner id children) { s with store } := by
  simp only [run, straight, Bool.false_eq_true, if_false]
  unfold runSection
  rw [findHere_of_ok sees]
  simp only [value, truthy, Bool.false_eq_true, if_false]
  obtain ⟨notList, notLambda⟩ := scope
  cases v with
  | list items => exact absurd rfl (notList items)
  | lambda l => exact absurd rfl (notLambda l)
  | _ => rfl

theorem run_of_list {items : List Value} (straight : tag.inverted = false)
    (sees : e.Sees tag.parts none s found store) (value : found.value = some (.list items)) :
    e.run inner id (.block tag children) s =
      Attempt.ensuring (forEachItem (e.runAll inner id children) items) (Exec.release found)
        { s with store } := by
  simp only [run, straight, Bool.false_eq_true, if_false]
  unfold runSection
  rw [findHere_of_ok sees]
  simp only [value, Value.isFalsy]
  cases items with
  | nil => rfl
  | cons item rest => rfl

theorem run_of_lambda {l : Lambda} (straight : tag.inverted = false)
    (sees : e.Sees tag.parts none s found store) (value : found.value = some (.lambda l)) :
    e.run inner id (.block tag children) s =
      Attempt.ensuring (e.runSectionLambda inner tag (e.runAll inner id children) l)
        (Exec.release found) { s with store } := by
  simp only [run, straight, Bool.false_eq_true, if_false]
  unfold runSection
  rw [findHere_of_ok sees]
  simp only [value]
  rfl

theorem run_of_skipped (straight : tag.inverted = false) (sees : e.Sees tag.parts none s found store)
    (falsy : found.value.all (·.isFalsy) = true) :
    e.run inner id (.block tag children) s = (.ok (), Exec.release found { s with store }) := by
  simp only [run, straight, Bool.false_eq_true, if_false]
  unfold runSection
  rw [findHere_of_ok sees]
  cases value : found.value with
  | none => rfl
  | some v =>
    rw [value] at falsy
    have falsy : v.isFalsy = true := falsy
    simp only [falsy, if_true]
    rfl

theorem run_of_inverted (inverted : tag.inverted = true) (sees : e.Sees tag.parts none s found store) :
    e.run inner id (.block tag children) s =
      if found.value.all (·.isFalsy) = true then
        e.runAll inner id children (Exec.release found { s with store })
      else (.ok (), Exec.release found { s with store }) := by
  simp only [run, inverted, if_true]
  unfold runInverted
  rw [findHere_of_ok sees]
  by_cases falsy : found.value.all (·.isFalsy) = true
  · simp only [falsy, if_true]
    rfl
  · simp only [falsy]
    rfl

theorem run_of_unfound {err : Error}
    (fails : e.find s.context.values tag.parts (filled none s.store) s.store = (.error err, store)) :
    e.run inner id (.block tag children) s = (.error (.failed err), { s with store }) := by
  unfold run
  split
  · exact findHere_of_error fails _
  · exact findHere_of_error fails _

theorem runInclusion_of_some {name : String} {origin : Origin} {t : Template}
    (got : e.getTemplate name s.store = (.ok (some t), store)) :
    e.runInclusion inner name origin s =
      Exec.nested e.config.nestingLimit t.name (inner t) { s with store } := by
  unfold runInclusion
  rw [Exec.onStore_of_ok got]

theorem EntersOutput.rendered {origin : Origin} {text output : String} {t : Template}
    (enters : e.EntersOutput origin text output s t store) :
    e.renderOneOff inner origin text output s =
      ((inner t { s with store, context := s.context.entered oneOffNesting }).1,
        Exec.leave oneOffNesting
          (inner t { s with store, context := s.context.entered oneOffNesting }).2) := by
  unfold renderOneOff
  rw [Exec.onStore_of_ok enters.compiled]
  exact Exec.nested_of_room (s := { s with store }) enters.room (inner t)

def sectionOutput (e : Engine σ) (inner : Template → Exec σ Unit) (tag : SectionTag) (l : Lambda)
    (input : String) : Exec σ Unit := do
  match ← invoke l tag.text (some input) with
  | none => pure ()
  | some output =>
    if output.isEmpty then pure ()
    else if l.interpolated then e.renderOneOff inner tag.origin tag.text output
    else Exec.write output

theorem runSectionLambda_of_literal {body : Exec σ Unit} {l : Lambda} (kind : l.input = .literal) :
    e.runSectionLambda inner tag body l = e.sectionOutput inner tag l tag.content := by
  simp only [runSectionLambda, kind]
  rfl

theorem runSectionLambda_of_processed {body : Exec σ Unit} {l : Lambda} (kind : l.input = .processed) :
    e.runSectionLambda inner tag body l = Exec.captured body >>= e.sectionOutput inner tag l := by
  simp only [runSectionLambda, kind]
  rfl

theorem runSectionLambda_of_given {body : Exec σ Unit} {l : Lambda} {input : String}
    {u : Render.State σ} (given : Given tag body l s input u) :
    e.runSectionLambda inner tag body l s = e.sectionOutput inner tag l input u := by
  cases given with
  | literal kind => rw [runSectionLambda_of_literal kind]
  | processed kind ran => rw [runSectionLambda_of_processed kind, Attempt.bind_of_ok ran]

theorem sectionOutput_of_interpolates {l : Lambda} {input output : String}
    (interpolates : l.Interpolates (some input) output) :
    e.sectionOutput inner tag l input = e.renderOneOff inner tag.origin tag.text output := by
  obtain ⟨returns, nonempty, interpolated⟩ := interpolates
  simp only [sectionOutput, invoke, returns, pure_bind, nonempty, interpolated, Bool.false_eq_true,
    if_false, if_true]

/-- What a lambda gives for a section is rendered in its place. -/
theorem run_of_output {depth : Nat} {l : Lambda} {input output : String} {t : Template} {u : Render.State σ}
    {store' : Store σ} (straight : tag.inverted = false) (sees : e.Sees tag.parts none s found store)
    (value : found.value = some (.lambda l))
    (given : Given tag (e.runAll (e.nestedIn (depth + 1)) id children) l { s with store } input u)
    (interpolates : l.Interpolates (some input) output)
    (enters : e.EntersOutput tag.origin tag.text output u t store') :
    let ends := e.finish (entry depth t oneOffNesting { u with store := store' })
    e.run (e.nestedIn (depth + 1)) id (.block tag children) s =
      (ends.1, Exec.release found (Exec.leave oneOffNesting ends.2)) := by
  rw [run_of_lambda straight sees value, Attempt.ensuring_apply, runSectionLambda_of_given given,
    sectionOutput_of_interpolates interpolates, enters.rendered, nestedIn]
  rfl

theorem writeLambda_of_interpolates {tag : ValueTag} {missing : Exec σ Unit} {l : Lambda}
    {output : String} (interpolates : l.Interpolates none output) :
    e.writeLambda inner tag missing l =
      Exec.captured (e.renderOneOff inner tag.origin tag.text output) >>= fun text =>
        e.writeValue tag text := by
  obtain ⟨returns, nonempty, interpolated⟩ := interpolates
  simp only [writeLambda, invoke, returns, pure_bind, nonempty, interpolated, Bool.false_eq_true,
    if_false, if_true]

theorem writeMissing_of_lambda {tag : ValueTag} {l : Lambda}
    (given : e.missing tag.info = .ok (some (.lambda l))) :
    e.writeMissing inner tag = e.writeLambda inner tag (Attempt.fail .endless) l := by
  unfold writeMissing
  change (Exec.ofExcept (e.missing tag.info) >>= _) = _
  rw [given]
  rfl

/-- A lambda is found for a value. -/
theorem runValue_of_lambda {tag : ValueTag} {l : Lambda} (sees : e.Sees tag.parts (e.slot? id tag) s found store)
    (value : found.value = some (.lambda l)) :
    e.runValue inner id tag s =
      Attempt.ensuring (e.writeLambda inner tag (e.writeMissing inner tag) l) (Exec.release found)
        (learnHint (e.slot? id tag) found.hint { s with store }) := by
  unfold runValue
  simp only
  rw [findHere_of_ok sees]
  simp only [value, Value.isNull, Bool.false_eq_true, if_false, writeFound]
  rfl

/-- What a lambda gives for a value is rendered on its own and then written. -/
theorem runValue_of_interpolates {tag : ValueTag} {l : Lambda} {output : String} {u : Render.State σ}
    (sees : e.Sees tag.parts (e.slot? id tag) s found store)
    (produces : e.Produces tag (e.slot? id tag) found { s with store } l u)
    (interpolates : l.Interpolates none output) :
    e.runValue inner id tag s =
      Attempt.ensuring (Exec.captured (e.renderOneOff inner tag.origin tag.text output) >>= fun text =>
        e.writeValue tag text) (Exec.release found) u := by
  cases produces with
  | found value => rw [runValue_of_lambda sees value, writeLambda_of_interpolates interpolates]
  | missing value given =>
    have wrote : e.writeMissing inner tag = _ :=
      (writeMissing_of_lambda given).trans (writeLambda_of_interpolates interpolates)
    unfold runValue
    simp only
    rw [findHere_of_ok sees]
    cases found with
    | mk v hint leases =>
      cases v with
      | none => simp only [wrote]
      | some v =>
        have null : v.isNull = true := value
        simp only [null, if_true, wrote]
  | @silent silent _ value none given =>
    have wrote : e.writeMissing inner tag = _ :=
      (writeMissing_of_lambda given).trans (writeLambda_of_interpolates interpolates)
    have invoked : (invoke silent tag.text Option.none : Exec σ (Option String)) = pure Option.none := by
      simp only [invoke, none]
    rw [runValue_of_lambda sees value, writeLambda, invoked, pure_bind, wrote]

end

/-- A render consists of what it does from where it starts. -/
theorem renderTo_finish (limit : 1 ≤ e.config.nestingLimit) {store : Store σ}
    (isOpen : store.isOpen = true) (t : Template) (data : Value) (sink : Sink) :
    let p := e.finish (e.startPoint t data sink store)
    e.renderTo t data sink store =
      (p.1, p.2.sink, (Exec.leave t.name p.2).context.close p.2.store) := by
  have room : ¬ e.config.nestingLimit ≤ (startContext data : Context σ).openings t.name := by
    rw [Context.openings, startContext_nesting]
    exact Nat.not_le_of_lt limit
  simp only [renderTo, isOpen, if_true]
  rw [execute_apply, executeWithin, Exec.nested_of_room room, depthBound, nestedIn]
  rfl

/-- With the limit 0, no template is entered at all. -/
theorem renderTo_refused (limit : ¬ 1 ≤ e.config.nestingLimit) {store : Store σ}
    (isOpen : store.isOpen = true) (t : Template) (data : Value) (sink : Sink) :
    e.renderTo t data sink store =
      (.error (.failed (.nestingLimit t.name e.config.nestingLimit)), sink,
        (startContext data).close store) := by
  have full : e.config.nestingLimit ≤ (startContext data : Context σ).openings t.name := by omega
  simp only [renderTo, isOpen, if_true]
  rw [execute_apply, executeWithin, Exec.nested_of_full full]

/-! ### Induction on the course -/

theorem Step.lighter {e : Engine σ} {aside : Bool} {p q : Point σ} (step : e.Step aside p q) :
    Prod.Lex (· < ·) (· < ·) (q.depth, sizeOf q.segments) (p.depth, sizeOf p.segments) := by
  cases step with
  | next _ => exact .right _ (by simp only [List.cons.sizeOf_spec]; omega)
  | scope _ _ _ _ _ =>
    exact .right _ (by simp only [List.cons.sizeOf_spec, Segment.block.sizeOf_spec]; omega)
  | item _ _ _ _ =>
    exact .right _ (by simp only [List.cons.sizeOf_spec, Segment.block.sizeOf_spec]; omega)
  | inverted _ _ _ =>
    exact .right _ (by simp only [List.cons.sizeOf_spec, Segment.block.sizeOf_spec]; omega)
  | inclusion _ _ => exact .left _ _ (Nat.lt_succ_self _)
  | output _ _ _ _ _ _ => exact .left _ _ (Nat.lt_succ_self _)
  | input _ _ _ _ =>
    exact .right _ (by simp only [List.cons.sizeOf_spec, Segment.block.sizeOf_spec]; omega)
  | value _ _ _ _ => exact .left _ _ (Nat.lt_succ_self _)

/-- What holds of a point whenever it holds of all that the execution gets to from there. -/
theorem Point.induction (e : Engine σ) (aside : Bool) {C : Point σ → Prop}
    (h : ∀ p, (∀ q, e.Step aside p q → C q) → C p) (p : Point σ) : C p := by
  have wf : WellFounded (Prod.Lex (· < ·) (· < ·) : Nat × Nat → Nat × Nat → Prop) :=
    (Prod.lex Nat.lt_wfRel Nat.lt_wfRel).wf
  refine (InvImage.wf (fun p : Point σ => (p.depth, sizeOf p.segments)) wf).induction p ?_
  intro p ih
  exact h p fun q step => ih q step.lighter

/-- What is executed at the point upholds a property of states, if what it gets to does. -/
structure Upholds (aside : Bool) (P : Render.State σ → Prop) (p : Point σ) : Prop where
  text : ∀ literal origin rest, p.segments = .text literal origin :: rest →
    P p.state → P (Exec.write literal p.state).2
  value : ∀ tag rest, p.segments = .value tag :: rest →
    (∀ q, e.Step aside p q → P q.state → P (e.finish q).2) →
    P p.state → P (e.runValue (e.nestedIn p.depth) p.instanceId tag p.state).2
  lambda : ∀ tag children rest found store l, p.segments = .block tag children :: rest →
    tag.inverted = false → e.Sees tag.parts none p.state found store →
    found.value = some (.lambda l) → (∀ q, e.Step aside p q → P q.state → P (e.finish q).2) →
    P { p.state with store } → P (e.runSectionLambda (e.nestedIn p.depth) tag
      (e.runAll (e.nestedIn p.depth) p.instanceId children) l { p.state with store }).2
  lookup : ∀ name origin rest, p.segments = .inclusion name origin :: rest →
    P p.state → P { p.state with store := (e.getTemplate name p.state.store).2 }

def Silent (s t : Render.State σ) : Prop :=
  s.store.Undisturbed t.store ∧ t.sink = s.sink

theorem silent_pop (s : Render.State σ) : Silent s (Exec.pop s) := by
  obtain ⟨store, ⟨scopes, leases, nesting⟩, sink⟩ := s
  cases scopes with
  | nil => exact ⟨.refl store, rfl⟩
  | cons scope rest => exact ⟨Store.undisturbed_releaseAll scope.leases store, rfl⟩

theorem silent_context (s : Render.State σ) (context : Context σ) : Silent s { s with context } :=
  ⟨.refl s.store, rfl⟩

theorem silent_release (found : Found σ) (s : Render.State σ) : Silent s (Exec.release found s) :=
  ⟨Store.undisturbed_releaseAll found.leases s.store, rfl⟩

variable {e} {aside : Bool} {P : Render.State σ → Prop} (silent : ∀ {s t}, Silent s t → P s → P t)
  {depth id : Nat} {rest : List Segment} {s : Render.State σ}

include silent

/-- The elements `after` of a list, when those `before` have been done. -/
theorem upheld_forEachItem {children : List Segment} {tag : SectionTag} {found : Found σ}
    {store : Store σ} (before : List Value) {after : List Value} {t : Render.State σ}
    (sub : ∀ q, e.Step aside ⟨depth, id, .block tag children :: rest, s⟩ q →
      P q.state → P (e.finish q).2)
    (straight : tag.inverted = false) (sees : e.Sees tag.parts none s found store)
    (value : found.value = some (.list (before ++ after)))
    (ran : forEachItem (e.runAll (e.nestedIn depth) id children) before { s with store } = (.ok (), t))
    (h : P t) : P (forEachItem (e.runAll (e.nestedIn depth) id children) after t).2 := by
  induction after generalizing before t with
  | nil => exact h
  | cons item after ih =>
    let body : Exec σ Unit := e.runAll (e.nestedIn depth) id children
    have entered : P { t with context := t.context.push item [] } := silent (silent_context t _) h
    have one : P (Exec.withScope item [] body t).2 :=
      silent (silent_pop _) (sub _ (.item straight sees value ran) entered)
    rw [forEachItem]
    rcases done : Exec.withScope item [] body t with ⟨_ | _, u⟩
    · rw [done] at one
      rw [Attempt.bind_of_error done]
      exact one
    · rw [done] at one
      rw [Attempt.bind_of_ok done]
      have further : forEachItem body (before ++ [item]) { s with store } = (.ok (), u) := by
        rw [forEachItem_append, Attempt.bind_of_ok ran, forEachItem, Attempt.bind_of_ok done]
        rfl
      have value : found.value = some (.list ((before ++ [item]) ++ after)) := by
        rw [value, List.append_assoc, List.singleton_append]
      exact ih _ value further one

theorem upheld_block {tag : SectionTag} {children : List Segment}
    (upholds : e.Upholds aside P ⟨depth, id, .block tag children :: rest, s⟩)
    (sub : ∀ q, e.Step aside ⟨depth, id, .block tag children :: rest, s⟩ q →
      P q.state → P (e.finish q).2)
    (h : P s) : P (e.run (e.nestedIn depth) id (.block tag children) s).2 := by
  have looked := e.find_undisturbed s.context.values tag.parts (filled none s.store) s.store
  rcases ran : e.find s.context.values tag.parts (filled none s.store) s.store with ⟨err | found, store⟩
  · rw [ran] at looked
    rw [run_of_unfound ran]
    exact silent ⟨looked, rfl⟩ h
  · rw [ran] at looked
    have sees : e.Sees tag.parts none s found store := ran
    have h : P { s with store } := silent ⟨looked, rfl⟩ h
    have released : P (Exec.release found { s with store }) := silent (silent_release found _) h
    cases straight : tag.inverted with
    | true =>
      rw [run_of_inverted straight sees]
      split
      · next falsy => exact sub _ (.inverted straight sees falsy) released
      · exact released
    | false =>
      by_cases falsy : found.value.all (·.isFalsy) = true
      · rw [run_of_skipped straight sees falsy]
        exact released
      · obtain ⟨v, value⟩ : ∃ v, found.value = some v := by
          cases value : found.value with
          | none =>
            rw [value] at falsy
            exact absurd rfl falsy
          | some v => exact ⟨v, rfl⟩
        have truthy : v.isFalsy = false := by simpa [value] using falsy
        have inside (scope : (∀ items, v ≠ .list items) ∧ ∀ l, v ≠ .lambda l) :
            P (e.run (e.nestedIn depth) id (.block tag children) s).2 := by
          rw [run_of_scope straight sees value truthy scope]
          have entered : P { s with store, context := s.context.push v found.leases } :=
            silent (silent_context { s with store } _) h
          exact silent (silent_pop _) (sub _ (.scope straight sees value truthy scope) entered)
        cases v with
        | list items =>
          rw [run_of_list straight sees value]
          have all := upheld_forEachItem silent [] sub straight sees value rfl h
          exact silent (silent_release found _) all
        | lambda l =>
          rw [run_of_lambda straight sees value]
          exact silent (silent_release found _)
            (upholds.lambda tag children rest found store l rfl straight sees value sub h)
        | _ => exact inside ⟨nofun, nofun⟩

theorem upheld_inclusion {name : String} {origin : Origin}
    (upholds : e.Upholds aside P ⟨depth, id, .inclusion name origin :: rest, s⟩)
    (sub : ∀ q, e.Step aside ⟨depth, id, .inclusion name origin :: rest, s⟩ q →
      P q.state → P (e.finish q).2)
    (h : P s) : P (e.run (e.nestedIn depth) id (.inclusion name origin) s).2 := by
  have looked := upholds.lookup name origin rest rfl h
  rw [run]
  rcases got : e.getTemplate name s.store with ⟨err | _ | t, store⟩
  · rw [got] at looked
    unfold runInclusion
    rw [Exec.onStore_of_error got]
    exact looked
  · rw [got] at looked
    unfold runInclusion
    rw [Exec.onStore_of_ok got]
    exact looked
  · rw [got] at looked
    rw [runInclusion_of_some got]
    by_cases full : e.config.nestingLimit ≤ s.context.openings t.name
    · rw [Exec.nested_of_full (s := { s with store }) full]
      exact looked
    · rw [Exec.nested_of_room (s := { s with store }) full]
      have entered : P { s with store, context := s.context.entered t.name } :=
        silent (silent_context { s with store } _) looked
      refine silent (silent_context _ _) (?_ : P (e.nestedIn depth t _).2)
      cases depth with
      | zero => exact entered
      | succ depth => exact sub _ (.inclusion got full) entered

/-- What holds of a state holds of it when the execution ends, if it is upheld all along. -/
theorem finish_upheld (aside : Bool) (p : Point σ) (upholds : ∀ q, e.Reaches aside p q → e.Upholds aside P q)
    (h : P p.state) : P (e.finish p).2 := by
  induction p using Point.induction e aside with
  | h p ih =>
    have sub : ∀ q, e.Step aside p q → P q.state → P (e.finish q).2 :=
      fun q step => ih q step fun q' reaches => upholds q' (.head step reaches)
    have here := upholds p .refl
    obtain ⟨depth, id, segments, s⟩ := p
    cases segments with
    | nil => exact h
    | cons segment rest =>
      have first : P (e.run (e.nestedIn depth) id segment s).2 := by
        cases segment with
        | text literal origin => exact here.text literal origin rest rfl h
        | value tag => exact here.value tag rest rfl sub h
        | block tag children => exact upheld_block silent here sub h
        | inclusion name origin => exact upheld_inclusion silent here sub h
        | comment => exact h
      unfold finish
      rw [runAll]
      rcases ran : e.run (e.nestedIn depth) id segment s with ⟨_ | _, t⟩
      · rw [ran] at first
        rw [Attempt.bind_of_error ran]
        exact first
      · rw [ran] at first
        rw [Attempt.bind_of_ok ran]
        exact sub _ (.next ran) first

end Engine

end Logicless
