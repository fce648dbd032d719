import Logicless.Proofs.Course

/-!
# What executions do to the store

What holds from a store to what any operation of the renderer makes of it, holds from each point of a
render to the next, and from the end of each to the end of the whole (`Engine.Carries`).
-/

namespace Logicless

variable {σ α β : Type}

def Exec.Along (R : Store σ → Store σ → Prop) (x : Exec σ α) : Prop :=
  ∀ s, R s.store (x s).2.store

namespace Engine

/-- The relation holds from a store to what the renderer makes of it, without looking up templates and
learning hints. -/
structure Moves (e : Engine σ) (R : Store σ → Store σ → Prop) : Prop where
  trans : ∀ {s t u}, R s t → R t u → R s u
  looked : ∀ {s t}, s.Undisturbed t → R s t
  compiled : ∀ origin tag source s, R s (e.compileOneOff origin tag source s).2

/-- The relation holds from a store to what the renderer makes of it, without looking up templates. -/
structure Passes (e : Engine σ) (R : Store σ → Store σ → Prop) : Prop extends Moves e R where
  learned : ∀ slot hint s, s.hint? slot = none → R s { s with hints := (slot, hint) :: s.hints }

/-- The relation holds from a store to what any operation of the renderer makes of it. -/
structure Carries (e : Engine σ) (R : Store σ → Store σ → Prop) : Prop extends Passes e R where
  got : ∀ name s, R s (e.getTemplate name s).2

def along (R : Store σ → Store σ → Prop) (asked : Option Slot → Prop) : Likeness σ where
  rel x _ := x.Along R
  asked _ slot _ := asked slot
  same _ found found' := found = found'
  fit _ := True

namespace Moves

variable {e : Engine σ} {R : Store σ → Store σ → Prop} (c : e.Moves R)

include c

theorem refl (s : Store σ) : R s s :=
  c.looked (.refl s)

theorem still {x : Exec σ α} (h : ∀ s, (x s).2.store = s.store) : x.Along R := by
  intro s
  rw [h s]
  exact c.refl s.store

theorem bind_after {x : Exec σ α} {f : α → Exec σ β} (hf : ∀ a, (f a).Along R) (s : Render.State σ) :
    R (x s).2.store ((x >>= f) s).2.store := by
  rw [Attempt.bind_apply]
  rcases x s with ⟨_ | a, t⟩
  · exact c.refl _
  · exact hf a t

theorem bind {x : Exec σ α} {f : α → Exec σ β} (hx : x.Along R) (hf : ∀ a, (f a).Along R) :
    (x >>= f).Along R :=
  fun s => c.trans (hx s) (c.bind_after hf s)

theorem silent {s t : Render.State σ} (h : Silent s t) : R s.store t.store :=
  c.looked h.1

theorem withScope {x : Exec σ α} (v : Value) (leases : List (Lease σ)) (hx : x.Along R) :
    (Exec.withScope v leases x).Along R :=
  fun s => c.trans (hx { s with context := s.context.push v leases }) (c.silent (silent_pop _))

theorem ensuring {x : Exec σ α} (found : Found σ) (hx : x.Along R) :
    Exec.Along R (Attempt.ensuring x (Exec.release found)) :=
  fun s => c.trans (hx s) (c.silent (silent_release found _))

omit c in
theorem captured {x : Exec σ Unit} (hx : x.Along R) : (Exec.captured x).Along R :=
  fun s => hx { s with sink := Sink.empty none }

omit c in
theorem onStore {x : Attempt (Store σ) Error α} (hx : ∀ store, R store (x store).2) :
    (Exec.onStore x).Along R :=
  fun s => hx s.store

theorem nested {x : Exec σ α} (limit : Nat) (name : String) (hx : x.Along R) :
    (Exec.nested limit name x).Along R := by
  intro s
  by_cases full : limit ≤ s.context.openings name
  · rw [Exec.nested_of_full full]
    exact c.refl _
  · rw [Exec.nested_of_room full]
    exact hx { s with context := s.context.entered name }

theorem write (text : String) : (Exec.write text : Exec σ Unit).Along R := by
  refine c.still fun s => ?_
  unfold Exec.write
  split <;> rfl

theorem consumed {found found' : Found σ} {y y' : Exec σ α}
    (h : Exec.Consumes (fun x _ => x.Along R) found found' y y') : y.Along R := by
  cases h with
  | release hx => exact c.ensuring found hx
  | scope _ hx => exact c.withScope _ _ hx

theorem findHere {parts : List String} {slot : Option Slot} {k : Found σ → Exec σ α}
    (hk : ∀ found, (k found).Along R) : (e.findHere parts slot >>= k).Along R := by
  intro s
  have looked := e.find_undisturbed s.context.values parts (filled slot s.store) s.store
  rcases ran : e.find s.context.values parts (filled slot s.store) s.store with ⟨err | found, store⟩
  · rw [ran] at looked
    rw [findHere_of_error ran]
    exact c.looked looked
  · rw [ran] at looked
    rw [findHere_of_ok ran]
    exact c.trans (c.looked looked) (hk found { s with store })

theorem sees {parts : List String} {slot : Option Slot} {s : Render.State σ} {found : Found σ}
    {store : Store σ} (h : e.Sees parts slot s found store) : R s.store store := by
  have looked := e.find_undisturbed s.context.values parts (filled slot s.store) s.store
  rw [h] at looked
  exact c.looked looked

theorem entersOutput {origin : Origin} {tag output : String} {s : Render.State σ} {t : Template}
    {store : Store σ} (h : e.EntersOutput origin tag output s t store) : R s.store store := by
  have compiled := c.compiled origin tag output s.store
  rwa [h.compiled] at compiled

theorem given {tag : SectionTag} {body : Exec σ Unit} (hbody : body.Along R) {l : Lambda}
    {s u : Render.State σ} {input : String} (h : Given tag body l s input u) : R s.store u.store := by
  cases h with
  | literal _ => exact c.refl _
  | processed _ ran =>
    have moved := Moves.captured hbody s
    rwa [ran] at moved

theorem produces {tag : ValueTag} {slot : Option Slot} {found : Found σ} {s u : Render.State σ}
    {l : Lambda} (learns : ∀ hint s, R s.store (Engine.learnHint slot hint s).store)
    (h : e.Produces tag slot found s l u) : R s.store u.store := by
  cases h with
  | found _ => exact learns found.hint s
  | missing _ _ => exact c.refl _
  | silent _ _ _ => exact learns found.hint s

theorem renderTo {t : Template} (within : ∀ depth, (e.nestedIn depth t).Along R) (data : Value)
    (sink : Sink) (store : Store σ) : R store (e.renderTo t data sink store).2.2 := by
  unfold Engine.renderTo
  by_cases isOpen : store.isOpen = true
  · simp only [isOpen, if_true]
    rw [execute_apply]
    have ran := c.nested e.config.nestingLimit t.name (within (e.depthBound t.name store))
      ⟨store, startContext data, sink⟩
    exact c.trans ran (c.looked (Store.undisturbed_close _ _))
  · simp only [isOpen, if_false, Bool.false_eq_true]
    exact c.refl store

theorem kept {asked : Option Slot → Prop}
    (learns : ∀ slot hint s, asked slot → R s.store (Engine.learnHint slot hint s).store) :
    Pairing (along R asked) e e where
  missing := rfl
  support := rfl
  skipEscaping := rfl
  same_value same := congrArg Found.value same.symm
  same_fit _ _ := trivial
  fit_item _ _ := trivial
  pure _ := c.still fun _ => rfl
  bind := c.bind
  fail _ := c.still fun _ => rfl
  endless _ := c.still fun _ => rfl
  write := c.write
  captured := Moves.captured
  item _ := c.withScope _ _
  lookup _ consumed := c.findHere fun found => c.consumed (consumed found found rfl)
  learn asked same := by
    cases same
    exact fun s => learns _ _ s asked

end Moves

namespace Passes

variable {e : Engine σ} {R : Store σ → Store σ → Prop} (c : e.Passes R)

include c

theorem learnHint (slot : Option Slot) (hint : Option (Hint σ)) (s : Render.State σ) :
    R s.store (Engine.learnHint slot hint s).store := by
  rcases learnHint_cases slot hint s with same | ⟨place, h, _, _, empty, learned⟩
  · rw [same]
    exact c.refl _
  · rw [learned]
    exact c.learned place h s.store empty

theorem kept : Pairing (along R fun _ => True) e e :=
  c.toMoves.kept fun slot hint s _ => c.learnHint slot hint s

end Passes

namespace Carries

variable {e : Engine σ} {R : Store σ → Store σ → Prop} (c : e.Carries R)

include c

theorem nests {inner : Template → Exec σ Unit} (hinner : ∀ t, (inner t).Along R) :
    Pairing.Nests (along R fun _ => True) e e inner inner where
  asked_none _ := trivial
  oneOff origin tag source :=
    c.bind (Moves.onStore (c.compiled origin tag source)) fun t => c.nested _ _ (hinner t)
  inclusion name origin := by
    refine c.bind (Moves.onStore (c.got name)) fun found => ?_
    cases found with
    | none => exact c.still fun _ => rfl
    | some t => exact c.nested _ _ (hinner t)

theorem nestedIn (depth : Nat) (t : Template) : (e.nestedIn depth t).Along R := by
  induction depth generalizing t with
  | zero => exact c.still fun _ => rfl
  | succ depth ih =>
    rw [Engine.nestedIn]
    exact c.kept.runAll (c.nests ih) t.instanceId t.instanceId t.segments fun _ _ => trivial

theorem runAll (depth id : Nat) (segments : List Segment) :
    (e.runAll (e.nestedIn depth) id segments).Along R :=
  c.kept.runAll (c.nests (c.nestedIn depth)) id id segments fun _ _ => trivial

theorem run (depth id : Nat) (segment : Segment) : (e.run (e.nestedIn depth) id segment).Along R :=
  c.kept.run (c.nests (c.nestedIn depth)) id id segment fun _ _ => trivial

theorem forEachItem (depth id : Nat) (children : List Segment) (items : List Value) :
    (Engine.forEachItem (e.runAll (e.nestedIn depth) id children) items).Along R := by
  have body : (along R fun _ => True).rel (e.runAll (e.nestedIn depth) id children)
      (e.runAll (e.nestedIn depth) id children) := c.runAll depth id children
  exact c.kept.forEachItem body fun _ _ => trivial

theorem sectionOutput {inner : Template → Exec σ Unit} (hinner : ∀ t, (inner t).Along R)
    (tag : SectionTag) (l : Lambda) (input : String) : (e.sectionOutput inner tag l input).Along R := by
  have invoked : Exec.Along R (invoke l tag.text (some input)) := c.still fun s => by
    unfold invoke
    cases l.invoke (some input) <;> rfl
  refine c.bind invoked fun output => ?_
  cases output with
  | none => exact c.still fun _ => rfl
  | some output =>
    simp only
    split
    · exact c.still fun _ => rfl
    · split
      · exact (c.nests hinner).oneOff tag.origin tag.text output
      · exact c.write output

open Render (Point)

variable {aside : Bool} {p q : Point σ}

/-- On the way to a point. -/
theorem step_before (step : e.Step aside p q) : R p.state.store q.state.store := by
  cases step with
  | @next _ depth id segment _ s _ ran =>
    have moved := c.run depth id segment s
    rwa [ran] at moved
  | scope _ sees _ _ _ => exact c.sees sees
  | @item _ depth id _ children _ s _ store before _ _ _ _ sees _ ran =>
    have moved := c.forEachItem depth id children before { s with store }
    rw [ran] at moved
    exact c.trans (c.sees sees) moved
  | @inverted _ _ _ _ _ _ s found store _ sees _ =>
    exact c.trans (c.sees sees) (c.silent (silent_release found { s with store }))
  | @inclusion _ _ _ name _ _ s _ _ got _ =>
    have moved := c.got name s.store
    rwa [got] at moved
  | output _ sees _ given _ enters =>
    exact c.trans (c.sees sees) (c.trans (c.given (c.runAll _ _ _) given) (c.entersOutput enters))
  | input _ sees _ _ => exact c.sees sees
  | value sees produces _ enters =>
    exact c.trans (c.sees sees) (c.trans (c.produces (c.learnHint _) produces) (c.entersOutput enters))

/-- From the end of what is executed at a point, to the end of what it is a part of. -/
theorem step_after (step : e.Step aside p q) : R (e.finish q).2.store (e.finish p).2.store := by
  have rest {depth id : Nat} {segment : Segment} {segments : List Segment} {s : Render.State σ}
      {t : Store σ} (within : R t (e.run (e.nestedIn depth) id segment s).2.store) :
      R t (e.finish ⟨depth, id, segment :: segments, s⟩).2.store :=
    c.trans within (c.bind_after (fun _ => c.runAll depth id segments) s)
  cases step with
  | next ran =>
    unfold finish
    rw [Engine.runAll, Attempt.bind_of_ok ran]
    exact c.refl _
  | scope straight sees value truthy scope =>
    refine rest ?_
    rw [run_of_scope straight sees value truthy scope, Exec.withScope_apply]
    exact c.silent (silent_pop _)
  | @item _ depth id _ children _ _ _ _ before item after t straight sees value ran =>
    refine rest ?_
    rw [run_of_list straight sees value, Attempt.ensuring_apply, forEachItem_append,
      Attempt.bind_of_ok ran]
    have more := c.bind_after (x := Exec.withScope item [] (e.runAll (e.nestedIn depth) id children))
      (fun _ => c.forEachItem depth id children after) t
    exact c.trans (c.silent (silent_pop _)) (c.trans more (c.silent (silent_release _ _)))
  | inverted inverted sees falsy =>
    refine rest ?_
    rw [run_of_inverted inverted sees, if_pos falsy]
    exact c.refl _
  | @inclusion _ _ _ _ _ _ s t store got room =>
    refine rest ?_
    rw [Engine.run, runInclusion_of_some got,
      Exec.nested_of_room (s := { s with store }) room]
    exact c.refl _
  | output straight sees value given interpolates enters =>
    refine rest ?_
    rw [run_of_lambda straight sees value, Attempt.ensuring_apply, runSectionLambda_of_given given,
      sectionOutput_of_interpolates interpolates, enters.rendered]
    exact c.silent (silent_release _ _)
  | @input depth id tag children _ s _ store l straight sees value processed =>
    refine rest ?_
    rw [run_of_lambda straight sees value, Attempt.ensuring_apply]
    rw [runSectionLambda_of_processed processed]
    refine c.trans ?_ (c.silent (silent_release _ _))
    exact c.bind_after (x := Exec.captured (e.runAll (e.nestedIn depth) id children))
      (c.sectionOutput (c.nestedIn depth) tag l) { s with store }
  | @value depth id tag _ s found store l u output t store' sees produces interpolates enters =>
    refine rest ?_
    rw [Engine.run, runValue_of_interpolates sees produces interpolates, Attempt.ensuring_apply]
    refine c.trans ?_ (c.silent (silent_release _ _))
    refine c.trans ?_ (c.bind_after (fun text => ?_) u)
    · have entered : e.EntersOutput tag.origin tag.text output { u with sink := Sink.empty none } t
          store' := ⟨enters.compiled, enters.room⟩
      rw [Exec.captured_apply, entered.rendered]
      exact c.refl _
    · exact c.kept.writeValue tag text

theorem reaches_before (reaches : e.Reaches aside p q) : R p.state.store q.state.store := by
  induction reaches with
  | refl => exact c.refl _
  | tail _ step ih => exact c.trans ih (c.step_before step)

theorem reaches_after (reaches : e.Reaches aside p q) :
    R (e.finish q).2.store (e.finish p).2.store := by
  induction reaches with
  | refl => exact c.refl _
  | tail _ step ih => exact c.trans (c.step_after step) ih

/-- From what a lookup of a template makes of the store, to the end of what is executed. -/
theorem lookup_after {name : String} {origin : Origin} {rest : List Segment}
    (stands : p.segments = .inclusion name origin :: rest) :
    R (e.getTemplate name p.state.store).2 (e.finish p).2.store := by
  obtain ⟨depth, id, _, s⟩ := p
  subst stands
  refine c.trans ?_ (c.bind_after (fun _ => c.runAll depth id rest) s)
  rw [Engine.run, runInclusion]
  rcases got : e.getTemplate name s.store with ⟨err | _ | t, store⟩
  · rw [Exec.onStore_of_error got]
    exact c.refl store
  · rw [Exec.onStore_of_ok got]
    exact c.refl store
  · rw [Exec.onStore_of_ok got]
    exact c.nested e.config.nestingLimit t.name (c.nestedIn depth t) { s with store }

/-! ### Renders -/

theorem renderTo (t : Template) (data : Value) (sink : Sink) (store : Store σ) :
    R store (e.renderTo t data sink store).2.2 :=
  c.toMoves.renderTo (fun depth => c.nestedIn depth t) data sink store

/-- A point of a render lies between its two ends. -/
theorem renderTo_between (limit : 1 ≤ e.config.nestingLimit) {store : Store σ}
    (isOpen : store.isOpen = true) {t : Template} {data : Value} {sink : Sink}
    (reaches : e.Reaches aside (e.startPoint t data sink store) p) :
    R store p.state.store ∧ R (e.finish p).2.store (e.renderTo t data sink store).2.2 := by
  refine ⟨c.reaches_before reaches, ?_⟩
  rw [e.renderTo_finish limit isOpen]
  exact c.trans (c.reaches_after reaches) (c.looked (Store.undisturbed_close _ _))

end Carries

/-! ### Where hints are learned and templates are looked up -/

/-- Besides learning hints and looking up templates, nothing that the renderer does to a store takes the
property from it. -/
structure Endures (e : Engine σ) (P : Store σ → Prop) : Prop where
  looked : ∀ {s t}, s.Undisturbed t → P s → P t
  compiled : ∀ origin tag source s, P s → P (e.compileOneOff origin tag source s).2

theorem Passes.endures {e : Engine σ} {P : Store σ → Prop} (c : e.Passes fun s t => P s → P t) :
    e.Endures P :=
  ⟨c.looked, c.compiled⟩

theorem writeValue_store (e : Engine σ) (tag : ValueTag) (text : String) (s : Render.State σ) :
    (e.writeValue tag text s).2.store = s.store := by
  have wrote (text : String) : (Exec.write text s).2.store = s.store := by
    unfold Exec.write
    split <;> rfl
  unfold Engine.writeValue
  split
  · exact wrote text
  · cases e.support text with
    | ok escaped => exact wrote escaped
    | error err => rfl

namespace Endures

variable {e : Engine σ} {P : Store σ → Prop} (c : e.Endures P)
  {inner : Template → Exec σ Unit} {s : Render.State σ}

open Render (Point)

include c

omit c in
theorem writeValue {tag : ValueTag} {text : String} {s : Render.State σ} (h : P s.store) :
    P (e.writeValue tag text s).2.store := by
  rw [e.writeValue_store]
  exact h

theorem renderOneOff {origin : Origin} {text output : String}
    (entered : ∀ t store, e.EntersOutput origin text output s t store → P store →
      P (inner t { s with store, context := s.context.entered oneOffNesting }).2.store)
    (h : P s.store) : P (e.renderOneOff inner origin text output s).2.store := by
  have compiled := c.compiled origin text output s.store h
  unfold Engine.renderOneOff
  rcases ran : e.compileOneOff origin text output s.store with ⟨err | t, store⟩
  · rw [ran] at compiled
    rw [Exec.onStore_of_error ran]
    exact compiled
  · rw [ran] at compiled
    rw [Exec.onStore_of_ok ran]
    by_cases full : e.config.nestingLimit ≤ s.context.openings oneOffNesting
    · rw [Exec.nested_of_full (s := { s with store }) full]
      exact compiled
    · rw [Exec.nested_of_room (s := { s with store }) full]
      exact entered t store ⟨ran, full⟩ compiled

theorem writeLambda {tag : ValueTag} (missing : Exec σ Unit) {l : Lambda}
    (hmissing : l.invoke none = .ok none → P (missing s).2.store)
    (entered : ∀ output t store, l.Interpolates none output →
      e.EntersOutput tag.origin tag.text output s t store → P store →
      P (inner t { s with
        store, context := s.context.entered oneOffNesting, sink := Sink.empty none }).2.store)
    (h : P s.store) : P (e.writeLambda inner tag missing l s).2.store := by
  unfold Engine.writeLambda invoke
  cases returns : l.invoke none with
  | error reason => exact h
  | ok output =>
    cases output with
    | none => exact hmissing returns
    | some output =>
      simp only [pure_bind]
      cases empty : output.isEmpty with
      | true => exact h
      | false =>
        cases interpolated : l.interpolated with
        | false => exact writeValue h
        | true =>
          simp only [Bool.false_eq_true, if_false, if_true]
          have rendered : P (Exec.captured
              (e.renderOneOff inner tag.origin tag.text output) s).2.store := by
            rw [Exec.captured_apply]
            refine c.renderOneOff (s := { s with sink := Sink.empty none }) (fun t store enters => ?_) h
            exact entered output t store ⟨returns, empty, interpolated⟩ ⟨enters.compiled, enters.room⟩
          rw [Attempt.bind_apply]
          generalize Exec.captured (e.renderOneOff inner tag.origin tag.text output) s = ran at rendered
          obtain ⟨_ | text, t⟩ := ran
          · exact rendered
          · exact writeValue rendered

theorem writeMissing {tag : ValueTag}
    (entered : ∀ l output t store, e.missing tag.info = .ok (some (.lambda l)) →
      l.Interpolates none output → e.EntersOutput tag.origin tag.text output s t store → P store →
      P (inner t { s with
        store, context := s.context.entered oneOffNesting, sink := Sink.empty none }).2.store)
    (h : P s.store) : P (e.writeMissing inner tag s).2.store := by
  unfold Engine.writeMissing
  change P ((Exec.ofExcept (e.missing tag.info) >>= _) s).2.store
  cases given : e.missing tag.info with
  | error err => exact h
  | ok answer =>
    cases answer with
    | none => exact h
    | some v =>
      cases v with
      | null => exact h
      | lambda l =>
        exact c.writeLambda (Attempt.fail .endless) (fun _ => h)
          (fun output t store => entered l output t store given) h
      | _ => exact writeValue h

/-- A value tag, if the property survives what it learns, and the templates made of the output of lambdas
keep it. -/
theorem runValue {tag : ValueTag} {id : Nat}
    (learned : ∀ found store, e.Sees tag.parts (e.slot? id tag) s found store → found.isNull = false →
      P store → P (learnHint (e.slot? id tag) found.hint { s with store }).store)
    (entered : ∀ found store l u output t store', e.Sees tag.parts (e.slot? id tag) s found store →
      e.Produces tag (e.slot? id tag) found { s with store } l u → l.Interpolates none output →
      e.EntersOutput tag.origin tag.text output u t store' → P store' →
      P (inner t { u with
        store := store', context := u.context.entered oneOffNesting, sink := Sink.empty none }).2.store)
    (h : P s.store) : P (e.runValue inner id tag s).2.store := by
  have looked := e.find_undisturbed s.context.values tag.parts (filled (e.slot? id tag) s.store) s.store
  unfold Engine.runValue
  simp only
  rcases ran : e.find s.context.values tag.parts (filled (e.slot? id tag) s.store) s.store with
    ⟨err | found, store⟩
  · rw [ran] at looked
    rw [findHere_of_error ran]
    exact c.looked looked h
  · rw [ran] at looked
    have sees : e.Sees tag.parts (e.slot? id tag) s found store := ran
    have h : P store := c.looked looked h
    rw [findHere_of_ok ran, Attempt.ensuring_apply]
    refine c.looked (silent_release found _).1 ?_
    have missed (value : found.isNull = true) : P (e.writeMissing inner tag { s with store }).2.store :=
      c.writeMissing (fun l output t store' given interpolates enters =>
        entered found store l _ output t store' sees (.missing value given) interpolates enters) h
    cases value : found.value with
    | none => exact missed (by simp only [Found.isNull, value])
    | some v =>
      have learns (present : v.isNull = false) :
          P (learnHint (e.slot? id tag) found.hint { s with store }).store :=
        learned found store sees (by simpa only [Found.isNull, value] using present) h
      cases v with
      | null => exact missed (by simp only [Found.isNull, value, Value.isNull])
      | lambda l =>
        refine c.writeLambda _ (s := learnHint (e.slot? id tag) found.hint { s with store })
          (fun silent => ?_) (fun output t store' interpolates enters =>
            entered found store l _ output t store' sees (.found value) interpolates enters) (learns rfl)
        exact c.writeMissing (fun l' output t store' given interpolates enters =>
          entered found store l' _ output t store' sees (.silent value silent given) interpolates
            enters) (learns rfl)
      | _ => exact writeValue (learns rfl)

/-- A lambda for a section, if what it is given and what it gives keep the property. -/
theorem runSectionLambda {tag : SectionTag} {body : Exec σ Unit} {l : Lambda}
    (processed : l.input = .processed → P (body { s with sink := Sink.empty none }).2.store)
    (entered : ∀ input u output t store, Given tag body l s input u →
      l.Interpolates (some input) output → e.EntersOutput tag.origin tag.text output u t store →
      P store → P (inner t { u with store, context := u.context.entered oneOffNesting }).2.store)
    (h : P s.store) : P (e.runSectionLambda inner tag body l s).2.store := by
  have wrote {input : String} {u : Render.State σ} (given : Given tag body l s input u)
      (h : P u.store) : P (e.sectionOutput inner tag l input u).2.store := by
    unfold Engine.sectionOutput invoke
    cases returns : l.invoke (some input) with
    | error reason => exact h
    | ok output =>
      cases output with
      | none => exact h
      | some output =>
        simp only [pure_bind]
        cases empty : output.isEmpty with
        | true => exact h
        | false =>
          cases interpolated : l.interpolated with
          | false =>
            simp only [Bool.false_eq_true, if_false]
            unfold Exec.write
            split <;> exact h
          | true =>
            exact c.renderOneOff (fun t store enters =>
              entered input u output t store given ⟨returns, empty, interpolated⟩ enters) h
  cases kind : l.input with
  | literal =>
    rw [runSectionLambda_of_literal kind]
    exact wrote (.literal kind) h
  | processed =>
    have kept : P (Exec.captured body s).2.store := processed kind
    rw [runSectionLambda_of_processed kind]
    rcases ran : Exec.captured body s with ⟨_ | input, u⟩
    · rw [ran] at kept
      rw [Attempt.bind_of_error ran]
      exact kept
    · rw [ran] at kept
      rw [Attempt.bind_of_ok ran]
      exact wrote (.processed kind ran) kept

omit c in
theorem nestedIn {depth : Nat} {t : Template}
    (within : ∀ d, depth = d + 1 → P (e.finish ⟨d, t.instanceId, t.segments, s⟩).2.store)
    (h : P s.store) : P (e.nestedIn depth t s).2.store := by
  cases depth with
  | zero => exact h
  | succ d => exact within d rfl

/-- A property of the store can only be lost where a hint is learned or a template is looked up: it holds
in the end, if each such place on the way keeps it. -/
theorem finish {p : Point σ}
    (learns : ∀ q tag rest found store, e.Reaches true p q → q.segments = .value tag :: rest →
      e.Sees tag.parts (e.slot? q.instanceId tag) q.state found store → found.isNull = false →
      P q.state.store → P store →
      P (learnHint (e.slot? q.instanceId tag) found.hint { q.state with store }).store)
    (lookups : ∀ q name origin rest, e.Reaches true p q → q.segments = .inclusion name origin :: rest →
      P q.state.store → P (e.getTemplate name q.state.store).2)
    (h : P p.state.store) : P (e.finish p).2.store := by
  refine finish_upheld (P := fun s => P s.store) (fun silent => c.looked silent.1) true p
    (fun q reaches => ?_) h
  obtain ⟨depth, id, segments, s⟩ := q
  constructor
  · intro literal _ _ _ h
    unfold Exec.write
    split <;> exact h
  · rintro tag rest rfl sub h
    refine c.runValue (fun found store sees value => learns _ tag rest found store reaches rfl sees value h)
      (fun found store l u output t store' sees produces interpolates enters compiled =>
        nestedIn ?_ compiled) h
    rintro d rfl
    exact sub _ (.value sees produces interpolates enters) compiled
  · rintro tag children rest found store l rfl straight sees value sub h
    refine c.runSectionLambda (s := { s with store }) (fun processed => ?_)
      (fun input u output t store' given interpolates enters compiled => nestedIn ?_ compiled) h
    · exact sub _ (.input straight sees value processed) h
    · rintro d rfl
      exact sub _ (.output straight sees value given interpolates enters) compiled
  · exact fun name origin rest stands h => lookups _ name origin rest reaches stands h

end Endures

/-- A property of the store that hints have no part in can only be lost where a template is looked up. -/
theorem Passes.finish_of_lookups {e : Engine σ} {P : Store σ → Prop}
    (c : e.Passes fun s t => P s → P t) {p : Render.Point σ}
    (lookups : ∀ q name origin rest, e.Reaches true p q → q.segments = .inclusion name origin :: rest →
      P q.state.store → P (e.getTemplate name q.state.store).2)
    (h : P p.state.store) : P (e.finish p).2.store :=
  c.endures.finish (fun q tag _ found store _ _ _ _ _ h =>
    c.learnHint (e.slot? q.instanceId tag) found.hint { q.state with store } h) lookups h

end Engine

end Logicless
