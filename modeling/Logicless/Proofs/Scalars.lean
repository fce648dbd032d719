import Logicless.Proofs.Escaping
import Logicless.Proofs.Repetition

/-!
# Scopes that bind nothing

A scalar binds no names but those of the scope itself. As a scope it makes no difference to what is
executed in it, if no tag asks for a scope itself and there are no lambdas
(`Blueprint.overlooks_of_build`).
-/

namespace Logicless

variable {σ α β : Type}

/-! ### Values -/

namespace Value

def isScalar : Value → Bool
  | .null | .bool _ | .int _ | .float _ | .string _ => true
  | _ => false

inductive Lambdaless : Value → Prop where
  | scalar {v : Value} (h : v.isScalar = true) : Lambdaless v
  | list {items : List Value} (h : ∀ item ∈ items, Lambdaless item) : Lambdaless (.list items)
  | map {entries : List (String × Value)} (h : ∀ entry ∈ entries, Lambdaless entry.2) :
      Lambdaless (.map entries)
  | object {o : HostObject Value} (h : ∀ member ∈ o.members, ∀ v, member.2 = some v → Lambdaless v) :
      Lambdaless (.object o)

theorem not_lambdaless {l : Lambda} : ¬ Lambdaless (.lambda l) := by
  rintro (⟨⟨⟩⟩ | _)

theorem conforms_of_scalar {v : Value} (scalar : v.isScalar = true) (names : String → List String) :
    v.Conforms names := by
  cases v with
  | null => exact .null
  | bool b => exact .bool b
  | int n => exact .int n
  | float x => exact .float x
  | string s => exact .string s
  | _ => cases scalar

theorem unbound_scalar {v : Value} (scalar : v.isScalar = true) (name : String) :
    v.item? name = none ∧ v.get? name = none ∧ v.member? name = none := by
  cases v <;> first | exact ⟨rfl, rfl, rfl⟩ | cases scalar

section

variable {u v : Value} {name : String}

theorem lambdaless_of_item (h : v.Lambdaless) (found : v.item? name = some u) : u.Lambdaless := by
  cases h with
  | scalar scalar => cases (unbound_scalar scalar name).1.symm.trans found
  | list h =>
    obtain ⟨i, _, found⟩ := Option.bind_eq_some_iff.mp found
    exact h u (List.mem_of_getElem? found)
  | _ => cases found

theorem lambdaless_of_get (h : v.Lambdaless) (found : v.get? name = some u) : u.Lambdaless := by
  cases h with
  | scalar scalar => cases (unbound_scalar scalar name).2.1.symm.trans found
  | map h =>
    obtain ⟨l₁, l₂, split, _⟩ := List.lookup_eq_some_iff.mp found
    exact h (name, u) (by rw [split]; simp)
  | _ => cases found

theorem lambdaless_of_member (h : v.Lambdaless) (found : v.member? name = some u) : u.Lambdaless := by
  cases h with
  | scalar scalar => cases (unbound_scalar scalar name).2.2.symm.trans found
  | object h =>
    obtain ⟨i, _, found⟩ := Option.bind_eq_some_iff.mp found
    obtain ⟨member, at_i, found⟩ := Option.bind_eq_some_iff.mp found
    exact h member (List.mem_of_getElem? at_i) u found
  | _ => cases found

end

inductive Padded : List Value → List Value → Prop where
  | nil : Padded [] []
  | cons (v : Value) {vs vs' : List Value} (h : Padded vs vs') : Padded (v :: vs) (v :: vs')
  | scalar {v : Value} (scalar : v.isScalar = true) {vs vs' : List Value} (h : Padded vs vs') :
      Padded vs (v :: vs')

theorem Padded.refl (vs : List Value) : Padded vs vs := by
  induction vs with
  | nil => exact .nil
  | cons v vs ih => exact .cons v ih

theorem Padded.insert {v : Value} (scalar : v.isScalar = true) (before after : List Value) :
    Padded (before ++ after) (before ++ v :: after) := by
  induction before with
  | nil => exact .scalar scalar (.refl after)
  | cons u before ih => exact .cons u ih

theorem Padded.all {vs vs' : List Value} (padded : Padded vs vs') {P : Value → Prop}
    (scalars : ∀ v, v.isScalar = true → P v) (h : ∀ v ∈ vs, P v) : ∀ v ∈ vs', P v := by
  induction padded with
  | nil => exact h
  | cons v _ ih =>
    obtain ⟨first, rest⟩ := List.forall_mem_cons.mp h
    exact List.forall_mem_cons.mpr ⟨first, ih rest⟩
  | scalar scalar _ ih => exact List.forall_mem_cons.mpr ⟨scalars _ scalar, ih h⟩

end Value

/-- The key does not start with a name of the innermost scope. -/
def Key.Selfless (parts : List String) : Prop :=
  ∀ name ∈ parts.head?, Resolver.namesThis name = false

structure Segment.Selfless (segments : List Segment) : Prop where
  values : ∀ tag ∈ Segment.valueTagsOf segments, Key.Selfless tag.parts
  sections : ∀ block ∈ Segment.sectionsOf segments, Key.Selfless block.1.parts

/-! ### Lookups -/

namespace Lookup

variable {rules : Rules σ} {shelf : Option Nat} {globals : List (String × Value)} {name : String}

/-- What is found in scopes without lambdas has none in it. -/
theorem hereditary_lambdaless (outside : ∀ entry ∈ globals, entry.2.Lambdaless) :
    Hereditary rules (builtIns shelf globals) Value.Lambdaless where
  tells {r scope name v} member fit said := by
    cases Resolver.takes_of_tells (isBuiltIn_of_mem member) said with
    | scope same => exact fit v same
    | item same found => exact Value.lambdaless_of_item (fit _ same) found
    | entry same found => exact Value.lambdaless_of_get (fit _ same) found
    | member same found => exact Value.lambdaless_of_member (fit _ same) found
    | outside global found =>
      rw [globals_of_mem member global] at found
      obtain ⟨l₁, l₂, split, _⟩ := List.lookup_eq_some_iff.mp found
      exact outside (name, v) (by rw [split]; simp)

/-- All built-in resolvers pass in a scalar, unless the name is that of the scope itself. -/
theorem saidFirst_scalar {v : Value} (scalar : v.isScalar = true)
    (other : Resolver.namesThis name = false) :
    saidFirst rules (some v) name (builtIns shelf globals) = .ok none := by
  have passed : ∀ q ∈ builtIns shelf globals, q.tells rules (some v) name = .ok none := by
    refine fun q => builtIns_cases (P := fun q => q.tells rules (some v) name = .ok none) ?_ ?_ ?_ ?_ rfl
    · simp only [Resolver.tells, Resolver.this, other, Bool.false_eq_true, if_false]
    all_goals cases v <;> first | rfl | cases scalar
  have said := saidFirst_of_passed [] passed
  rwa [List.append_nil] at said

/-- Scalars among the scopes do not change the value of a key, unless it asks for a scope itself. -/
theorem said_padded {parts : List String} (selfless : Key.Selfless parts) {scopes scopes' : List Value}
    (padded : Value.Padded scopes scopes') :
    said rules (builtIns shelf globals) scopes' parts = said rules (builtIns shelf globals) scopes parts := by
  have within {name : String} (other : Resolver.namesThis name = false) :
      saidIn rules (builtIns shelf globals) name scopes' =
        saidIn rules (builtIns shelf globals) name scopes := by
    induction padded with
    | nil => rfl
    | cons v _ ih => rw [saidIn, saidIn, ih]
    | scalar scalar _ ih => rw [saidIn, saidFirst_scalar scalar other, ih]
  cases parts with
  | nil => rfl
  | cons name rest => rw [said, said, within (selfless name rfl)]

end Lookup

/-! ### Executions -/

section

variable (e : Engine σ) (rules : Rules σ) (start : Store σ) (ts : List (Template × Template))

/-- There are scalars among the scopes of the second state, and no lambdas in scopes. Otherwise the
states differ in what their stores remember alone. -/
structure Render.State.Padded (s s' : Render.State σ) : Prop where
  scopes : Value.Padded s.context.values s'.context.values
  nesting : s'.context.nesting = s.context.nesting
  sink : s'.sink = s.sink
  fit : ∀ v ∈ s.context.values, v.Conforms rules.names ∧ v.Lambdaless
  store : s.store.Alike e.split rules ts s'.store
  located : s.store.locators = start.locators

structure Exec.Agreement (c c' : Context σ) (out out' : Except Halt α × Render.State σ) : Prop where
  result : out'.1 = out.1
  context : out.2.context = c
  context' : out'.2.context = c'
  sink : out'.2.sink = out.2.sink
  store : out.2.store.Alike e.split rules ts out'.2.store
  located : out.2.store.locators = start.locators

def Exec.Overlooks (x x' : Exec σ α) : Prop :=
  ∀ s s', s.Padded e rules start ts s' →
    Agreement e rules start ts s.context s'.context (x s) (x' s')

end

variable {e : Engine σ} {rules : Rules σ} {start : Store σ} {ts : List (Template × Template)}

namespace Exec

variable {s s' : Render.State σ}

theorem Agreement.padded {out out' : Except Halt α × Render.State σ}
    (h : Agreement e rules start ts s.context s'.context out out') (before : s.Padded e rules start ts s') :
    out.2.Padded e rules start ts out'.2 := by
  refine ⟨?_, ?_, h.sink, ?_, h.store, h.located⟩
  · rw [h.context, h.context']
    exact before.scopes
  · rw [h.context, h.context']
    exact before.nesting
  · rw [h.context]
    exact before.fit

theorem Agreement.bind {x x' : Exec σ α} {f f' : α → Exec σ β}
    (first : Agreement e rules start ts s.context s'.context (x s) (x' s'))
    (before : s.Padded e rules start ts s') (further : ∀ a, Overlooks e rules start ts (f a) (f' a)) :
    Agreement e rules start ts s.context s'.context ((x >>= f) s) ((x' >>= f') s') := by
  have between := first.padded before
  rcases ran : x s with ⟨r, t⟩
  rcases ran' : x' s' with ⟨r', t'⟩
  rw [ran, ran'] at first between
  obtain ⟨rfl, context, context', sink, store, located⟩ := first
  cases r' with
  | error halt =>
    rw [Attempt.bind_of_error ran, Attempt.bind_of_error ran']
    exact ⟨rfl, context, context', sink, store, located⟩
  | ok a =>
    rw [Attempt.bind_of_ok ran, Attempt.bind_of_ok ran']
    have later := further a t t' between
    exact ⟨later.result, later.context.trans context, later.context'.trans context', later.sink,
      later.store, later.located⟩

/-- Templates that have been made on the way are forgotten in the end. -/
theorem Agreement.forget {made : List (Template × Template)} {c c' : Context σ}
    {out out' : Except Halt α × Render.State σ} (h : Agreement e rules start made c c' out out')
    (fewer : ∀ p ∈ ts, p ∈ made) : Agreement e rules start ts c c' out out' :=
  ⟨h.result, h.context, h.context', h.sink, h.store.mono fewer, h.located⟩

namespace Overlooks

theorem still (r : Except Halt α) : Overlooks e rules start ts (fun s => (r, s)) fun s => (r, s) :=
  fun _ _ h => ⟨rfl, rfl, rfl, h.sink, h.store, h.located⟩

theorem bind {x x' : Exec σ α} {f f' : α → Exec σ β} (hx : Overlooks e rules start ts x x')
    (hf : ∀ a, Overlooks e rules start ts (f a) (f' a)) :
    Overlooks e rules start ts (x >>= f) (x' >>= f') :=
  fun s s' h => (hx s s' h).bind h hf

theorem write (text : String) :
    Overlooks e rules start ts (Exec.write text : Exec σ Unit) (Exec.write text) := by
  intro s s' h
  unfold Exec.write
  rw [h.sink]
  cases s.sink.write? text with
  | none => exact ⟨rfl, rfl, rfl, h.sink, h.store, h.located⟩
  | some sink => exact ⟨rfl, rfl, rfl, rfl, h.store, h.located⟩

theorem captured {x x' : Exec σ Unit} (hx : Overlooks e rules start ts x x') :
    Overlooks e rules start ts (Exec.captured x) (Exec.captured x') := by
  intro s s' h
  have aside : Render.State.Padded e rules start ts { s with sink := Sink.empty none }
      { s' with sink := Sink.empty none } := ⟨h.scopes, h.nesting, rfl, h.fit, h.store, h.located⟩
  obtain ⟨same, context, context', sink, store, located⟩ := hx _ _ aside
  rw [captured_apply, captured_apply, same, sink]
  exact ⟨rfl, context, context', h.sink, store, located⟩

theorem withScope {v : Value} (conforms : v.Conforms rules.names) (lambdaless : v.Lambdaless)
    {x x' : Exec σ α} (hx : Overlooks e rules start ts x x') :
    Overlooks e rules start ts (Exec.withScope v [] x) (Exec.withScope v [] x') := by
  intro s s' h
  have pushed : Render.State.Padded e rules start ts { s with context := s.context.push v [] }
      { s' with context := s'.context.push v [] } :=
    ⟨.cons v h.scopes, h.nesting, h.sink, List.forall_mem_cons.mpr ⟨⟨conforms, lambdaless⟩, h.fit⟩,
      h.store, h.located⟩
  obtain ⟨same, context, context', sink, store, located⟩ := hx _ _ pushed
  rw [withScope_apply, withScope_apply, pop_push context, pop_push context']
  exact ⟨same, rfl, rfl, sink, store, located⟩

theorem nested {limit : Nat} {name : String} {x x' : Exec σ α} (hx : Overlooks e rules start ts x x') :
    Overlooks e rules start ts (Exec.nested limit name x) (Exec.nested limit name x') := by
  intro s s' h
  have openings : s'.context.openings name = s.context.openings name := by
    rw [Context.openings, h.nesting, Context.openings]
  by_cases full : limit ≤ s.context.openings name
  · rw [nested_of_full full, nested_of_full (openings ▸ full)]
    exact ⟨rfl, rfl, rfl, h.sink, h.store, h.located⟩
  · rw [nested_of_room full, nested_of_room (openings ▸ full)]
    have entered : Render.State.Padded e rules start ts { s with context := s.context.entered name }
        { s' with context := s'.context.entered name } :=
      ⟨h.scopes, congrArg (Openings.enter name) h.nesting, h.sink, h.fit, h.store, h.located⟩
    obtain ⟨same, context, context', sink, store, located⟩ := hx _ _ entered
    rw [leave_entered context, leave_entered context']
    exact ⟨same, rfl, rfl, sink, store, located⟩

/-! ### Steps that go by the scopes -/

structure Same (rules : Rules σ) (parts : List String) (found found' : Found σ) : Prop
    extends Found.Same rules parts found found' where
  lambdaless : ∀ v, found.value = some v → v.Lambdaless

theorem consumes {parts : List String} {found found' : Found σ} (same : Same rules parts found found')
    {y y' : Exec σ α} (consumed : Consumes (Overlooks e rules start ts) found found' y y') :
    Overlooks e rules start ts y y' := by
  cases consumed with
  | release hx =>
    intro s s' h
    rw [Attempt.ensuring_apply, Attempt.ensuring_apply, same.release.1, same.release.2]
    exact hx s s' h
  | scope value hx =>
    rw [same.leases, same.leases']
    exact hx.withScope (same.conforms _ value) (same.lambdaless _ value)

end Overlooks

end Exec

structure Engine.Lambdaless (e : Engine σ) (rules : Rules σ) : Prop where
  lawful : Lookup.Lawful rules e.resolvers
  builtIn : ∃ shelf globals, e.resolvers = Lookup.builtIns shelf globals ∧
    ∀ entry ∈ globals, entry.2.Lambdaless
  missing : ∀ info l, e.missing info ≠ .ok (some (.lambda l))

namespace Exec.Overlooks

variable (lambdaless : e.Lambdaless rules)

include lambdaless

theorem lookup {parts : List String} (selfless : Key.Selfless parts) {slot slot' : Option Slot}
    (slotted : Store.Slotted (ts.map (·.1)) parts slot)
    (slotted' : Store.Slotted (ts.map (·.2)) parts slot') {k k' : Found σ → Exec σ α}
    (consumed : ∀ found found', Same rules parts found found' →
      Consumes (Overlooks e rules start ts) found found' (k found) (k' found')) :
    Overlooks e rules start ts (e.findHere parts slot >>= k) (e.findHere parts slot' >>= k') := by
  intro s s' h
  obtain ⟨shelf, globals, builtIn, outside⟩ := lambdaless.builtIn
  have said : Lookup.said rules e.resolvers s'.context.values parts =
      Lookup.said rules e.resolvers s.context.values parts := by
    rw [builtIn]
    exact Lookup.said_padded selfless h.scopes
  have silent {v : Value}
      (told : Lookup.said rules e.resolvers s.context.values parts = .ok (some v)) : v.Lambdaless := by
    rw [builtIn] at told
    exact (Lookup.hereditary_lambdaless outside).said (fun u member => (h.fit u member).2) told
  have conforms : ∀ v ∈ s.context.values, v.Conforms rules.names := fun v member => (h.fit v member).1
  have conforms' := h.scopes.all (fun v scalar => Value.conforms_of_scalar scalar rules.names) conforms
  -- Hints are tried on innermost scopes that differ, but what is found goes by what is said.
  have finds := Engine.find_same (.itself lambdaless.lawful) h.store.recalls h.store.recalls' slotted
    slotted' conforms conforms' said
  rcases ran : e.find s.context.values parts (Engine.filled slot s.store) s.store with ⟨r, store⟩
  rcases ran' : e.find s'.context.values parts (Engine.filled slot' s'.store) s'.store with ⟨r', store'⟩
  rw [ran, ran'] at finds
  have looked (here : s.store.Looked e.split rules (ts.map (·.1)) store)
      (there : s'.store.Looked e.split rules (ts.map (·.2)) store') :
      Render.State.Padded e rules start ts { s with store } { s' with store := store' } :=
    ⟨h.scopes, h.nesting, h.sink, h.fit,
      h.store.undisturbed here.kept there.kept here.recalls there.recalls,
      here.kept.locators.trans h.located⟩
  generalize Lookup.said rules e.resolvers s.context.values parts = told at finds silent
  cases finds with
  | failed here there =>
    rw [Engine.findHere_of_error ran, Engine.findHere_of_error ran']
    have after := looked here there
    exact ⟨rfl, rfl, rfl, after.sink, after.store, after.located⟩
  | found same here there =>
    rw [Engine.findHere_of_ok ran, Engine.findHere_of_ok ran']
    have same : Same rules parts _ _ := ⟨same, fun v value => silent (congrArg Except.ok value)⟩
    exact consumes same (consumed _ _ same) _ _ (looked here there)

omit lambdaless in
theorem learnHint {parts : List String} {slot slot' : Option Slot}
    (slotted : Store.Slotted (ts.map (·.1)) parts slot)
    (slotted' : Store.Slotted (ts.map (·.2)) parts slot') {found found' : Found σ}
    (same : Same rules parts found found') :
    Overlooks e rules start ts (Attempt.update (Engine.learnHint slot found.hint))
      (Attempt.update (Engine.learnHint slot' found'.hint)) := by
  intro s s' h
  obtain ⟨context, sink, _, located, _⟩ := Engine.learnHint_unchanged slot found.hint s
  obtain ⟨context', sink', _⟩ := Engine.learnHint_unchanged slot' found'.hint s'
  exact ⟨rfl, context, context', sink'.trans (h.sink.trans sink.symm),
    h.store.learnHint slotted slotted' same.hinted same.hinted', located.trans h.located⟩

omit lambdaless in
theorem getTemplate {name : String} {f f' : Option Template → Exec σ α}
    (unknown : Overlooks e rules start ts (f none) (f' none))
    (known : ∀ t t', Template.Twins t t' → Engine.content e.split start.locators name = .ok (some t.segments) →
      Overlooks e rules start ((t, t') :: ts) (f (some t)) (f' (some t'))) :
    Overlooks e rules start ts (Exec.onStore (e.getTemplate name) >>= f)
      (Exec.onStore (e.getTemplate name) >>= f') := by
  intro s s' h
  have loads := Engine.getTemplate_twins rfl name h.store
  rcases ran : e.getTemplate name s.store with ⟨r, store⟩
  rcases ran' : e.getTemplate name s'.store with ⟨r', store'⟩
  rw [ran, ran'] at loads
  have located := (Engine.locators_obtained ran).trans h.located
  cases loads with
  | failed err after =>
    rw [Exec.onStore_of_error ran, Exec.onStore_of_error ran']
    exact ⟨rfl, rfl, rfl, h.sink, after, located⟩
  | unknown after =>
    rw [Exec.onStore_of_ok ran, Exec.onStore_of_ok ran']
    exact unknown { s with store } { s' with store := store' }
      ⟨h.scopes, h.nesting, h.sink, h.fit, after, located⟩
  | @known t t' _ _ twins after =>
    rw [Exec.onStore_of_ok ran, Exec.onStore_of_ok ran']
    have content : Engine.content e.split start.locators name = .ok (some t.segments) := by
      rw [← h.located]
      exact Engine.content_obtained h.store.recalls ran
    exact (known t t' twins content { s with store } { s' with store := store' }
      ⟨h.scopes, h.nesting, h.sink, h.fit, after, located⟩).forget
        fun p member => List.mem_cons_of_mem _ member

end Exec.Overlooks

namespace Engine

open Render (Point)

/-- Neither the segments nor templates that can be reached through their partial tags have a tag that
asks for a scope itself. -/
def Selfless (e : Engine σ) (start : Store σ) (segments : List Segment) : Prop :=
  ∀ drawn, e.Draws start segments drawn → Segment.Selfless drawn

theorem Draws.trans {first second third : List Segment} (h : e.Draws start first second)
    (h' : e.Draws start second third) : e.Draws start first third := by
  induction h' with
  | start => exact h
  | inclusion _ named supplied ih => exact .inclusion ih named supplied

theorem Selfless.included {segments included : List Segment} {name : String}
    (selfless : e.Selfless start segments) (named : name ∈ Segment.inclusionsOf segments)
    (content : content e.split start.locators name = .ok (some included)) :
    e.Selfless start included :=
  fun drawn h => selfless drawn ((Draws.start.inclusion named (.located content)).trans h)

def overlooking (e : Engine σ) (rules : Rules σ) (start : Store σ) (ts : List (Template × Template)) :
    Likeness σ where
  rel := Exec.Overlooks e rules start ts
  asked parts slot slot' := Key.Selfless parts ∧ Store.Slotted (ts.map (·.1)) parts slot ∧
    Store.Slotted (ts.map (·.2)) parts slot'
  same := Exec.Overlooks.Same rules
  fit v := v.Conforms rules.names ∧ v.Lambdaless

section

variable (lambdaless : e.Lambdaless rules)

include lambdaless

/-- Every step of the renderer overlooks scalars. -/
theorem overlooking_kept (start : Store σ) (ts : List (Template × Template)) :
    Pairing (e.overlooking rules start ts) e e where
  missing := rfl
  support := rfl
  skipEscaping := rfl
  same_value same := same.value
  same_fit same value := ⟨same.conforms _ value, same.lambdaless _ value⟩
  fit_item fit member := by
    obtain ⟨conforms, silent⟩ := fit
    cases conforms with
    | list conforms =>
      cases silent with
      | scalar scalar => cases scalar
      | list silent => exact ⟨conforms _ member, silent _ member⟩
  pure a := .still (.ok a)
  bind := Exec.Overlooks.bind
  fail _ := .still _
  endless _ := .still _
  write := Exec.Overlooks.write
  captured := Exec.Overlooks.captured
  item fit hx := hx.withScope fit.1 fit.2
  lookup asked consumed := Exec.Overlooks.lookup lambdaless asked.1 asked.2.1 asked.2.2 consumed
  learn asked same := Exec.Overlooks.learnHint asked.2.1 asked.2.2 same

/-- There are no lambdas whose output might be executed. -/
theorem outputs_overlook {inner inner' : Template → Exec σ Unit} :
    Pairing.Outputs (e.overlooking rules start ts) e e (fun name => name) inner inner' where
  missing _ := Or.inl rfl
  oneOff l heard := by
    cases heard with
    | found fit => exact absurd fit.2 Value.not_lambdaless
    | missing given => exact absurd given (lambdaless.missing _ _)

theorem runAll_overlooks {inner inner' : Template → Exec σ Unit}
    (within : ∀ {ts t t'}, Template.Twins t t' → (t, t') ∈ ts → e.Selfless start t.segments →
      Exec.Overlooks e rules start ts (inner t) (inner' t'))
    {t t' : Template} (member : (t, t') ∈ ts) {segments : List Segment}
    (part : ∀ tag ∈ Segment.valueTagsOf segments, tag ∈ t.valueTags)
    (part' : ∀ tag ∈ Segment.valueTagsOf segments, tag ∈ t'.valueTags)
    (selfless : e.Selfless start segments) :
    Exec.Overlooks e rules start ts (e.runAll inner t.instanceId segments)
      (e.runAll inner' t'.instanceId segments) := by
  have here := selfless segments .start
  have suits : Pairing.Suits (e.overlooking rules start ts) e e (fun name => name) inner inner'
      t.instanceId t'.instanceId segments := by
    refine ⟨fun tag tagged => ?_, fun block within => ?_, fun name named origin => ?_⟩
    · exact ⟨here.values tag tagged,
        slotted_slot? (List.mem_map.mpr ⟨_, member, rfl⟩) (part tag tagged),
        slotted_slot? (List.mem_map.mpr ⟨_, member, rfl⟩) (part' tag tagged)⟩
    · exact ⟨here.sections block within, nofun, nofun⟩
    · refine Exec.Overlooks.getTemplate (.still _) fun u u' twins content => ?_
      show Exec.Overlooks _ _ _ _ (Exec.nested _ u.name _) (Exec.nested _ u'.name _)
      rw [twins.name]
      exact (within twins List.mem_cons_self (selfless.included named content)).nested
  have ran := (overlooking_kept lambdaless start ts).runAll_retitled (outputs_overlook lambdaless)
    t.instanceId t'.instanceId segments suits
  rwa [Segment.retitleAll_same] at ran

theorem nestedIn_overlooks (depth : Nat) {t t' : Template} (twins : t.Twins t') (member : (t, t') ∈ ts)
    (selfless : e.Selfless start t.segments) :
    Exec.Overlooks e rules start ts (e.nestedIn depth t) (e.nestedIn depth t') := by
  induction depth generalizing t t' ts with
  | zero => exact .still _
  | succ depth ih =>
    rw [nestedIn, nestedIn, twins.segments]
    refine runAll_overlooks lambdaless ih member (fun _ => id) (fun tag within => ?_) selfless
    rw [Template.valueTags, twins.segments]
    exact within

end

/-! ### Points -/

theorem Selfless.part {segments part : List Segment} (selfless : e.Selfless start segments)
    (values : Segment.valueTagsOf part ⊆ Segment.valueTagsOf segments)
    (sections : Segment.sectionsOf part ⊆ Segment.sectionsOf segments)
    (inclusions : Segment.inclusionsOf part ⊆ Segment.inclusionsOf segments) : e.Selfless start part := by
  intro drawn draws
  have either : drawn = part ∨ e.Draws start segments drawn := by
    induction draws with
    | start => exact .inl rfl
    | inclusion _ named supplied ih =>
      rcases ih with rfl | drawn
      · exact .inr (.inclusion .start (inclusions named) supplied)
      · exact .inr (.inclusion drawn named supplied)
  rcases either with rfl | drawn
  · have whole := selfless segments .start
    exact ⟨fun tag member => whole.values tag (values member),
      fun block member => whole.sections block (sections member)⟩
  · exact selfless _ drawn

theorem selfless_of_whole {segments : List Segment} (whole : Segment.inclusionsOf segments = [])
    (selfless : Segment.Selfless segments) : e.Selfless start segments := by
  intro drawn draws
  have same : drawn = segments := by
    induction draws with
    | start => rfl
    | inclusion _ named _ ih =>
      rw [ih, whole] at named
      cases named
  exact same ▸ selfless

/-- Scalars among the scopes make no difference to what is executed, if no tag asks for a scope itself
and there are no lambdas. -/
structure Overlooks (e : Engine σ) (names : String → List String) (start : Store σ) : Prop where
  /-- One more scalar, anywhere among the scopes, changes neither the result nor what is written. -/
  inserted : ∀ {p : Point σ} {before after : List (Scope σ)} {v : Value} {leases : List (Lease σ)},
    e.Arises names start p → (∀ scope ∈ p.state.context.scopes, scope.value.Lambdaless) →
    e.Selfless p.state.store p.segments → p.state.context.scopes = before ++ after → v.isScalar = true →
    let context := { p.state.context with scopes := before ++ ⟨v, leases⟩ :: after }
    let q : Point σ := { p with state := { p.state with context } }
    (e.finish q).1 = (e.finish p).1 ∧ (e.finish q).2.sink = (e.finish p).2.sink
  /-- Where the value of a section is a scalar that does not skip it, its children might as well stand in
  its place. -/
  entered : ∀ {p : Point σ} {tag : SectionTag} {children rest : List Segment} {found : Found σ}
    {store : Store σ} {v : Value}, e.Arises names start p →
    (∀ scope ∈ p.state.context.scopes, scope.value.Lambdaless) → e.Selfless p.state.store p.segments →
    p.segments = .block tag children :: rest → tag.inverted = false →
    e.Sees tag.parts none p.state found store → found.value = some v → v.isScalar = true →
    v.isFalsy = false →
    let q : Point σ := { p with segments := children ++ rest }
    (e.finish p).1 = (e.finish q).1 ∧ (e.finish p).2.sink = (e.finish q).2.sink

section

variable (lambdaless : e.Lambdaless rules)

include lambdaless

/-- From states that differ in scalars, what stands at the point is executed alike. -/
theorem finish_overlooks {known : List Template} {p : Point σ} (here : e.RecallsAt rules known p)
    {segments : List Segment} (part : ∀ tag ∈ Segment.valueTagsOf segments, tag ∈ Segment.valueTagsOf p.segments)
    (selfless : e.Selfless start segments) :
    Exec.Overlooks e rules start (Template.alone known) (e.runAll (e.nestedIn p.depth) p.instanceId segments)
      (e.runAll (e.nestedIn p.depth) p.instanceId segments) := by
  obtain ⟨t, member, id, within⟩ := here.stands
  rw [id]
  exact runAll_overlooks lambdaless (nestedIn_overlooks lambdaless p.depth) (Template.mem_alone member)
    (fun tag tagged => within tag (part tag tagged)) (fun tag tagged => within tag (part tag tagged)) selfless

/-- A section whose value is a scalar is executed as its children are. -/
theorem run_of_scalar {known : List Template} {s : Render.State σ}
    (recalls : s.Recalls e.split rules known) (silent : ∀ v ∈ s.context.values, v.Lambdaless)
    {inner : Template → Exec σ Unit} {id : Nat} {tag : SectionTag} {children : List Segment}
    (body : Exec.Overlooks e rules s.store (Template.alone known) (e.runAll inner id children)
      (e.runAll inner id children))
    (straight : tag.inverted = false) {found : Found σ} {store : Store σ}
    (sees : e.Sees tag.parts none s found store) {v : Value} (value : found.value = some v)
    (scalar : v.isScalar = true) (truthy : v.isFalsy = false) :
    Exec.Agreement e rules s.store (Template.alone known) s.context s.context (e.runAll inner id children s)
      (e.run inner id (.block tag children) s) := by
  have unslotted : Store.Slotted known tag.parts none := nofun
  obtain ⟨looked, leases, _⟩ := sees_recalls lambdaless.lawful recalls unslotted sees
  have kept := e.find_undisturbed s.context.values tag.parts (filled none s.store) s.store
  rw [sees] at kept
  have alike : s.store.Alike e.split rules (Template.alone known) store :=
    (Store.Alike.itself recalls.store).undisturbed (.refl s.store) kept
      (Store.Alike.itself recalls.store).recalls (Store.Alike.itself looked.store).recalls'
  have padded : s.Padded e rules s.store (Template.alone known)
      { s with store, context := s.context.push v [] } :=
    ⟨.scalar scalar (.refl _), rfl, rfl, fun u member => ⟨recalls.values u member, silent u member⟩,
      alike, rfl⟩
  obtain ⟨result, context, context', sink, stores, located⟩ := body s _ padded
  have scope : (∀ items, v ≠ .list items) ∧ ∀ l, v ≠ .lambda l := by
    constructor <;> rintro _ rfl <;> cases scalar
  rw [run_of_scope straight sees value truthy scope, leases, Exec.withScope_apply, Exec.pop_push context']
  exact ⟨result, context, rfl, sink, stores, located⟩

theorem overlooks_of_recalls (recalls : start.Recalls e.split rules []) : e.Overlooks rules.names start where
  inserted {p before after v leases} arises silent selfless scopes scalar := by
    intro context q
    obtain ⟨known, here⟩ := arises.recallsAt lambdaless.lawful recalls
    have inserted : Value.Padded p.state.context.values context.values := by
      show Value.Padded (p.state.context.scopes.map (·.value)) (context.scopes.map (·.value))
      rw [scopes, List.map_append, List.map_append]
      exact .insert scalar _ _
    have padded : p.state.Padded e rules p.state.store (Template.alone known) q.state :=
      ⟨inserted, rfl, rfl, List.forall_mem_map.mpr fun scope within =>
        ⟨here.state.scopes scope within, silent scope within⟩, .itself here.state.store, rfl⟩
    have ends := finish_overlooks lambdaless here (fun _ => id) selfless _ _ padded
    exact ⟨ends.result, ends.sink⟩
  entered {p tag children rest found store v} arises silent selfless stands straight sees value scalar
      truthy := by
    intro q
    obtain ⟨known, here⟩ := arises.recallsAt lambdaless.lawful recalls
    have silent : ∀ v ∈ p.state.context.values, v.Lambdaless := List.forall_mem_map.mpr silent
    have overlooks {part : List Segment}
        (values : Segment.valueTagsOf part ⊆ Segment.valueTagsOf (.block tag children :: rest))
        (sections : Segment.sectionsOf part ⊆ Segment.sectionsOf (.block tag children :: rest))
        (inclusions : Segment.inclusionsOf part ⊆ Segment.inclusionsOf (.block tag children :: rest)) :
        Exec.Overlooks e rules p.state.store (Template.alone known)
          (e.runAll (e.nestedIn p.depth) p.instanceId part)
          (e.runAll (e.nestedIn p.depth) p.instanceId part) := by
      rw [← stands] at values sections inclusions
      exact finish_overlooks lambdaless here values (selfless.part values sections inclusions)
    have body := overlooks (List.subset_append_left (Segment.valueTagsOf children) _)
      (fun _ member => List.mem_cons_of_mem _ (List.mem_append_left _ member))
      (List.subset_append_left _ _)
    have further := overlooks (List.subset_append_right _ (Segment.valueTagsOf rest))
      (List.subset_append_right _ _) (List.subset_append_right _ _)
    have same : p.state.Padded e rules p.state.store (Template.alone known) p.state :=
      ⟨.refl _, rfl, rfl, fun v member => ⟨here.state.values v member, silent v member⟩,
        .itself here.state.store, rfl⟩
    have ends := (run_of_scalar lambdaless here.state silent body straight sees value scalar truthy).bind
      same fun _ => further
    rw [← runAll_append] at ends
    have p_ends : e.finish p = (e.run (e.nestedIn p.depth) p.instanceId (.block tag children) >>= fun _ =>
        e.runAll (e.nestedIn p.depth) p.instanceId rest) p.state := by
      rw [finish, stands]
      rfl
    rw [p_ends]
    exact ⟨ends.result, ends.sink⟩

end

end Engine

namespace Blueprint

/-- Beside no other resolvers and without lambdas, scalars among the scopes make no difference to what is
executed, if no tag asks for a scope itself. -/
theorem overlooks_of_build {names : String → List String} {b : Blueprint σ}
    (unaccompanied : b.Unaccompanied names) (silent : ∀ entry ∈ b.globals, entry.2.Lambdaless)
    (missing : ∀ info l, b.missing info ≠ .ok (some (.lambda l))) {host : σ} {e : Engine σ}
    {start : Store σ} (built : b.build host = .ok (e, start)) : e.Overlooks names start := by
  obtain ⟨⟨shelf, resolvers⟩, rules, rfl, lawful, assembled⟩ := lawful_of_build unaccompanied built
  have lambdaless : e.Lambdaless rules :=
    ⟨lawful, ⟨shelf, b.globals, resolvers, silent⟩, assembled.missing ▸ missing⟩
  exact Engine.overlooks_of_recalls lambdaless assembled.remembers

/-! ### An engine that keeps no positions of members -/

def forgetful (locators : List Locator) : Blueprint Unit :=
  { standard with config := { Config.standard with memberCacheMaxSize := some 0 }, locators }

def forgetfulEngine : Engine Unit where
  config := { Config.standard with memberCacheMaxSize := some 0 }
  resolvers := Lookup.builtIns (some 0) []
  missing := .ignore
  support := .html
  split := Key.dotted
  factoryLabel := (CacheFactory.standard (σ := Unit)).label
  members := some ⟨40, .members (some 0)⟩

theorem build_forgetful (locators : List Locator) :
    (forgetful locators).build () = .ok (forgetfulEngine, (forgetful locators).firstStore ()) := by
  have limit : 1 ≤ forgetfulEngine.config.nestingLimit := by decide
  have addressable :
      CacheSettings.isAddressable ⟨none, forgetfulEngine.config.memberCacheMaxSize⟩ = true := by
    decide +kernel
  have built := build_eq (b := forgetful locators) ⟨nofun, rfl, rfl, limit, addressable, rfl⟩ ()
  rw [show (forgetful locators).resolvers ++ Lookup.builtIns (some 0) (forgetful locators).globals =
    Lookup.builtIns (some 0) [] from rfl, byPriority_builtIns] at built
  exact built

def nameTag : Segment :=
  .value ⟨"name", ⟨"t", 1, 2⟩, false, ["name"]⟩

def flagged : Template :=
  ⟨0, "t", [.block ⟨false, "ok", ⟨"t", 1, 1⟩, ["ok"], "\x7b\x7bname\x7d\x7d"⟩ [nameTag]]⟩

/-- A number is put below the data, and `true` is entered. -/
theorem overlooks_of_build_forgetful :
    ∃ e start, (forgetful []).build () = .ok (e, start) ∧
      let data : Value := .map [("name", .string "a"), ("ok", .bool true)]
      let p := e.startPoint flagged data (Sink.empty none) { start with compiled := 1 }
      let context := { p.state.context with scopes := p.state.context.scopes ++ [⟨.int 1, []⟩] }
      let below : Render.Point Unit := { p with state := { p.state with context } }
      let inside : Render.Point Unit := { p with segments := [nameTag] }
      ((e.finish below).1 = (e.finish p).1 ∧ (e.finish below).2.sink = (e.finish p).2.sink) ∧
        (e.finish p).1 = (e.finish inside).1 ∧ (e.finish p).2.sink = (e.finish inside).2.sink := by
  refine ⟨_, _, build_forgetful [], ?_⟩
  intro data p context below inside
  have unaccompanied : (forgetful []).Unaccompanied fun _ => [] := ⟨rfl, rfl, nofun⟩
  have overlooks := overlooks_of_build unaccompanied nofun nofun (build_forgetful [])
  have conforms : data.Conforms fun _ => [] :=
    .map (List.forall_mem_cons.mpr ⟨.string "a", List.forall_mem_singleton.mpr (.bool true)⟩)
  have silent : data.Lambdaless :=
    .map (List.forall_mem_cons.mpr ⟨.scalar rfl, List.forall_mem_singleton.mpr (.scalar rfl)⟩)
  have parsed : Template.ofSource 0 "t" "\x7b\x7b#ok\x7d\x7d\x7b\x7bname\x7d\x7d\x7b\x7b/ok\x7d\x7d"
      Key.dotted = .ok flagged := by
    with_unfolding_all rfl
  have history : forgetfulEngine.History (fun _ => []) ((forgetful []).firstStore ())
      ⟨{ (forgetful []).firstStore () with compiled := 1 }, [flagged]⟩ := by
    refine ⟨[.compile "t" "\x7b\x7b#ok\x7d\x7d\x7b\x7bname\x7d\x7d\x7b\x7b/ok\x7d\x7d"],
      List.forall_mem_singleton.mpr trivial, ?_⟩
    exact (congrArg Prod.snd
      (Engine.perform_compile (e := forgetfulEngine) (s := ⟨(forgetful []).firstStore (), []⟩) parsed)).symm
  have arises : forgetfulEngine.Arises (fun _ => []) ((forgetful []).firstStore ()) p := by
    refine ⟨⟨_, flagged, data, Sink.empty none, p, history, List.mem_singleton_self _, conforms,
      ⟨rfl, by decide, .refl⟩, rfl, rfl, fun _ => id⟩, List.forall_mem_singleton.mpr conforms⟩
  have selfless : forgetfulEngine.Selfless p.state.store p.segments := by
    refine Engine.selfless_of_whole rfl ⟨List.forall_mem_singleton.mpr ?_,
      List.forall_mem_singleton.mpr ?_⟩ <;>
    · rintro _ ⟨⟩
      rfl
  have sees : forgetfulEngine.Sees ["ok"] none p.state ⟨some (.bool true), none, []⟩ p.state.store := by
    with_unfolding_all rfl
  have silent : ∀ scope ∈ p.state.context.scopes, scope.value.Lambdaless :=
    List.forall_mem_singleton.mpr silent
  have last : p.state.context.scopes = p.state.context.scopes ++ [] := (List.append_nil _).symm
  exact ⟨overlooks.inserted arises silent selfless last rfl,
    overlooks.entered arises silent selfless rfl rfl sees rfl rfl rfl⟩

/-- Two host objects of one type that do not list the same members. -/
def uneven : Value :=
  .list [.object ⟨0, "T", [("x", some (.string "v1"))], none⟩,
    .object ⟨1, "T", [("a", some (.string "A")), ("x", some (.string "v2"))], none⟩]

def plainItems : Template :=
  ⟨0, "plain", [.block ⟨false, "items", ⟨"plain", 1, 1⟩, ["items"], "\x7b\x7bx\x7d\x7d"⟩
    [.value ⟨"x", ⟨"plain", 1, 2⟩, false, ["x"]⟩]]⟩

def flaggedItems : Template :=
  ⟨1, "flagged", [.block ⟨false, "items", ⟨"flagged", 1, 1⟩, ["items"],
      "\x7b\x7b#ok\x7d\x7d\x7b\x7bx\x7d\x7d\x7b\x7b/ok\x7d\x7d"⟩
    [.block ⟨false, "ok", ⟨"flagged", 1, 2⟩, ["ok"], "\x7b\x7bx\x7d\x7d"⟩
      [.value ⟨"x", ⟨"flagged", 1, 3⟩, false, ["x"]⟩]]]⟩

/-- The hint of the first object serves for the second, but not where `true` is the innermost scope. -/
theorem not_overlooks_forgetful :
    ∃ e start, (forgetful []).build () = .ok (e, start) ∧
      e.observations
        [.compile "plain" "\x7b\x7b#items\x7d\x7d\x7b\x7bx\x7d\x7d\x7b\x7b/items\x7d\x7d",
          .compile "flagged" ("\x7b\x7b#items\x7d\x7d\x7b\x7b#ok\x7d\x7d\x7b\x7bx\x7d\x7d" ++
            "\x7b\x7b/ok\x7d\x7d\x7b\x7b/items\x7d\x7d"),
          .render 0 (.map [("items", uneven), ("ok", .bool true)]) none,
          .render 1 (.map [("items", uneven), ("ok", .bool true)]) none] ⟨start, []⟩ =
        [.obtained (.ok true), .obtained (.ok true), .rendered (.ok ()) ["A", "v1"],
          .rendered (.ok ()) ["v2", "v1"]] := by
  refine ⟨_, _, build_forgetful [], ?_⟩
  have plain : Template.ofSource 0 "plain"
      "\x7b\x7b#items\x7d\x7d\x7b\x7bx\x7d\x7d\x7b\x7b/items\x7d\x7d" Key.dotted = .ok plainItems := by
    with_unfolding_all rfl
  have flagged : Template.ofSource 1 "flagged"
      ("\x7b\x7b#items\x7d\x7d\x7b\x7b#ok\x7d\x7d\x7b\x7bx\x7d\x7d" ++
        "\x7b\x7b/ok\x7d\x7d\x7b\x7b/items\x7d\x7d") Key.dotted = .ok flaggedItems := by
    with_unfolding_all rfl
  have rendered : forgetfulEngine.observations
      [.render 0 (.map [("items", uneven), ("ok", .bool true)]) none,
        .render 1 (.map [("items", uneven), ("ok", .bool true)]) none]
      ⟨{ (forgetful []).firstStore () with compiled := 2 }, [plainItems, flaggedItems]⟩ =
      [.rendered (.ok ()) ["A", "v1"], .rendered (.ok ()) ["v2", "v1"]] := by
    cbv
  refine (Engine.observations_compile (e := forgetfulEngine) (s := ⟨(forgetful []).firstStore (), []⟩)
    plain _).trans (congrArg _ ?_)
  exact (Engine.observations_compile (e := forgetfulEngine) flagged _).trans (congrArg _ rendered)

end Blueprint

end Logicless
