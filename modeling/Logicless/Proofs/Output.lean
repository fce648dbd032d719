import Logicless.Proofs.Depth
import Logicless.Proofs.Scalars
import Logicless.Proofs.Segments

/-!
# The output of lambdas

Where the output of a lambda is executed as a template, it writes what a partial tag writes that stands
for the same source in the same scopes (`Blueprint.echoes_of_build`).
-/

namespace Logicless

variable {σ α β : Type}

/-- The handler goes by the tag alone, and not by the name of the template that the tag stands in. -/
def MissingHandler.Nameless (handler : MissingHandler) : Prop :=
  ∀ info name, handler { info with template := name } = handler info

/-! ### Texts -/

namespace Sink

def Adds (text : String) (s t : Sink) : Prop :=
  t.text = s.text ++ text

theorem adds_nothing (s : Sink) : Adds "" s s :=
  String.append_empty.symm

theorem Adds.trans {first second : String} {s t u : Sink} (h : Adds first s t) (h' : Adds second t u) :
    Adds (first ++ second) s u := by
  rw [Adds, h', h, String.append_assoc]

theorem Adds.unique {text text' : String} {s t : Sink} (h : Adds text s t) (h' : Adds text' s t) :
    text = text' :=
  (String.append_right_inj s.text).mp (h.symm.trans h')

theorem adds_write {text : String} {s t : Sink} (written : s.write? text = some t) : Adds text s t := by
  rw [write?_some written]
  simp only [Adds, Sink.text, List.reverse_cons, String.join_append, String.join_cons, String.join_nil,
    String.append_empty]

end Sink

def Segment.Reprints (segments segments' : List Segment) : Prop :=
  ∃ f, segments' = retitleAll f segments

theorem Segment.reprints_self (segments : List Segment) : Reprints segments segments :=
  ⟨fun name => name, (retitleAll_same segments).symm⟩

theorem Segment.reprints_of_source {name name' source : String} {split : KeySplitter}
    {segments segments' : List Segment} (tree : Tree.ofSource name source split = .ok segments)
    (tree' : Tree.ofSource name' source split = .ok segments') : Reprints segments segments' := by
  have renamed := Tree.ofSource_retitle (fun _ => name') name source split
  rw [tree, tree'] at renamed
  exact ⟨_, Except.ok.inj renamed⟩

/-! ### Executions -/

section

variable (e : Engine σ) (rules : Rules σ) (ts : List (Template × Template))

/-- The states have the same scopes and the same locators, and what is remembered in each of them is
right. -/
structure Render.State.Near (s s' : Render.State σ) : Prop where
  scopes : s'.context.values = s.context.values
  fit : ∀ v ∈ s.context.values, v.Conforms rules.names
  recalls : s.store.Recalls e.split rules (ts.map (·.1))
  recalls' : s'.store.Recalls e.split rules (ts.map (·.2))
  locators : s'.store.locators = s.store.locators

/-- How executions end that echo one another: with the same result, and with the same text added. -/
structure Exec.Accord (s s' : Render.State σ) (a a' : α) (t t' : Render.State σ) : Prop where
  result : a' = a
  context : t.context = s.context
  context' : t'.context = s'.context
  added : ∃ text, Sink.Adds text s.sink t.sink ∧ Sink.Adds text s'.sink t'.sink
  near : t.Near e rules ts t'

def Exec.Echoes (x x' : Exec σ α) : Prop :=
  ∀ s s' : Render.State σ, s.Near e rules ts s' → ∀ {a a' : α} {t t' : Render.State σ},
    x s = (.ok a, t) → x' s' = (.ok a', t') → Accord e rules ts s s' a a' t t'

end

variable {e : Engine σ} {rules : Rules σ} {ts : List (Template × Template)}

namespace Render.State.Near

variable {s s' : Render.State σ}

theorem with_context (h : s.Near e rules ts s') (c c' : Context σ) (same : c'.values = c.values)
    (fit : ∀ v ∈ c.values, v.Conforms rules.names) :
    Render.State.Near e rules ts { s with context := c } { s' with context := c' } :=
  ⟨same, fit, h.recalls, h.recalls', h.locators⟩

theorem with_sink (h : s.Near e rules ts s') (sink sink' : Sink) :
    Render.State.Near e rules ts { s with sink } { s' with sink := sink' } :=
  ⟨h.scopes, h.fit, h.recalls, h.recalls', h.locators⟩

theorem mono {made : List (Template × Template)} (h : s.Near e rules made s') (fewer : ∀ p ∈ ts, p ∈ made) :
    s.Near e rules ts s' := by
  refine ⟨h.scopes, h.fit, h.recalls.mono fun t member => ?_, h.recalls'.mono fun t member => ?_, h.locators⟩
  · obtain ⟨p, within, rfl⟩ := List.mem_map.mp member
    exact List.mem_map.mpr ⟨p, fewer p within, rfl⟩
  · obtain ⟨p, within, rfl⟩ := List.mem_map.mp member
    exact List.mem_map.mpr ⟨p, fewer p within, rfl⟩

end Render.State.Near

namespace Exec

theorem nested_ok {limit : Nat} {name : String} {x : Exec σ α} {s t : Render.State σ} {a : α}
    (ran : nested limit name x s = (.ok a, t)) :
    ¬ limit ≤ s.context.openings name ∧
      ∃ u, x { s with context := s.context.entered name } = (.ok a, u) ∧ t = leave name u := by
  by_cases full : limit ≤ s.context.openings name
  · rw [nested_of_full full] at ran
    cases ran
  · rw [nested_of_room full] at ran
    obtain ⟨result, rfl⟩ := Prod.mk.inj ran
    exact ⟨full, _, Prod.ext result rfl, rfl⟩

theorem captured_ok {x : Exec σ Unit} {s t : Render.State σ} {text : String}
    (ran : captured x s = (.ok text, t)) :
    ∃ u, x { s with sink := Sink.empty none } = (.ok (), u) ∧ text = u.sink.text ∧
      t = { u with sink := s.sink } := by
  rw [captured_apply] at ran
  rcases inside : x { s with sink := Sink.empty none } with ⟨_ | _, u⟩
  · rw [inside] at ran
    cases ran
  · rw [inside] at ran
    cases ran
    exact ⟨u, rfl, rfl, rfl⟩

theorem onStore_ok {x : Attempt (Store σ) Error α} {f : α → Exec σ β} {s t : Render.State σ} {b : β}
    (ran : (onStore x >>= f) s = (.ok b, t)) :
    ∃ a store, x s.store = (.ok a, store) ∧ f a { s with store } = (.ok b, t) := by
  rcases got : x s.store with ⟨_ | a, store⟩
  · rw [onStore_of_error got] at ran
    cases ran
  · rw [onStore_of_ok got] at ran
    exact ⟨a, store, rfl, ran⟩

/-- What is done to the stores first does not matter, and templates that have been made on the way are
forgotten in the end. -/
theorem Accord.forget {made : List (Template × Template)} {s s' t t' : Render.State σ} {a a' : α}
    {store store' : Store σ} (h : Accord e rules made { s with store } { s' with store := store' } a a' t t')
    (fewer : ∀ p ∈ ts, p ∈ made) : Accord e rules ts s s' a a' t t' :=
  ⟨h.result, h.context, h.context', h.added, h.near.mono fewer⟩

namespace Echoes

theorem pure (a : α) : Echoes e rules ts (Pure.pure a : Exec σ α) (Pure.pure a) := by
  rintro s s' near _ _ _ _ ⟨⟩ ⟨⟩
  exact ⟨rfl, rfl, rfl, ⟨"", Sink.adds_nothing _, Sink.adds_nothing _⟩, near⟩

theorem fail (halt halt' : Halt) :
    Echoes e rules ts (Attempt.fail halt : Exec σ α) (Attempt.fail halt') := by
  rintro s s' _ _ _ _ _ ⟨⟩

theorem bind {x x' : Exec σ α} {f f' : α → Exec σ β} (hx : Echoes e rules ts x x')
    (hf : ∀ a, Echoes e rules ts (f a) (f' a)) : Echoes e rules ts (x >>= f) (x' >>= f') := by
  intro s s' near b b' t t' ran ran'
  obtain ⟨a, u, first, ran⟩ := Attempt.bind_ok ran
  obtain ⟨a', u', first', ran'⟩ := Attempt.bind_ok ran'
  obtain ⟨rfl, context, context', ⟨text, added, added'⟩, between⟩ := hx s s' near first first'
  obtain ⟨result, later, later', ⟨more, further, further'⟩, after⟩ := hf _ u u' between ran ran'
  exact ⟨result, later.trans context, later'.trans context',
    ⟨text ++ more, added.trans further, added'.trans further'⟩, after⟩

theorem write (text : String) :
    Echoes e rules ts (Exec.write text : Exec σ Unit) (Exec.write text) := by
  intro s s' near _ _ t t' ran ran'
  unfold Exec.write at ran ran'
  split at ran
  · next sink written =>
    split at ran'
    · next sink' written' =>
      cases ran
      cases ran'
      exact ⟨rfl, rfl, rfl, ⟨text, Sink.adds_write written, Sink.adds_write written'⟩,
        near.with_sink sink sink'⟩
    · cases ran'
  · cases ran

theorem captured {x x' : Exec σ Unit} (hx : Echoes e rules ts x x') :
    Echoes e rules ts (Exec.captured x) (Exec.captured x') := by
  intro s s' near _ _ _ _ ran ran'
  obtain ⟨u, inside, rfl, rfl⟩ := captured_ok ran
  obtain ⟨u', inside', rfl, rfl⟩ := captured_ok ran'
  obtain ⟨_, context, context', ⟨text, added, added'⟩, after⟩ :=
    hx _ _ (near.with_sink (Sink.empty none) (Sink.empty none)) inside inside'
  exact ⟨Eq.trans added' (Eq.symm added), context, context',
    ⟨"", Sink.adds_nothing _, Sink.adds_nothing _⟩, after.with_sink s.sink s'.sink⟩

theorem withScope {v : Value} (conforms : v.Conforms rules.names) {x x' : Exec σ α}
    (hx : Echoes e rules ts x x') :
    Echoes e rules ts (Exec.withScope v [] x) (Exec.withScope v [] x') := by
  intro s s' near a a' t t' ran ran'
  rw [withScope_apply] at ran ran'
  obtain ⟨result, rfl⟩ := Prod.mk.inj ran
  obtain ⟨result', rfl⟩ := Prod.mk.inj ran'
  have pushed := near.with_context (s.context.push v []) (s'.context.push v [])
    (congrArg (v :: ·) near.scopes) (List.forall_mem_cons.mpr ⟨conforms, near.fit⟩)
  obtain ⟨same, context, context', added, after⟩ := hx _ _ pushed (Prod.ext result rfl) (Prod.ext result' rfl)
  rw [pop_push context, pop_push context']
  exact ⟨same, rfl, rfl, added, after.with_context s.context s'.context near.scopes near.fit⟩

/-- It makes no difference under which names templates are entered. -/
theorem nested {limit : Nat} {name name' : String} {x x' : Exec σ α} (hx : Echoes e rules ts x x') :
    Echoes e rules ts (Exec.nested limit name x) (Exec.nested limit name' x') := by
  intro s s' near a a' t t' ran ran'
  obtain ⟨_, u, inside, rfl⟩ := nested_ok ran
  obtain ⟨_, u', inside', rfl⟩ := nested_ok ran'
  have entered := near.with_context (s.context.entered name) (s'.context.entered name')
    near.scopes near.fit
  obtain ⟨same, context, context', added, after⟩ := hx _ _ entered inside inside'
  rw [leave_entered context, leave_entered context']
  exact ⟨same, rfl, rfl, added, after.with_context s.context s'.context near.scopes near.fit⟩

/-! ### Steps that go by what is remembered -/

theorem consumes {parts : List String} {found found' : Found σ} (same : Found.Same rules parts found found')
    {y y' : Exec σ α} (consumed : Consumes (Echoes e rules ts) found found' y y') :
    Echoes e rules ts y y' := by
  cases consumed with
  | release hx =>
    intro s s' near a a' t t' ran ran'
    rw [Attempt.ensuring_apply, same.release.1] at ran
    rw [Attempt.ensuring_apply, same.release.2] at ran'
    exact hx s s' near ran ran'
  | scope value hx =>
    rw [same.leases, same.leases']
    exact hx.withScope (same.conforms _ value)

theorem lookup (lawful : Lookup.Lawful rules e.resolvers) {parts : List String} {slot slot' : Option Slot}
    (slotted : Store.Slotted (ts.map (·.1)) parts slot)
    (slotted' : Store.Slotted (ts.map (·.2)) parts slot') {k k' : Found σ → Exec σ α}
    (consumed : ∀ found found', Found.Same rules parts found found' →
      Consumes (Echoes e rules ts) found found' (k found) (k' found')) :
    Echoes e rules ts (e.findHere parts slot >>= k) (e.findHere parts slot' >>= k') := by
  intro s s' near a a' t t' ran ran'
  have conforms' : ∀ v ∈ s'.context.values, v.Conforms rules.names := near.scopes ▸ near.fit
  have finds := Engine.find_same (.itself lawful) near.recalls near.recalls' slotted slotted' near.fit
    conforms' (by rw [near.scopes])
  rcases found : e.find s.context.values parts (Engine.filled slot s.store) s.store with ⟨r, store⟩
  rcases found' : e.find s'.context.values parts (Engine.filled slot' s'.store) s'.store with ⟨r', store'⟩
  rw [found, found'] at finds
  generalize Lookup.said rules e.resolvers s.context.values parts = said at finds
  cases finds with
  | failed _ _ =>
    rw [Engine.findHere_of_error found] at ran
    cases ran
  | found same here there =>
    rw [Engine.findHere_of_ok found] at ran
    rw [Engine.findHere_of_ok found'] at ran'
    have after : Render.State.Near e rules ts { s with store } { s' with store := store' } :=
      ⟨near.scopes, near.fit, here.recalls, there.recalls,
        there.kept.locators.trans (near.locators.trans here.kept.locators.symm)⟩
    exact (consumes same (consumed _ _ same) _ _ after ran ran').forget fun _ => id

theorem learnHint {parts : List String} {slot slot' : Option Slot}
    (slotted : Store.Slotted (ts.map (·.1)) parts slot)
    (slotted' : Store.Slotted (ts.map (·.2)) parts slot') {found found' : Found σ}
    (same : Found.Same rules parts found found') :
    Echoes e rules ts (Attempt.update (Engine.learnHint slot found.hint))
      (Attempt.update (Engine.learnHint slot' found'.hint)) := by
  rintro s s' near _ _ _ _ ⟨⟩ ⟨⟩
  obtain ⟨context, sink, _, locators, _⟩ := Engine.learnHint_unchanged slot found.hint s
  obtain ⟨context', sink', _, locators', _⟩ := Engine.learnHint_unchanged slot' found'.hint s'
  refine ⟨rfl, context, context', ⟨"", ?_, ?_⟩, ?_, ?_, ?_, ?_, ?_⟩
  · rw [sink]
    exact Sink.adds_nothing _
  · rw [sink']
    exact Sink.adds_nothing _
  · rw [context, context']
    exact near.scopes
  · rw [context]
    exact near.fit
  · exact near.recalls.learnHint slotted same.hinted
  · exact near.recalls'.learnHint slotted' same.hinted'
  · rw [locators, locators']
    exact near.locators

end Echoes

end Exec

namespace Engine

open Render (Point)
open Segment (retitleAll)

def echoing (e : Engine σ) (rules : Rules σ) (ts : List (Template × Template)) : Likeness σ where
  rel := Exec.Echoes e rules ts
  asked parts slot slot' :=
    Store.Slotted (ts.map (·.1)) parts slot ∧ Store.Slotted (ts.map (·.2)) parts slot'
  same := Found.Same rules
  fit v := v.Conforms rules.names

/-- Every step of the renderer echoes itself. -/
theorem echoing_kept (lawful : Lookup.Lawful rules e.resolvers) (ts : List (Template × Template)) :
    Pairing (e.echoing rules ts) e e where
  missing := rfl
  support := rfl
  skipEscaping := rfl
  same_value same := same.value
  same_fit same value := same.conforms _ value
  fit_item fit member := by
    cases fit with
    | list h => exact h _ member
  pure := Exec.Echoes.pure
  bind := Exec.Echoes.bind
  fail _ := .fail _ _
  endless _ := .fail _ _
  write := Exec.Echoes.write
  captured := Exec.Echoes.captured
  item fit hx := hx.withScope fit
  lookup asked consumed := Exec.Echoes.lookup lawful asked.1 asked.2 consumed
  learn asked same := Exec.Echoes.learnHint asked.1 asked.2 same

section

variable {inner inner' : Template → Exec σ Unit}
  (within : ∀ {ts t t'}, Segment.Reprints t.segments t'.segments → (t, t') ∈ ts →
    Exec.Echoes e rules ts (inner t) (inner' t'))

include within

/-- Templates of the same segments are entered, in stores in which they are remembered. -/
theorem entered_echoes {s s' : Render.State σ} (near : s.Near e rules ts s') {t t' : Template}
    {store store' : Store σ} (recalls : store.Recalls e.split rules (t :: ts.map (·.1)))
    (recalls' : store'.Recalls e.split rules (t' :: ts.map (·.2)))
    (locators : store.locators = s.store.locators) (locators' : store'.locators = s'.store.locators)
    (reprints : Segment.Reprints t.segments t'.segments) {limit : Nat} {name name' : String}
    {u u' : Render.State σ} (ran : Exec.nested limit name (inner t) { s with store } = (.ok (), u))
    (ran' : Exec.nested limit name' (inner' t') { s' with store := store' } = (.ok (), u')) :
    Exec.Accord e rules ts s s' () () u u' := by
  have made : Render.State.Near e rules ((t, t') :: ts) { s with store } { s' with store := store' } :=
    ⟨near.scopes, near.fit, recalls, recalls', locators'.trans (near.locators.trans locators.symm)⟩
  exact ((within reprints List.mem_cons_self).nested _ _ made ran ran').forget
    fun p member => List.mem_cons_of_mem _ member

theorem renderOneOff_echoes (origin origin' : Origin) (tag tag' source : String) :
    Exec.Echoes e rules ts (e.renderOneOff inner origin tag source)
      (e.renderOneOff inner' origin' tag' source) := by
  intro s s' near a a' u u' ran ran'
  obtain ⟨t, store, compiled, ran⟩ := Exec.onStore_ok ran
  obtain ⟨t', store', compiled', ran'⟩ := Exec.onStore_ok ran'
  obtain ⟨tree, recalls⟩ := recalls_compiled near.recalls compiled
  obtain ⟨tree', recalls'⟩ := recalls_compiled near.recalls' compiled'
  exact entered_echoes within near recalls recalls' (locators_compiled compiled)
    (locators_compiled compiled') (Segment.reprints_of_source tree tree') ran ran'

theorem runInclusion_echoes (name : String) (origin origin' : Origin) :
    Exec.Echoes e rules ts (e.runInclusion inner name origin) (e.runInclusion inner' name origin') := by
  intro s s' near a a' u u' ran ran'
  obtain ⟨found, store, got, ran⟩ := Exec.onStore_ok ran
  obtain ⟨found', store', got', ran'⟩ := Exec.onStore_ok ran'
  have content := content_obtained near.recalls got
  have content' := content_obtained near.recalls' got'
  rw [near.locators, content] at content'
  have recalls := recalls_obtained near.recalls got
  have recalls' := recalls_obtained near.recalls' got'
  cases found with
  | none => cases ran
  | some t =>
    cases found' with
    | none => cases ran'
    | some t' =>
      have same : t.segments = t'.segments := Option.some.inj (Except.ok.inj content')
      have reprints : Segment.Reprints t.segments t'.segments := same ▸ Segment.reprints_self _
      exact entered_echoes within near recalls recalls' (locators_obtained got) (locators_obtained got')
        reprints ran ran'

theorem runAll_echoes (lawful : Lookup.Lawful rules e.resolvers) (nameless : e.missing.Nameless) {t t' : Template}
    (member : (t, t') ∈ ts) {segments segments' : List Segment}
    (part : ∀ tag ∈ Segment.valueTagsOf segments, tag ∈ t.valueTags)
    (part' : ∀ tag ∈ Segment.valueTagsOf segments', tag ∈ t'.valueTags)
    (reprints : Segment.Reprints segments segments') :
    Exec.Echoes e rules ts (e.runAll inner t.instanceId segments)
      (e.runAll inner' t'.instanceId segments') := by
  obtain ⟨f, rfl⟩ := reprints
  have outputs : Pairing.Outputs (e.echoing rules ts) e e f inner inner' :=
    ⟨fun info => Or.inl (nameless info _), fun _ _ origin tag source =>
      renderOneOff_echoes within origin (origin.retitle f) tag tag source⟩
  refine (echoing_kept lawful ts).runAll_retitled outputs t.instanceId t'.instanceId segments
    ⟨fun tag tagged => ⟨?_, ?_⟩, fun block _ => ⟨nofun, nofun⟩, fun name _ origin =>
      runInclusion_echoes within name origin (origin.retitle f)⟩
  · exact slotted_slot? (List.mem_map.mpr ⟨_, member, rfl⟩) (part tag tagged)
  · have retitled : tag.retitle f ∈ t'.valueTags := by
      refine part' _ ?_
      rw [Segment.valueTagsOf_retitleAll]
      exact List.mem_map_of_mem tagged
    have known : t' ∈ ts.map (·.2) := List.mem_map.mpr ⟨_, member, rfl⟩
    have slotted := slotted_slot? (e := e) known retitled
    exact slotted

end

/-- Templates of one source echo one another, whatever their names, and however deep they may nest
further ones. -/
theorem nestedIn_echoes (lawful : Lookup.Lawful rules e.resolvers) (nameless : e.missing.Nameless)
    (depth depth' : Nat) {t t' : Template} (reprints : Segment.Reprints t.segments t'.segments)
    (member : (t, t') ∈ ts) :
    Exec.Echoes e rules ts (e.nestedIn depth t) (e.nestedIn depth' t') := by
  -- Each run has a depth of its own. Where either is used up, that run does not succeed.
  induction depth generalizing depth' t t' ts with
  | zero => exact fun _ _ _ _ _ _ _ ran => by cases ran
  | succ depth ih =>
    cases depth' with
    | zero => exact fun _ _ _ _ _ _ _ _ ran' => by cases ran'
    | succ depth' =>
      rw [nestedIn, nestedIn]
      exact runAll_echoes (ih depth') lawful nameless member (fun _ => id) (fun _ => id) reprints

/-! ### Points -/

inductive Writes (e : Engine σ) (rules : Rules σ) (locators : List (Nat × Locator)) (scopes : List Value)
    (source : String) : String → Prop where
  | nothing (empty : source.isEmpty = true) : Writes e rules locators scopes source ""
  | executed {ts : List Template} {p : Point σ} {name text : String} {t : Render.State σ}
      (here : e.RecallsAt rules ts p) (known : p.state.store.locators = locators)
      (sees : p.state.context.values = scopes) (tree : Tree.ofSource name source e.split = .ok p.segments)
      (ran : e.finish p = (.ok (), t)) (added : Sink.Adds text p.state.sink t.sink) :
      Writes e rules locators scopes source text

theorem finish_echoes (lawful : Lookup.Lawful rules e.resolvers) (nameless : e.missing.Nameless)
    {known known' : List Template} {p p' : Point σ} (here : e.RecallsAt rules known p)
    (here' : e.RecallsAt rules known' p') (locators : p'.state.store.locators = p.state.store.locators)
    (scopes : p'.state.context.values = p.state.context.values)
    (reprints : Segment.Reprints p.segments p'.segments) {t t' : Render.State σ}
    (ran : e.finish p = (.ok (), t)) (ran' : e.finish p' = (.ok (), t')) :
    ∃ text, Sink.Adds text p.state.sink t.sink ∧ Sink.Adds text p'.state.sink t'.sink := by
  obtain ⟨u, member, id, part⟩ := here.stands
  obtain ⟨u', member', id', part'⟩ := here'.stands
  have near : p.state.Near e rules [(u, u')] p'.state :=
    ⟨scopes, here.state.values, here.state.store.mono (List.forall_mem_singleton.mpr member),
      here'.state.store.mono (List.forall_mem_singleton.mpr member'), locators⟩
  rw [finish, id] at ran
  rw [finish, id'] at ran'
  have echoes := runAll_echoes (nestedIn_echoes lawful nameless p.depth p'.depth) lawful nameless
    (List.mem_singleton_self (u, u')) part part' reprints
  exact (echoes _ _ near ran ran').added

theorem ofSource_empty {name source : String} {split : KeySplitter} (empty : source.isEmpty = true) :
    Tree.ofSource name source split = .ok [] := by
  obtain rfl := String.isEmpty_iff.mp empty
  with_unfolding_all rfl

/-- What is written is told by the source and the scopes. -/
theorem Writes.unique (lawful : Lookup.Lawful rules e.resolvers) (nameless : e.missing.Nameless)
    {locators : List (Nat × Locator)} {scopes : List Value} {source text text' : String}
    (h : e.Writes rules locators scopes source text) (h' : e.Writes rules locators scopes source text') :
    text = text' := by
  -- A lambda that returns nothing has no template made of it. A template of nothing writes nothing.
  have silent {p : Point σ} {name text : String} {t : Render.State σ} (empty : source.isEmpty = true)
      (tree : Tree.ofSource name source e.split = .ok p.segments) (ran : e.finish p = (.ok (), t))
      (added : Sink.Adds text p.state.sink t.sink) : text = "" := by
    rw [ofSource_empty empty] at tree
    rw [finish, ← Except.ok.inj tree] at ran
    cases ran
    exact added.unique (Sink.adds_nothing _)
  cases h with
  | nothing empty =>
    cases h' with
    | nothing _ => rfl
    | executed _ _ _ tree ran added => exact (silent empty tree ran added).symm
  | executed here known sees tree ran added =>
    cases h' with
    | nothing empty => exact silent empty tree ran added
    | executed here' known' sees' tree' ran' added' =>
      obtain ⟨_, first, second⟩ := finish_echoes lawful nameless here here' (known'.trans known.symm)
        (sees'.trans sees.symm) (Segment.reprints_of_source tree tree') ran ran'
      exact (added.unique first).trans (second.unique added')

/-- In its place, the segment is to give what a template of the source gives: it includes one, or a lambda
returns the source and has it interpolated. -/
inductive StandsFor (e : Engine σ) (source : String) (p : Point σ) : Segment → Prop where
  | inclusion {name : String} {origin : Origin}
      (located : Locator.answerIn name p.state.store.locators = .ok (some source)) :
      StandsFor e source p (.inclusion name origin)
  | block {tag : SectionTag} {children : List Segment} {found : Found σ} {store : Store σ} {l : Lambda}
      {input : String} {u : Render.State σ} (straight : tag.inverted = false)
      (sees : e.Sees tag.parts none p.state found store) (value : found.value = some (.lambda l))
      (given : Given tag (e.runAll (e.nestedIn p.depth) p.instanceId children) l
        { p.state with store } input u)
      (returns : l.invoke (some input) = .ok (some source)) (interpolated : l.interpolated = true) :
      StandsFor e source p (.block tag children)
  | value {tag : ValueTag} {found : Found σ} {store : Store σ} {l : Lambda}
      (unescaped : tag.unescaped = true) (sees : e.Sees tag.parts (e.slot? p.instanceId tag) p.state found store)
      (value : found.value = some (.lambda l)) (returns : l.invoke none = .ok (some source))
      (interpolated : l.interpolated = true) : StandsFor e source p (.value tag)

section

variable (lawful : Lookup.Lawful rules e.resolvers) (nameless : e.missing.Nameless) {known : List Template}

include lawful nameless

/-- A template made of the source is entered. -/
theorem writes_nested {t : Template} {title name source : String} {depth limit : Nat}
    {s u : Render.State σ} {store : Store σ} (recalls : store.Recalls e.split rules (t :: known))
    (scopes : ∀ scope ∈ s.context.scopes, scope.value.Conforms rules.names)
    (tree : Tree.ofSource title source e.split = .ok t.segments)
    (ran : Exec.nested limit name (e.nestedIn depth t) { s with store } = (.ok (), u)) :
    ∃ text, e.Writes rules store.locators s.context.values source text ∧ Sink.Adds text s.sink u.sink := by
  obtain ⟨_, v, inside, rfl⟩ := Exec.nested_ok ran
  cases depth with
  | zero => cases inside
  | succ depth =>
    have here : e.RecallsAt rules (t :: known) (entry depth t name { s with store }) :=
      .entered recalls scopes
    obtain ⟨text, added, _⟩ := finish_echoes lawful nameless here here rfl rfl
      (Segment.reprints_self _) inside inside
    exact ⟨text, .executed here rfl rfl tree inside added, added⟩

theorem writes_oneOff {origin : Origin} {tag source : String} {depth : Nat} {s u : Render.State σ}
    (recalls : s.Recalls e.split rules known)
    (ran : e.renderOneOff (e.nestedIn depth) origin tag source s = (.ok (), u)) :
    ∃ text, e.Writes rules s.store.locators s.context.values source text ∧ Sink.Adds text s.sink u.sink := by
  obtain ⟨t, store, compiled, ran⟩ := Exec.onStore_ok ran
  obtain ⟨tree, recalls'⟩ := recalls_compiled recalls.store compiled
  rw [← locators_compiled compiled]
  exact writes_nested lawful nameless recalls' recalls.scopes tree ran

theorem writes_inclusion {name source : String} {origin : Origin} {depth : Nat} {s u : Render.State σ}
    (recalls : s.Recalls e.split rules known)
    (located : Locator.answerIn name s.store.locators = .ok (some source))
    (ran : e.runInclusion (e.nestedIn depth) name origin s = (.ok (), u)) :
    ∃ text, e.Writes rules s.store.locators s.context.values source text ∧ Sink.Adds text s.sink u.sink := by
  obtain ⟨found, store, got, ran⟩ := Exec.onStore_ok ran
  have content := content_obtained recalls.store got
  have recalls' := recalls_obtained recalls.store got
  rw [← locators_obtained got]
  cases found with
  | none => cases ran
  | some t =>
    exact writes_nested lawful nameless recalls' recalls.scopes (ofSource_of_content located content) ran

/-- The lambda returns the source in place of a section. -/
theorem writes_block {tag : SectionTag} {l : Lambda} {input source : String} {depth : Nat}
    {s u : Render.State σ} (recalls : s.Recalls e.split rules known)
    (returns : l.invoke (some input) = .ok (some source)) (interpolated : l.interpolated = true)
    (ran : e.sectionOutput (e.nestedIn depth) tag l input s = (.ok (), u)) :
    ∃ text, e.Writes rules s.store.locators s.context.values source text ∧ Sink.Adds text s.sink u.sink := by
  cases empty : source.isEmpty with
  | true =>
    simp only [sectionOutput, invoke, returns, pure_bind, empty, if_true] at ran
    cases ran
    exact ⟨"", .nothing empty, Sink.adds_nothing _⟩
  | false =>
    rw [sectionOutput_of_interpolates ⟨returns, empty, interpolated⟩] at ran
    exact writes_oneOff lawful nameless recalls ran

/-- The lambda returns the source in place of a value. -/
theorem writes_value {tag : ValueTag} (unescaped : tag.unescaped = true) {missing : Exec σ Unit} {l : Lambda}
    {source : String} {depth : Nat} {s u : Render.State σ} (recalls : s.Recalls e.split rules known)
    (returns : l.invoke none = .ok (some source)) (interpolated : l.interpolated = true)
    (ran : e.writeLambda (e.nestedIn depth) tag missing l s = (.ok (), u)) :
    ∃ text, e.Writes rules s.store.locators s.context.values source text ∧ Sink.Adds text s.sink u.sink := by
  cases empty : source.isEmpty with
  | true =>
    simp only [writeLambda, invoke, returns, pure_bind, empty, if_true] at ran
    cases ran
    exact ⟨"", .nothing empty, Sink.adds_nothing _⟩
  | false =>
    rw [writeLambda_of_interpolates ⟨returns, empty, interpolated⟩] at ran
    obtain ⟨text, v, captured, wrote⟩ := Attempt.bind_ok ran
    obtain ⟨w, inside, rfl, rfl⟩ := Exec.captured_ok captured
    obtain ⟨text, writes, added⟩ := writes_oneOff lawful nameless (s := { s with sink := Sink.empty none })
      ⟨recalls.store, recalls.scopes⟩ inside
    have same : w.sink.text = text := added
    rw [same] at wrote
    simp only [writeValue, unescaped, Bool.true_or, if_true, Exec.write] at wrote
    split at wrote
    · next sink written =>
      cases wrote
      exact ⟨text, writes, Sink.adds_write written⟩
    · cases wrote

/-- What is written in place of the segment is what a template of the source writes. -/
theorem StandsFor.writes {p : Point σ} (here : e.RecallsAt rules known p) {source : String}
    {segment : Segment} {rest : List Segment} (stands : p.segments = segment :: rest)
    (h : e.StandsFor source p segment) {t : Render.State σ}
    (ran : e.run (e.nestedIn p.depth) p.instanceId segment p.state = (.ok (), t)) :
    ∃ text, e.Writes rules p.state.store.locators p.state.context.values source text ∧
      Sink.Adds text p.state.sink t.sink := by
  have carries := e.settled_carries
  cases h with
  | inclusion located => exact writes_inclusion lawful nameless here.state located ran
  | block straight sees value given returns interpolated =>
    rw [run_of_lambda straight sees value, Attempt.ensuring_apply, runSectionLambda_of_given given] at ran
    obtain ⟨result, rfl⟩ := Prod.mk.inj ran
    obtain ⟨text, writes, added⟩ := writes_block lawful nameless (here.given lawful stands sees given) returns
      interpolated (Prod.ext result rfl)
    have settled := carries.trans (carries.sees sees) (carries.given (carries.runAll _ _ _) given)
    rw [settled.locators, given_context given] at writes
    rw [given_sink given] at added
    exact ⟨text, writes, added⟩
  | @value tag found store l unescaped sees value returns interpolated =>
    have produces : e.Produces tag (e.slot? p.instanceId tag) found { p.state with store } l _ := .found value
    have ran := (runValue_of_lambda sees value).symm.trans ran
    obtain ⟨result, rfl⟩ := Prod.mk.inj ran
    obtain ⟨text, writes, added⟩ := writes_value lawful nameless unescaped
      (here.produces lawful stands sees produces) returns interpolated (Prod.ext result rfl)
    obtain ⟨context, sink, _, locators, _⟩ :=
      learnHint_unchanged (e.slot? p.instanceId tag) found.hint { p.state with store }
    have settled := carries.sees sees
    rw [locators, context, settled.locators] at writes
    rw [sink] at added
    exact ⟨text, writes, added⟩

end

end Engine

namespace Blueprint

open Engine

/-- In the same scopes, all that stands for one source adds the same text to the sink if it succeeds:
partial tags that include a template of the source, and tags and sections whose lambda returns it to be
interpolated. It makes no difference what else has been rendered before. -/
theorem echoes_of_build {names : String → List String} {b : Blueprint σ}
    (unaccompanied : b.Unaccompanied names) (nameless : b.missing.Nameless) {host : σ} {e : Engine σ}
    {start : Store σ} (built : b.build host = .ok (e, start)) {p p' : Render.Point σ}
    (arises : e.Arises names start p) (arises' : e.Arises names start p')
    (scopes : p'.state.context.values = p.state.context.values) {segment segment' : Segment}
    {rest rest' : List Segment} (stands : p.segments = segment :: rest)
    (stands' : p'.segments = segment' :: rest') {source : String} (same : e.StandsFor source p segment)
    (same' : e.StandsFor source p' segment') {t t' : Render.State σ}
    (ran : e.run (e.nestedIn p.depth) p.instanceId segment p.state = (.ok (), t))
    (ran' : e.run (e.nestedIn p'.depth) p'.instanceId segment' p'.state = (.ok (), t')) :
    ∃ text, t.sink.text = p.state.sink.text ++ text ∧ t'.sink.text = p'.state.sink.text ++ text := by
  obtain ⟨_, rules, rfl, lawful, assembled⟩ := lawful_of_build unaccompanied built
  have nameless : e.missing.Nameless := assembled.missing ▸ nameless
  obtain ⟨known, here⟩ := arises.recallsAt lawful assembled.remembers
  obtain ⟨known', here'⟩ := arises'.recallsAt lawful assembled.remembers
  obtain ⟨text, writes, added⟩ := same.writes lawful nameless here stands ran
  obtain ⟨text', writes', added'⟩ := same'.writes lawful nameless here' stands' ran'
  rw [arises.locators] at writes
  rw [arises'.locators, scopes] at writes'
  obtain rfl := writes.unique lawful nameless writes'
  exact ⟨text, added, added'⟩

def constantly (source : String) : Lambda :=
  ⟨0, fun _ => .ok (some source), .literal, true⟩

def library : Locator :=
  .ofTable 0 [("p", .ok "\x7b\x7bx\x7d\x7d")] ["p"] "library"

def included : Template :=
  ⟨0, "included", [.inclusion "p" ⟨"included", 1, 1⟩]⟩

def returnedTag : SectionTag :=
  ⟨false, "l", ⟨"returned", 1, 1⟩, ["l"], ""⟩

def returned : Template :=
  ⟨1, "returned", [.block returnedTag []]⟩

def shelved : Session Unit :=
  ⟨{ (forgetful [library]).firstStore () with compiled := 2 }, [included, returned]⟩

theorem ofSource_included :
    Template.ofSource 0 "included" "\x7b\x7b>p\x7d\x7d" Key.dotted = .ok included := by
  with_unfolding_all rfl

theorem ofSource_returned :
    Template.ofSource 1 "returned" "\x7b\x7b#l\x7d\x7d\x7b\x7b/l\x7d\x7d" Key.dotted = .ok returned := by
  with_unfolding_all rfl

theorem performAll_shelved :
    forgetfulEngine.performAll
      [.compile "included" "\x7b\x7b>p\x7d\x7d",
        .compile "returned" "\x7b\x7b#l\x7d\x7d\x7b\x7b/l\x7d\x7d"]
      ⟨(forgetful [library]).firstStore (), []⟩ = shelved := by
  have compiled := congrArg Prod.snd (perform_compile (e := forgetfulEngine)
    (s := ⟨(forgetful [library]).firstStore (), []⟩) ofSource_included)
  simp only [performAll, List.foldl_cons, List.foldl_nil, compiled]
  exact congrArg Prod.snd (perform_compile (e := forgetfulEngine) ofSource_returned)

/-- The output of the lambda is rendered in place of the section. -/
theorem run_returned (depth : Nat) {s : Render.State Unit} {store : Store Unit} {found : Found Unit}
    (sees : forgetfulEngine.Sees ["l"] none s found store)
    (value : found.value = some (.lambda (constantly "\x7b\x7bx\x7d\x7d")))
    (room : ¬ forgetfulEngine.config.nestingLimit ≤ s.context.openings oneOffNesting) :
    ∃ title,
      let t : Template := ⟨store.compiled, title, [.value ⟨"x", ⟨title, 1, 1⟩, false, ["x"]⟩]⟩
      let store := { store with oneOffs := store.oneOffs + 1, compiled := store.compiled + 1 }
      let ends := forgetfulEngine.finish (entry depth t oneOffNesting { s with store })
      forgetfulEngine.run (forgetfulEngine.nestedIn (depth + 1)) 1 (.block returnedTag []) s =
        (ends.1, Exec.release found (Exec.leave oneOffNesting ends.2)) := by
  have tree (title : String) : Tree.ofSource title "\x7b\x7bx\x7d\x7d" Key.dotted =
      .ok [.value ⟨"x", ⟨title, 1, 1⟩, false, ["x"]⟩] := by
    with_unfolding_all rfl
  have interpolates : (constantly "\x7b\x7bx\x7d\x7d").Interpolates (some "") "\x7b\x7bx\x7d\x7d" :=
    ⟨rfl, by decide, rfl⟩
  have compiled := compileOneOff_of_ok (e := forgetfulEngine)
    (tree (oneOffName returnedTag.origin store.oneOffs)) returnedTag.text
  have given : Given returnedTag (forgetfulEngine.runAll (forgetfulEngine.nestedIn (depth + 1)) 1 [])
      (constantly "\x7b\x7bx\x7d\x7d") { s with store } "" { s with store } :=
    .literal rfl
  have enters : forgetfulEngine.EntersOutput returnedTag.origin returnedTag.text "\x7b\x7bx\x7d\x7d"
      { s with store } _ _ :=
    ⟨compiled, room⟩
  have ran := run_of_output rfl sees value given interpolates enters
  exact ⟨_, ran⟩

/-- The partial tag and the section write the same. -/
theorem echoes_of_build_forgetful :
    ∃ e start, (forgetful [library]).build () = .ok (e, start) ∧
      let data : Value :=
        .map [("x", .string "v"), ("l", .lambda (constantly "\x7b\x7bx\x7d\x7d"))]
      let p := e.startPoint included data (Sink.empty none) { start with compiled := 2 }
      let p' := e.startPoint returned data (Sink.empty none) { start with compiled := 2 }
      let t := (e.run (e.nestedIn p.depth) 0 (.inclusion "p" ⟨"included", 1, 1⟩) p.state).2
      let t' := (e.run (e.nestedIn p'.depth) 1 (.block returnedTag []) p'.state).2
      ∃ text, t.sink.text = p.state.sink.text ++ text ∧ t'.sink.text = p'.state.sink.text ++ text := by
  refine ⟨_, _, build_forgetful [library], ?_⟩
  intro data p p' t t'
  have unaccompanied : (forgetful [library]).Unaccompanied fun _ => [] := ⟨rfl, rfl, nofun⟩
  have conforms : data.Conforms fun _ => [] :=
    .map (List.forall_mem_cons.mpr ⟨.string "v", List.forall_mem_singleton.mpr (.lambda _)⟩)
  have history : forgetfulEngine.History (fun _ => []) ((forgetful [library]).firstStore ()) shelved :=
    ⟨[.compile "included" "\x7b\x7b>p\x7d\x7d",
      .compile "returned" "\x7b\x7b#l\x7d\x7d\x7b\x7b/l\x7d\x7d"],
      List.forall_mem_cons.mpr ⟨trivial, List.forall_mem_singleton.mpr trivial⟩, performAll_shelved.symm⟩
  have limit : 1 ≤ forgetfulEngine.config.nestingLimit := by decide
  have arises : forgetfulEngine.Arises (fun _ => []) ((forgetful [library]).firstStore ()) p := by
    refine ⟨⟨_, included, data, Sink.empty none, p, history, List.mem_cons_self, conforms,
      ⟨rfl, limit, .refl⟩, rfl, rfl, fun _ => id⟩, List.forall_mem_singleton.mpr conforms⟩
  have arises' : forgetfulEngine.Arises (fun _ => []) ((forgetful [library]).firstStore ()) p' := by
    refine ⟨⟨_, returned, data, Sink.empty none, p', history, List.mem_cons_of_mem _ List.mem_cons_self,
      conforms, ⟨rfl, limit, .refl⟩, rfl, rfl, fun _ => id⟩, List.forall_mem_singleton.mpr conforms⟩
  have located : Locator.answerIn "p" p.state.store.locators = .ok (some "\x7b\x7bx\x7d\x7d") := by
    cbv
  have ran : (forgetfulEngine.run (forgetfulEngine.nestedIn p.depth) 0
      (.inclusion "p" ⟨"included", 1, 1⟩) p.state).1 = .ok () := by
    cbv
  have finds : (forgetfulEngine.find p'.state.context.values ["l"] (filled none p'.state.store)
      p'.state.store).1 = .ok ⟨some (.lambda (constantly "\x7b\x7bx\x7d\x7d")), none, []⟩ := by
    cbv
  have sees : forgetfulEngine.Sees ["l"] none p'.state _ _ := Prod.ext finds rfl
  have room : ¬ forgetfulEngine.config.nestingLimit ≤ p'.state.context.openings oneOffNesting := by
    cbv
  have depth : p'.depth = 29 + 1 := by
    cbv
  have ran' : (forgetfulEngine.run (forgetfulEngine.nestedIn p'.depth) 1 (.block returnedTag [])
      p'.state).1 = .ok () := by
    obtain ⟨title, ran⟩ := run_returned 29 sees rfl room
    rw [depth, ran]
    cbv
  exact echoes_of_build unaccompanied (fun _ _ => rfl) (build_forgetful [library]) arises arises' rfl rfl rfl
    (.inclusion located) (.block rfl sees rfl (.literal rfl) rfl rfl) (Prod.ext ran rfl) (Prod.ext ran' rfl)

def brief : Value :=
  .object ⟨0, "T", [("x", some (.string "v1"))], none⟩

def extended : Value :=
  .object ⟨1, "T", [("a", some (.string "A")), ("x", some (.string "v2")),
    ("l", some (.lambda (constantly "\x7b\x7bx\x7d\x7d")))], none⟩

def remembering : Session Unit :=
  forgetfulEngine.performAll [.render 0 brief none, .render 0 extended none] shelved

/-- The hint of the first object serves for the second in the template that the partial tag includes, but
not in the one that is made of what the lambda returns. -/
theorem not_echoes_forgetful :
    ∃ e start, (forgetful [library]).build () = .ok (e, start) ∧
      e.observations
        [.compile "included" "\x7b\x7b>p\x7d\x7d",
          .compile "returned" "\x7b\x7b#l\x7d\x7d\x7b\x7b/l\x7d\x7d",
          .render 0 brief none, .render 0 extended none, .render 1 extended none] ⟨start, []⟩ =
        [.obtained (.ok true), .obtained (.ok true), .rendered (.ok ()) ["v1"],
          .rendered (.ok ()) ["A"], .rendered (.ok ()) ["v2"]] := by
  refine ⟨_, _, build_forgetful [library], ?_⟩
  let p := forgetfulEngine.startPoint returned extended (Sink.empty none) remembering.store
  have finds : (forgetfulEngine.find p.state.context.values ["l"] (filled none p.state.store)
      p.state.store).1 = .ok ⟨some (.lambda (constantly "\x7b\x7bx\x7d\x7d")), none, []⟩ := by
    cbv
  have sees : forgetfulEngine.Sees ["l"] none p.state _ _ := Prod.ext finds rfl
  have room : ¬ forgetfulEngine.config.nestingLimit ≤ p.state.context.openings oneOffNesting := by
    decide
  have depth : p.depth = 39 + 1 := by
    cbv
  have ran : (forgetfulEngine.finish p).1 = .ok () ∧ (forgetfulEngine.finish p).2.sink.writes = ["v2"] := by
    have alone : forgetfulEngine.finish p =
        forgetfulEngine.run (forgetfulEngine.nestedIn p.depth) 1 (.block returnedTag []) p.state :=
      congrFun (bind_pure _) p.state
    obtain ⟨title, ran⟩ := run_returned 39 sees rfl room
    rw [alone, depth, ran]
    constructor <;> cbv
  have last : forgetfulEngine.observations [.render 1 extended none] remembering =
      [.rendered (.ok ()) ["v2"]] := by
    have isOpen : remembering.store.isOpen = true := by
      cbv
    have held : remembering.templates[1]? = some returned := rfl
    have rendered := renderTo_finish (e := forgetfulEngine) (by decide) isOpen returned extended
      (Sink.empty none)
    simp only [observations, perform, held, rendered, ran, p]
  have before : forgetfulEngine.observations [.render 0 brief none, .render 0 extended none] shelved =
      [.rendered (.ok ()) ["v1"], .rendered (.ok ()) ["A"]] := by
    cbv
  refine (Engine.observations_compile (e := forgetfulEngine)
    (s := ⟨(forgetful [library]).firstStore (), []⟩) ofSource_included _).trans (congrArg _ ?_)
  refine (Engine.observations_compile (e := forgetfulEngine) ofSource_returned _).trans (congrArg _ ?_)
  exact (observations_append _ [.render 0 brief none, .render 0 extended none] [.render 1 extended none]
    shelved).trans (congrArg₂ _ before last)

end Blueprint

end Logicless
