import Logicless.Proofs.Chain
import Logicless.Proofs.Filing

/-!
# Slots

The slot of a value tag is written once, by the first of its lookups that a resolver wins with a value
other than null and a hint for it (`Engine.renderTo_hint_iff`). This holds in any session with any
engine (`Blueprint.slots_of_build`).
-/

namespace Logicless

variable {σ : Type}

namespace Engine

open Render (Point)

variable (e : Engine σ)

theorem hint_carries (slot : Slot) (h : Hint σ) :
    e.Carries fun s t => s.hint? slot = some h → t.hint? slot = some h where
  trans first second held := second (first held)
  looked same held := by rwa [Store.hint?_of_eq same.hints]
  learned place hint s empty held := by
    rw [Store.hint?_learned]
    split
    · next same =>
      subst same
      rw [empty] at held
      cases held
    · exact held
  got name s held := by rwa [Store.hint?_of_eq (e.getTemplate_carried name s).1.hints]
  compiled origin tag source s held := by
    rwa [Store.hint?_of_eq (e.compileOneOff_carried origin tag source s).1.hints]

/-- At the point a value tag is executed whose slot is empty, and its lookup is won with a value other
than null, for which the winner gives the hint. -/
inductive Offers (slot : Slot) (h : Hint σ) (p : Point σ) : Prop where
  | offers {tag : ValueTag} {rest : List Segment} {name : String} {scope : Option Value}
      {r : Resolver σ} {v : Value} {s t : Lookup.State σ} (stands : p.segments = .value tag :: rest)
      (place : e.slot? p.instanceId tag = some slot) (single : tag.parts = [name])
      (vacant : p.state.store.hint? slot = none)
      (won : Lookup.WonIn e.resolvers name p.state.context.values ⟨p.state.store, []⟩ scope r v s)
      (present : v.isNull = false) (gives : r.hint scope name s = (.ok (some h), t))

variable {e} {slot : Slot} {h : Hint σ}

theorem offers_of_sees {p : Point σ} {tag : ValueTag} {rest : List Segment} {found : Found σ}
    {store : Store σ} (stands : p.segments = .value tag :: rest)
    (place : e.slot? p.instanceId tag = some slot) (vacant : p.state.store.hint? slot = none)
    (sees : e.Sees tag.parts (some slot) p.state found store) (present : found.isNull = false)
    (hint : found.hint = some h) : e.Offers slot h p := by
  obtain ⟨enabled, ⟨name, single⟩, _⟩ := slot?_some place
  rw [Sees, find_ok_iff enabled, single, filled, Option.map_some, vacant] at sees
  obtain ⟨value, hint', leases⟩ := found
  obtain rfl : hint' = some h := hint
  cases value with
  | none => cases present
  | some v =>
    obtain ⟨scope, r, u, won, gives⟩ := Lookup.key_of_vacant.mp sees
    exact .offers stands place single vacant won present gives

theorem Offers.sees {p : Point σ} (offers : e.Offers slot h p) :
    ∃ tag rest found store, p.segments = .value tag :: rest ∧ e.slot? p.instanceId tag = some slot ∧
      p.state.store.hint? slot = none ∧ e.Sees tag.parts (some slot) p.state found store ∧
      found.isNull = false ∧ found.hint = some h := by
  obtain @⟨tag, rest, name, scope, r, v, s, t, stands, place, single, vacant, won, present, gives⟩ := offers
  obtain ⟨enabled, _, _⟩ := slot?_some place
  refine ⟨tag, rest, ⟨some v, some h, t.leases⟩, t.store, stands, place, vacant, ?_, present, rfl⟩
  rw [Sees, find_ok_iff enabled, single, filled, Option.map_some, vacant]
  exact Lookup.key_of_vacant.mpr ⟨scope, r, s, won, gives⟩

theorem learnHint_vacant {s : Render.State σ} (vacant : s.store.hint? slot = none) :
    (learnHint (some slot) (some h) s).store.hint? slot = some h := by
  simp only [learnHint, Store.learn, vacant]
  rw [Store.hint?_learned, if_pos rfl]

/-- Such a lookup writes the slot, whatever becomes of the value. -/
theorem Offers.written {p : Point σ} (offers : e.Offers slot h p) :
    (e.finish p).2.store.hint? slot = some h ∧
      ∀ q, e.Step true p q → q.state.store.hint? slot = some h := by
  obtain ⟨tag, rest, found, store, stands, place, vacant, sees, present, hint⟩ := offers.sees
  have c := e.hint_carries slot h
  obtain ⟨depth, id, _, s⟩ := p
  subst stands
  have looked := e.find_undisturbed s.context.values tag.parts (filled (some slot) s.store) s.store
  rw [sees] at looked
  have learned : (learnHint (some slot) found.hint { s with store }).store.hint? slot = some h := by
    rw [hint]
    exact learnHint_vacant (by rw [Store.hint?_of_eq looked.hints]; exact vacant)
  have ran : (e.run (e.nestedIn depth) id (.value tag) s).2.store.hint? slot = some h := by
    rw [Engine.run]
    unfold runValue
    simp only [place]
    rw [findHere_of_ok sees, Attempt.ensuring_apply]
    refine c.silent (silent_release found _) ?_
    obtain ⟨_ | v, _, _⟩ := found
    · cases present
    · have present : v.isNull = false := present
      simp only [present, Bool.false_eq_true, if_false]
      have outputs := (c.nests (c.nestedIn depth)).outputs
      exact c.kept.writeFound outputs tag v (fun _ _ => .found trivial)
        (fun _ _ _ => c.kept.writeMissing outputs tag) _ learned
  refine ⟨?_, fun q step => ?_⟩
  · exact c.bind_after (fun _ => c.runAll depth id rest) s ran
  · cases step with
    | next ran' =>
      rw [ran'] at ran
      exact ran
    | value sees' produces interpolates enters =>
      rw [place] at sees' produces
      cases Prod.mk.inj (sees.symm.trans sees') with
      | intro same same' =>
        cases Except.ok.inj same
        cases same'
        refine c.entersOutput enters ?_
        cases produces with
        | found _ => exact learned
        | missing null _ =>
          rw [present] at null
          cases null
        | silent _ _ _ => exact learned

/-- Unless a lookup offers a hint on the way, an empty slot stays empty. -/
theorem finish_vacant {p : Point σ} (vacant : p.state.store.hint? slot = none)
    (none : ∀ q h, e.Reaches true p q → ¬ e.Offers slot h q) :
    (e.finish p).2.store.hint? slot = Option.none := by
  have endures : e.Endures fun s => s.hint? slot = Option.none :=
    ⟨fun same empty => by rwa [Store.hint?_of_eq same.hints], fun origin tag source s empty => by
      rwa [Store.hint?_of_eq (e.compileOneOff_carried origin tag source s).1.hints]⟩
  refine endures.finish (fun q tag rest found store reaches stands sees present empty empty' => ?_)
    (fun q name origin rest _ _ empty => ?_) vacant
  · rcases learnHint_cases (e.slot? q.instanceId tag) found.hint { q.state with store } with
      same | ⟨place, h, at_place, given, _, learned⟩
    · rw [same]
      exact empty'
    · rw [learned, Store.hint?_learned]
      split
      · next same =>
        subst same
        rw [at_place] at sees
        exact absurd (offers_of_sees stands at_place empty sees present given) (none q h reaches)
      · exact empty'
  · rwa [Store.hint?_of_eq (e.getTemplate_carried name _).1.hints]

/-- An empty slot is written in the course of an execution exactly if one of its lookups offers a hint. -/
theorem finish_hint_iff {p : Point σ} (vacant : p.state.store.hint? slot = none) :
    (e.finish p).2.store.hint? slot = some h ↔ ∃ q, e.Reaches true p q ∧ e.Offers slot h q := by
  constructor
  · intro written
    by_contra none
    -- Some hint has been offered, or the slot were still empty. Since it stays, it is the one in the end.
    have offered : ∃ q h', e.Reaches true p q ∧ e.Offers slot h' q := by
      by_contra none
      have unoffered : ∀ q h', e.Reaches true p q → ¬ e.Offers slot h' q :=
        fun q h' reaches offers => none ⟨q, h', reaches, offers⟩
      rw [finish_vacant vacant unoffered] at written
      cases written
    obtain ⟨q, h', reaches, offers⟩ := offered
    have written' := (e.hint_carries slot h').reaches_after reaches offers.written.1
    rw [written] at written'
    cases written'
    exact none ⟨q, reaches, offers⟩
  · rintro ⟨q, reaches, offers⟩
    exact (e.hint_carries slot h).reaches_after reaches offers.written.1

structure Reached (e : Engine σ) (t : Template) (data : Value) (sink : Sink) (store : Store σ)
    (p : Point σ) : Prop where
  isOpen : store.isOpen = true
  positive : 1 ≤ e.config.nestingLimit
  reaches : e.Reaches true (e.startPoint t data sink store) p

variable {t : Template} {data : Value} {sink : Sink} {store : Store σ}

theorem renderTo_hint_iff (vacant : store.hint? slot = none) :
    (e.renderTo t data sink store).2.2.hint? slot = some h ↔
      ∃ p, e.Reached t data sink store p ∧ e.Offers slot h p := by
  have closed (context : Context σ) (store : Store σ) :
      (context.close store).hint? slot = store.hint? slot :=
    Store.hint?_of_eq (Store.undisturbed_close context store).hints slot
  by_cases isOpen : store.isOpen = true
  · by_cases positive : 1 ≤ e.config.nestingLimit
    · rw [e.renderTo_finish positive isOpen]
      simp only [closed]
      rw [finish_hint_iff vacant]
      exact ⟨fun ⟨q, reaches, offers⟩ => ⟨q, ⟨isOpen, positive, reaches⟩, offers⟩,
        fun ⟨q, reached, offers⟩ => ⟨q, reached.reaches, offers⟩⟩
    · rw [e.renderTo_refused positive isOpen]
      simp only [closed, vacant]
      exact ⟨nofun, fun ⟨_, reached, _⟩ => absurd reached.positive positive⟩
  · simp only [renderTo, isOpen, if_false, Bool.false_eq_true, vacant]
    exact ⟨nofun, fun ⟨_, reached, _⟩ => absurd reached.isOpen isOpen⟩

/-- What a hint yields that is held is found without asking resolvers: it is found whatever resolvers
there are. -/
theorem sees_of_hint {tag : ValueTag} {id : Nat} {name : String} {s : Render.State σ} {v : Value}
    {after : Lookup.State σ} (place : e.slot? id tag = some slot) (single : tag.parts = [name])
    (held : s.store.hint? slot = some h) (applicable : h.isApplicable = true)
    (yields : h.resolve s.context.values.head? name ⟨s.store, []⟩ = (.ok (some v), after))
    (resolvers : List (Resolver σ)) :
    ({ e with resolvers } : Engine σ).Sees tag.parts (some slot) s ⟨some v, some h, after.leases⟩
      after.store := by
  have enabled : e.config.hintsEnabled = true := (slot?_some place).1
  refine (find_ok_iff (e := { e with resolvers }) enabled).mpr ?_
  rw [single, filled, Option.map_some, held]
  exact Lookup.key_of_hinted applicable yields

/-! ### Sessions -/

def MayBeHinted (e : Engine σ) (tag : ValueTag) : Prop :=
  e.config.hintsEnabled = true ∧ tag.parts.length = 1

theorem slot?_none {id : Nat} {tag : ValueTag} (never : ¬ e.MayBeHinted tag) : e.slot? id tag = none := by
  unfold slot?
  rw [if_neg]
  simpa [MayBeHinted] using never

/-- Slots are for single names, and written once. -/
structure WritesOnce (e : Engine σ) (s : Session σ) : Prop where
  /-- A value tag that may not be hinted has no hint. -/
  unhinted : ∀ {t tag}, t ∈ s.templates → tag ∈ t.valueTags → ¬ e.MayBeHinted tag →
    s.store.hint? ⟨t.instanceId, tag.origin.index⟩ = none
  /-- Neither has one that is executed in the course of a render, in whatever template. -/
  unhintedAt : ∀ {t data sink p tag rest}, t ∈ s.templates → e.Reached t data sink s.store p →
    p.segments = .value tag :: rest → ¬ e.MayBeHinted tag →
    p.state.store.hint? ⟨p.instanceId, tag.origin.index⟩ = none ∧
      (e.finish p).2.store.hint? ⟨p.instanceId, tag.origin.index⟩ = none
  /-- A hint stays, whatever is done afterwards. -/
  kept : ∀ {slot h}, s.store.hint? slot = some h →
    ∀ operations, (e.performAll operations s).store.hint? slot = some h
  /-- In the course of a render, it stays from one point to the next, and to the end. -/
  keptAt : ∀ {t data sink p slot h}, e.Reached t data sink s.store p →
    (s.store.hint? slot = some h → p.state.store.hint? slot = some h) ∧
      (p.state.store.hint? slot = some h → (∀ q, e.Reaches true p q → q.state.store.hint? slot = some h) ∧
        (e.finish p).2.store.hint? slot = some h ∧
        (e.renderTo t data sink s.store).2.2.hint? slot = some h)
  /-- An empty slot is written by an operation if that is a render in whose course a hint is offered
  for it, and only then. -/
  written : ∀ {slot}, s.store.hint? slot = none → ∀ operation h,
    (e.perform s operation).2.store.hint? slot = some h ↔
      ∃ index data limit t p, operation = .render index data limit ∧ s.templates[index]? = some t ∧
        e.Reached t data (Sink.empty limit) s.store p ∧ e.Offers slot h p
  /-- It is written at once, whether the execution fails or not. -/
  writtenAt : ∀ {t data sink p slot h}, e.Reached t data sink s.store p → e.Offers slot h p →
    (e.finish p).2.store.hint? slot = some h ∧ ∀ q, e.Step true p q → q.state.store.hint? slot = some h
  /-- As long as an applicable hint yields a value, the resolvers are of no account. -/
  unasked : ∀ {t data sink p tag rest slot h name v after}, e.Reached t data sink s.store p →
    p.segments = .value tag :: rest → e.slot? p.instanceId tag = some slot →
    p.state.store.hint? slot = some h → h.isApplicable = true → tag.parts = [name] →
    h.resolve p.state.context.values.head? name ⟨p.state.store, []⟩ = (.ok (some v), after) →
    ∀ resolvers, ({ e with resolvers } : Engine σ).Sees tag.parts (some slot) p.state
      ⟨some v, some h, after.leases⟩ after.store

variable {s : Session σ}

/-- Only renders change what hints there are. -/
theorem perform_hints {operation : Operation}
    (idle : ∀ index data limit, operation ≠ .render index data limit) :
    (e.perform s operation).2.store.hints = s.store.hints := by
  cases operation with
  | compile name source =>
    simp only [perform]
    cases tree : Tree.ofSource name source e.split with
    | ok segments => rw [e.compile_of_ok tree]
    | error fault => rw [e.compile_of_fault tree]
  | get name =>
    have got := (e.getTemplate_carried name s.store).1.hints
    simp only [perform]
    generalize e.getTemplate name s.store = out at got ⊢
    obtain ⟨_ | _ | _, _⟩ := out <;> exact got
  | render index data limit => exact absurd rfl (idle index data limit)
  | forgetTemplates matching => exact (Store.emptied_invalidateTemplates matching s.store).hints
  | forgetMembers matching =>
    simp only [perform]
    split
    · rfl
    · exact (Store.emptied_invalidateMembers _ matching s.store).hints
  | wait nanos => rfl

theorem perform_hint_iff (vacant : s.store.hint? slot = none) (operation : Operation) :
    (e.perform s operation).2.store.hint? slot = some h ↔
      ∃ index data limit t p, operation = .render index data limit ∧ s.templates[index]? = some t ∧
        e.Reached t data (Sink.empty limit) s.store p ∧ e.Offers slot h p := by
  by_cases render : ∃ index data limit, operation = .render index data limit
  · obtain ⟨index, data, limit, rfl⟩ := render
    cases at_index : s.templates[index]? with
    | none =>
      simp only [perform, at_index, vacant]
      constructor
      · intro held
        cases held
      · rintro ⟨_, _, _, _, _, ⟨⟩, known, _⟩
        rw [at_index] at known
        cases known
    | some t =>
      simp only [perform, at_index]
      rw [renderTo_hint_iff vacant]
      constructor
      · rintro ⟨p, reached, offers⟩
        exact ⟨index, data, limit, t, p, rfl, at_index, reached, offers⟩
      · rintro ⟨_, _, _, t', p, ⟨⟩, known, reached, offers⟩
        rw [at_index] at known
        cases known
        exact ⟨p, reached, offers⟩
  · have idle : ∀ index data limit, operation ≠ .render index data limit :=
      fun index data limit same => render ⟨index, data, limit, same⟩
    rw [Store.hint?_of_eq (perform_hints idle), vacant]
    constructor
    · intro held
      cases held
    · rintro ⟨index, data, limit, _, _, same, _⟩
      exact absurd same (idle index data limit)

theorem performAll_hint_kept (held : s.store.hint? slot = some h) (operations : List Operation) :
    (e.performAll operations s).store.hint? slot = some h :=
  (e.hint_carries slot h).performAll (fun _ held => held)
    (fun emptied held => by rwa [Store.hint?_of_eq emptied.hints]) s operations held

/-- At a point of a render, a value tag that may not be hinted has no hint, and it gets none. -/
theorem FiledAt.unhinted {p : Point σ} {made : List (List Segment)} {tag : ValueTag} {rest : List Segment}
    (there : e.FiledAt p t made) (stands : p.segments = .value tag :: rest) (never : ¬ e.MayBeHinted tag) :
    p.state.store.hint? ⟨p.instanceId, tag.origin.index⟩ = none ∧
      (e.finish p).2.store.hint? ⟨p.instanceId, tag.origin.index⟩ = none := by
  obtain ⟨depth, id, segments, state⟩ := p
  obtain ⟨filed, known, same, part⟩ := there
  obtain rfl : id = t.instanceId := same
  obtain ⟨more, finished⟩ := runAll_files depth part state made filed known
  have member : tag ∈ t.valueTags := part tag <| by
    rw [stands]
    exact List.mem_append_left _ (List.mem_singleton_self tag)
  exact ⟨filed.unhinted known member (slot?_none never),
    finished.unhinted (known.append more) member (slot?_none never)⟩

theorem writesOnce_of_filed (filed : s.Filed e) : e.WritesOnce s where
  unhinted member within never := by
    obtain ⟨made, filed, known⟩ := filed
    exact filed.unhinted (known _ member) within (slot?_none never)
  unhintedAt {t data sink p tag rest} member reached stands never := by
    obtain ⟨made, filed, known⟩ := filed
    have start := startPoint_filedAt filed (known t member) data sink
    obtain ⟨_, _, there⟩ := start.reaches reached.reaches
    exact there.unhinted stands never
  kept held operations := performAll_hint_kept held operations
  keptAt {t data sink p slot h} reached := by
    have c := e.hint_carries slot h
    have between := c.renderTo_between reached.positive reached.isOpen reached.reaches
    refine ⟨between.1, fun held => ⟨fun q reaches => c.reaches_before reaches held, ?_⟩⟩
    have finished : (e.finish p).2.store.hint? slot = some h :=
      c.runAll p.depth p.instanceId p.segments p.state held
    exact ⟨finished, between.2 finished⟩
  written vacant operation h := perform_hint_iff vacant operation
  writtenAt _ offers := offers.written
  unasked _ _ place held applicable single yields resolvers :=
    sees_of_hint place single held applicable yields resolvers

end Engine

namespace Blueprint

/-- Whatever is done with an engine, and whatever its resolvers do: a value tag whose key is not a
single name has no hint, and no tag has one if hints are disabled. A slot is written by the first lookup
that a resolver wins with a value other than null and a hint, even if the execution fails then, and it
is never written again. As long as its hint yields values, no resolver is asked. -/
theorem slots_of_build {b : Blueprint σ} {host : σ} {e : Engine σ} {start : Store σ}
    (built : b.build host = .ok (e, start)) (operations : List Operation) :
    e.WritesOnce (e.performAll operations ⟨start, []⟩) :=
  Engine.writesOnce_of_filed (Engine.performAll_filed (build_filed built) operations)

/-- Two renders with different data, where a name is single in one tag and dotted in another. -/
theorem slots_of_build_standard :
    ∃ e start, (standard : Blueprint Unit).build () = .ok (e, start) ∧
      e.WritesOnce (e.performAll
        [.compile "t" "\x7b\x7bx\x7d\x7d \x7b\x7bx.y\x7d\x7d",
          .render 0 (.map [("x", .string "a")]) none, .render 0 .null (some 0)] ⟨start, []⟩) := by
  have plain : (standard : Blueprint Unit).Plain := ⟨rfl, rfl, rfl⟩
  obtain ⟨e, start, built⟩ := build_ok plain (by decide) (by decide +kernel) rfl ()
  exact ⟨e, start, built, slots_of_build built _⟩

end Blueprint

end Logicless
