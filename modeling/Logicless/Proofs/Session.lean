import Logicless.Proofs.Mirror

/-!
# Sessions

An engine in use: templates are obtained and rendered, and caches are emptied, in any order.
-/

namespace Logicless

variable {σ : Type}

/-- What is done with an engine. Templates are known by their place in the order they were obtained,
and `limit` bounds the sink of a render. -/
inductive Operation where
  | compile (name source : String)
  | get (name : String)
  | render (index : Nat) (data : Value) (limit : Option Nat)
  | forgetTemplates (matching : String → Bool)
  | forgetMembers (matching : String → Bool)
  | wait (nanos : Nat)

inductive Observation where
  | obtained (r : Except Error Bool)
  | rendered (r : Except Halt Unit) (written : List String)
  | none
deriving DecidableEq

structure Session (σ : Type) where
  store : Store σ
  templates : List Template

namespace Engine

def perform (e : Engine σ) (s : Session σ) : Operation → Observation × Session σ
  | .compile name source =>
    match e.compile name source s.store with
    | (.ok t, store) => (.obtained (.ok true), ⟨store, s.templates ++ [t]⟩)
    | (.error err, store) => (.obtained (.error err), { s with store })
  | .get name =>
    match e.getTemplate name s.store with
    | (.ok (some t), store) => (.obtained (.ok true), ⟨store, s.templates ++ [t]⟩)
    | (.ok none, store) => (.obtained (.ok false), { s with store })
    | (.error err, store) => (.obtained (.error err), { s with store })
  | .render index data limit =>
    match s.templates[index]? with
    | none => (.none, s)
    | some t =>
      let (r, sink, store) := e.renderTo t data (Sink.empty limit) s.store
      (.rendered r sink.writes, { s with store })
  | .forgetTemplates matching => (.none, { s with store := invalidateTemplates matching s.store })
  | .forgetMembers matching =>
    match e.members with
    | none => (.none, s)
    | some r => (.none, { s with store := r.invalidateMembers matching s.store })
  | .wait nanos => (.none, { s with store := s.store.wait nanos })

def observations (e : Engine σ) : List Operation → Session σ → List Observation
  | [], _ => []
  | operation :: rest, s =>
    let (observation, s) := e.perform s operation
    observation :: observations e rest s

end Engine

/-! ### Emptying caches -/

theorem Shelf.updated_invalidate {K V : Type} [DecidableEq K] (matching : K → Bool)
    (shelf : Shelf σ K V) (host : σ) (added : Entry K (Held V) → Prop) :
    shelf.Updated (shelf.invalidate matching host).1 added :=
  ⟨rfl, rfl, fun _ flight => flight, fun _ member => Or.inl (List.mem_filter.mp member).1⟩

theorem Shelf.updated_wait {K V : Type} (nanos : Nat) (shelf : Shelf σ K V)
    (added : Entry K (Held V) → Prop) : shelf.Updated (shelf.wait nanos) added :=
  ⟨rfl, rfl, fun _ flight => flight, fun _ member => Or.inl member⟩

namespace Store

variable {split : KeySplitter} {rules : Rules σ} {ts : List Template}
  {store store' : Store σ}

/-- The stores differ in nothing but caches, in which nothing is new. -/
structure Emptied (store store' : Store σ) : Prop where
  isOpen : store'.isOpen = store.isOpen
  locators : store'.locators = store.locators
  oneOffs : store'.oneOffs = store.oneOffs
  compiled : store'.compiled = store.compiled
  hints : store'.hints = store.hints
  cached : store'.templates.isSome = store.templates.isSome
  templates : ∀ shelf', store'.templates = some shelf' →
    ∃ shelf, store.templates = some shelf ∧ shelf.Updated shelf' fun _ => False
  flags : store'.members.map (·.foreign) = store.members.map (·.foreign)
  members : ∀ shelf' ∈ store'.members, ∃ shelf ∈ store.members, shelf.Updated shelf' fun _ => False

theorem Recalls.emptied (h : store.Recalls split rules ts) (emptied : store.Emptied store') :
    store'.Recalls split rules ts := by
  obtain ⟨made, faithful, known⟩ := h
  refine ⟨made, ⟨?_, faithful.distinct, ?_, ?_, ?_, ?_, ?_⟩, known⟩
  · exact emptied.compiled.trans faithful.counted
  · rw [emptied.hints]
    exact faithful.hints
  · rw [emptied.cached]
    exact faithful.cached
  · intro shelf' on
    obtain ⟨shelf, on, updated⟩ := emptied.templates shelf' on
    rw [emptied.locators]
    exact (faithful.templates shelf on).updated updated fun _ new => new.elim
  · exact emptied.flags.trans faithful.members.flags
  · intro shelf' member
    obtain ⟨shelf, member, updated⟩ := emptied.members shelf' member
    rw [updated.foreign]
    exact (faithful.members.kept shelf member).updated updated fun _ new => new.elim

theorem updated_self {K V : Type} (shelf : Shelf σ K V) : shelf.Updated shelf fun _ => False :=
  ⟨rfl, rfl, fun _ flight => flight, fun _ member => Or.inl member⟩

theorem emptied_self (store : Store σ) : store.Emptied store :=
  ⟨rfl, rfl, rfl, rfl, rfl, rfl, fun shelf on => ⟨shelf, on, updated_self shelf⟩, rfl,
    fun shelf member => ⟨shelf, member, updated_self shelf⟩⟩

theorem emptied_invalidateTemplates (matching : String → Bool) (store : Store σ) :
    store.Emptied (Engine.invalidateTemplates matching store) := by
  have members := store.emptied_self.members
  simp only [Engine.invalidateTemplates, Engine.onShelf]
  cases on : store.templates with
  | none =>
    cases store.sources with
    | none => exact store.emptied_self
    | some _ =>
      refine ⟨rfl, rfl, rfl, rfl, rfl, rfl, fun shelf' on' => ?_, rfl, members⟩
      have held : store.templates = some shelf' := on'
      rw [on] at held
      cases held
  | some shelf =>
    cases sources : store.sources with
    | none =>
      simp only [Store.putTemplates, sources]
      refine ⟨rfl, rfl, rfl, rfl, rfl, (congrArg Option.isSome on).symm, ?_, rfl, members⟩
      rintro _ ⟨⟩
      exact ⟨shelf, on, shelf.updated_invalidate matching _ _⟩
    | some _ =>
      simp only [Store.putTemplates, Store.putSources, sources]
      refine ⟨rfl, rfl, rfl, rfl, rfl, (congrArg Option.isSome on).symm, ?_, rfl, members⟩
      rintro _ ⟨⟩
      exact ⟨shelf, on, shelf.updated_invalidate matching _ _⟩

theorem emptied_invalidateMembers (r : Resolver σ) (matching : String → Bool) (store : Store σ) :
    store.Emptied (r.invalidateMembers matching store) := by
  unfold Resolver.invalidateMembers Resolver.onMembers
  split
  · next i _ =>
    cases at_i : store.members[i]? with
    | none => exact store.emptied_self
    | some shelf =>
      have removed : shelf.Updated
          (shelf.invalidate (fun k => matching k.typeName) store.host).1 fun _ => False :=
        shelf.updated_invalidate _ _ _
      refine ⟨rfl, rfl, rfl, rfl, rfl, rfl, store.emptied_self.templates,
        map_foreign_set at_i removed.foreign, fun shelf' member => ?_⟩
      rcases List.mem_or_eq_of_mem_set member with member | rfl
      · exact store.emptied_self.members shelf' member
      · exact ⟨shelf, List.mem_of_getElem? at_i, removed⟩
  · exact store.emptied_self

theorem emptied_wait (nanos : Nat) (store : Store σ) : store.Emptied (store.wait nanos) := by
  refine ⟨rfl, rfl, rfl, rfl, rfl, Option.isSome_map, fun shelf' on => ?_, ?_, fun shelf' member => ?_⟩
  · obtain ⟨shelf, held, rfl⟩ := Option.map_eq_some_iff.mp on
    exact ⟨shelf, held, shelf.updated_wait nanos _⟩
  · show (store.members.map (·.wait nanos)).map (·.foreign) = _
    rw [List.map_map]
    rfl
  · obtain ⟨shelf, held, rfl⟩ := List.mem_map.mp member
    exact ⟨shelf, held, shelf.updated_wait nanos _⟩

theorem Alike.emptied {ts : List (Template × Template)} {after after' : Store σ}
    (h : store.Alike split rules ts store') (emptied : store.Emptied after)
    (emptied' : store'.Emptied after') : after.Alike split rules ts after' := by
  refine ⟨?_, ?_, ?_, h.recalls.emptied emptied, h.recalls'.emptied emptied'⟩
  · rw [emptied'.isOpen, emptied.isOpen, h.isOpen]
  · rw [emptied'.locators, emptied.locators, h.locators]
  · rw [emptied'.oneOffs, emptied.oneOffs, h.oneOffs]

end Store

/-! ### Operations on two engines -/

/-- In the data of an operation, the members of objects are those listed for their types. -/
def Operation.Conforms (names : String → List String) : Operation → Prop
  | .render _ data _ => data.Conforms names
  | _ => True

/-- Sessions whose templates are twins in the same order. -/
def Session.Alike (split : KeySplitter) (rules : Rules σ) (s s' : Session σ) : Prop :=
  ∃ ts : List (Template × Template), s.templates = ts.map (·.1) ∧ s'.templates = ts.map (·.2) ∧
    (∀ p ∈ ts, p.1.Twins p.2) ∧ s.store.Alike split rules ts s'.store

variable {split : KeySplitter} {rules : Rules σ} {s s' : Session σ}

/-- One more template for each. -/
theorem Session.alike_append {ts : List (Template × Template)} {t t' : Template}
    {store store' : Store σ} (same : s.templates = ts.map (·.1)) (same' : s'.templates = ts.map (·.2))
    (twins : ∀ p ∈ ts, p.1.Twins p.2) (twin : t.Twins t')
    (alike : store.Alike split rules ((t, t') :: ts) store') :
    Session.Alike split rules ⟨store, s.templates ++ [t]⟩ ⟨store', s'.templates ++ [t']⟩ := by
  refine ⟨ts ++ [(t, t')], ?_, ?_, ?_, alike.mono ?_⟩
  · simp only [same, List.map_append, List.map_cons, List.map_nil]
  · simp only [same', List.map_append, List.map_cons, List.map_nil]
  · intro p member
    rcases List.mem_append.mp member with member | member
    · exact twins p member
    · obtain rfl := List.mem_singleton.mp member
      exact twin
  · intro p member
    rcases List.mem_append.mp member with member | member
    · exact List.mem_cons_of_mem _ member
    · obtain rfl := List.mem_singleton.mp member
      exact List.mem_cons_self

namespace Engine

variable {e e' : Engine σ}

theorem compile_alike (engines : e.Agree e' rules) (name source : String)
    (alike : s.Alike e.split rules s') :
    (e'.perform s' (.compile name source)).1 = (e.perform s (.compile name source)).1 ∧
      (e.perform s (.compile name source)).2.Alike e.split rules
        (e'.perform s' (.compile name source)).2 := by
  obtain ⟨ts, same, same', twins, stores⟩ := alike
  simp only [perform]
  cases tree : Tree.ofSource name source e.split with
  | error fault =>
    have tree' : Tree.ofSource name source e'.split = .error fault := by rw [engines.split, tree]
    rw [e.compile_of_fault tree, e'.compile_of_fault tree']
    exact ⟨rfl, ts, same, same', twins, stores⟩
  | ok segments =>
    have tree' : Tree.ofSource name source e'.split = .ok segments := by rw [engines.split, tree]
    rw [e.compile_of_ok tree, e'.compile_of_ok tree']
    refine ⟨rfl, Session.alike_append same same' twins ⟨rfl, rfl⟩
      ⟨stores.isOpen, stores.locators, stores.oneOffs, ?_, ?_⟩⟩
    · exact stores.recalls.compiled tree rfl rfl rfl rfl rfl
    · exact stores.recalls'.compiled tree rfl rfl rfl rfl rfl

theorem get_alike (engines : e.Agree e' rules) (name : String) (alike : s.Alike e.split rules s') :
    (e'.perform s' (.get name)).1 = (e.perform s (.get name)).1 ∧
      (e.perform s (.get name)).2.Alike e.split rules (e'.perform s' (.get name)).2 := by
  obtain ⟨ts, same, same', twins, stores⟩ := alike
  have loads := getTemplate_twins engines.split name stores
  simp only [perform]
  generalize e.getTemplate name s.store = out at loads ⊢
  generalize e'.getTemplate name s'.store = out' at loads ⊢
  cases loads with
  | failed err stores => exact ⟨rfl, ts, same, same', twins, stores⟩
  | unknown stores => exact ⟨rfl, ts, same, same', twins, stores⟩
  | known twin stores => exact ⟨rfl, Session.alike_append same same' twins twin stores⟩

theorem render_alike (engines : e.Agree e' rules) (index : Nat) {data : Value}
    (conforms : data.Conforms rules.names) (limit : Option Nat) (alike : s.Alike e.split rules s') :
    (e'.perform s' (.render index data limit)).1 = (e.perform s (.render index data limit)).1 ∧
      (e.perform s (.render index data limit)).2.Alike e.split rules
        (e'.perform s' (.render index data limit)).2 := by
  obtain ⟨ts, same, same', twins, stores⟩ := alike
  simp only [perform, same, same', List.getElem?_map]
  cases at_index : ts[index]? with
  | none => exact ⟨rfl, ts, same, same', twins, stores⟩
  | some p =>
    have member : p ∈ ts := List.mem_of_getElem? at_index
    obtain ⟨result, sink, stores⟩ :=
      renderTo_mirrors engines (twins p member) member conforms (Sink.empty limit) stores
    simp only [Option.map_some]
    refine ⟨?_, ts, rfl, rfl, twins, stores⟩
    rw [result, sink]

theorem perform_alike (engines : e.Agree e' rules) {operation : Operation}
    (conforms : operation.Conforms rules.names) (alike : s.Alike e.split rules s') :
    (e'.perform s' operation).1 = (e.perform s operation).1 ∧
      (e.perform s operation).2.Alike e.split rules (e'.perform s' operation).2 := by
  cases operation with
  | compile name source => exact compile_alike engines name source alike
  | get name => exact get_alike engines name alike
  | render index data limit => exact render_alike engines index conforms limit alike
  | forgetTemplates matching =>
    obtain ⟨ts, same, same', twins, stores⟩ := alike
    exact ⟨rfl, ts, same, same', twins, stores.emptied (Store.emptied_invalidateTemplates matching _)
      (Store.emptied_invalidateTemplates matching _)⟩
  | forgetMembers matching =>
    obtain ⟨ts, same, same', twins, stores⟩ := alike
    have forgets (e : Engine σ) (s : Session σ) :
        (e.perform s (.forgetMembers matching)).1 = .none ∧
          (e.perform s (.forgetMembers matching)).2.templates = s.templates ∧
          s.store.Emptied (e.perform s (.forgetMembers matching)).2.store := by
      simp only [perform]
      cases e.members with
      | none => exact ⟨rfl, rfl, s.store.emptied_self⟩
      | some r => exact ⟨rfl, rfl, Store.emptied_invalidateMembers r matching s.store⟩
    obtain ⟨none, templates, emptied⟩ := forgets e s
    obtain ⟨none', templates', emptied'⟩ := forgets e' s'
    exact ⟨none'.trans none.symm, ts, templates.trans same, templates'.trans same', twins,
      stores.emptied emptied emptied'⟩
  | wait nanos =>
    obtain ⟨ts, same, same', twins, stores⟩ := alike
    exact ⟨rfl, ts, same, same', twins,
      stores.emptied (Store.emptied_wait nanos _) (Store.emptied_wait nanos _)⟩

/-- Sessions that are alike look alike for ever. -/
theorem observations_agree (engines : e.Agree e' rules) {operations : List Operation}
    (conforms : ∀ operation ∈ operations, operation.Conforms rules.names)
    (alike : s.Alike e.split rules s') : e'.observations operations s' = e.observations operations s := by
  -- That the sessions are alike is the invariant. All that is seen follows from it.
  induction operations generalizing s s' with
  | nil => rfl
  | cons operation rest ih =>
    obtain ⟨same, alike⟩ :=
      perform_alike engines (conforms operation List.mem_cons_self) alike
    have later := ih (fun o member => conforms o (List.mem_cons_of_mem operation member)) alike
    simp only [observations, same, later]

theorem observations_alike {globals : List (String × Value)} {names : String → List String}
    (engines : e.Alike e' globals) (outside : ∀ entry ∈ globals, entry.2.Conforms names)
    {operations : List Operation} (conforms : ∀ operation ∈ operations, operation.Conforms names)
    (alike : s.Alike e.split names s') : e'.observations operations s' = e.observations operations s :=
  observations_agree (engines.agree outside) conforms alike

/-! ### One engine -/

theorem Agree.itself (lawful : Lookup.Lawful rules e.resolvers) : e.Agree e rules :=
  ⟨lawful, lawful, rfl, rfl, rfl, rfl, rfl, rfl⟩

/-- A session beside itself. -/
theorem perform_recalls (lawful : Lookup.Lawful rules e.resolvers) {o : Operation}
    (conforms : o.Conforms rules.names) (recalls : s.store.Recalls e.split rules s.templates) :
    (e.perform s o).2.store.Recalls e.split rules (e.perform s o).2.templates := by
  have beside : s.Alike e.split rules s :=
    ⟨Template.alone s.templates, (Template.alone_fst _).symm, (Template.alone_snd _).symm,
      fun _ => Template.twins_alone, .itself recalls⟩
  obtain ⟨_, ts, same, _, _, stores⟩ := perform_alike (.itself lawful) conforms beside
  rw [same]
  exact stores.recalls

end Engine

end Logicless
