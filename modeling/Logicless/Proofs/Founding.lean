import Logicless.Engine.Build
import Logicless.Proofs.Session

/-!
# New engines

What an engine with the built-in resolvers is, and what it remembers when it has just been built: no
more than the templates that were compiled in advance (`Blueprint.build_assembled`).
-/

namespace Logicless

variable {σ : Type}

namespace Blueprint

variable {b : Blueprint σ}

def OwnCaches (b : Blueprint σ) : Prop :=
  ∀ consumer settings host, (b.factory.allot consumer settings host).1.foreign = false

/-! ### Stages -/

inductive Staged (b : Blueprint σ) (host : σ) : Engine σ → Store σ → Prop where
  | stages {resolvers : List (Resolver σ)} {members : Option (Resolver σ)} {s t store : Store σ}
      {names : List String} (limit : 1 ≤ b.config.nestingLimit)
      (resolved : b.initResolvers (b.emptyStore host) = (.ok (resolvers, members), s))
      (allotted : b.allotCaches s = (.ok (), t))
      (precompiled : precompile ⟨b.config, resolvers, b.missing, b.support, b.split, b.factory.label,
        members⟩ names t = (.ok (), store))
      (listed : names = if b.config.precompile = true then
        t.locators.flatMap (fun p => p.2.identifiers) else []) :
      Staged b host ⟨b.config, resolvers, b.missing, b.support, b.split, b.factory.label, members⟩ store

theorem build_staged {host : σ} {e : Engine σ} {store : Store σ}
    (built : b.build host = .ok (e, store)) : Staged b host e store := by
  unfold build at built
  split at built
  · next assembled =>
    cases built
    unfold assemble at assembled
    split at assembled
    · cases assembled
    · next limit =>
      obtain ⟨_, _, resolved, rest⟩ := Attempt.bind_ok assembled
      obtain ⟨_, _, allotted, rest⟩ := Attempt.bind_ok rest
      dsimp only at rest
      have positive := Nat.one_le_iff_ne_zero.mpr limit
      split at rest
      · next listed =>
        obtain ⟨_, _, state, rest⟩ := Attempt.bind_ok rest
        cases state
        obtain ⟨_, _, precompiled, rest⟩ := Attempt.bind_ok rest
        cases rest
        exact .stages positive resolved allotted precompiled (if_pos listed).symm
      · next unlisted =>
        cases rest
        have none (e : Engine σ) (s : Store σ) : precompile e [] s = (.ok (), s) := rfl
        exact .stages positive resolved allotted (none _ _) (if_neg unlisted).symm
  · cases built

/-! ### Caches -/

theorem ofAllotment_empty {K V : Type} {consumer : String} {label : K → String}
    {allotment : Allotment σ} {shelf : Shelf σ K V}
    (allotted : Shelf.ofAllotment consumer label allotment = .ok shelf) :
    shelf.foreign = allotment.foreign ∧ shelf.consumer = consumer ∧ shelf.cache.inFlight = [] ∧
      shelf.cache.entries = [] := by
  unfold Shelf.ofAllotment at allotted
  split at allotted
  · cases allotted
    exact ⟨rfl, rfl, rfl, rfl⟩
  · cases allotted

theorem ofAllotment_keeps {K V : Type} {consumer : String} {label : K → String}
    {allotment : Allotment σ} {shelf : Shelf σ K V}
    (allotted : Shelf.ofAllotment consumer label allotment = .ok shelf) (right : K → V → Prop) :
    shelf.Keeps shelf.foreign consumer right := by
  obtain ⟨_, consumer, idle, empty⟩ := ofAllotment_empty allotted
  refine ⟨rfl, consumer, idle, ?_⟩
  rw [empty]
  intro e member
  cases member

theorem allotShelf_keeps {V : Type} {settings : CacheSettings} {store store' : Store σ}
    {shelf : Shelf σ String V} (ran : b.allotShelf settings store = (.ok shelf, store')) :
    (∃ host, store' = { store with host }) ∧ (b.OwnCaches → shelf.foreign = false) ∧
      ∀ right : String → V → Prop, shelf.Keeps shelf.foreign Engine.templatesConsumer right := by
  obtain ⟨allotted, rfl⟩ := Prod.mk.inj ran
  exact ⟨⟨_, rfl⟩, fun own => (ofAllotment_empty allotted).1.trans (own _ _ _),
    ofAllotment_keeps allotted⟩

/-- The cache of templates, if there is one, is new. -/
theorem allotCaches_keeps {store store' : Store σ} (none : store.templates = none)
    (ran : b.allotCaches store = (.ok (), store')) :
    ∃ mixed, (b.OwnCaches → mixed = false) ∧ (mixed = true → store'.templates.isSome = true) ∧
      (∀ shelf, store'.templates = some shelf →
        ∀ right, shelf.Keeps mixed Engine.templatesConsumer right) ∧
      store.Carried store' ∧ store'.compiled = store.compiled := by
  unfold allotCaches at ran
  split at ran
  · dsimp only at ran
    obtain ⟨templates, _, first, later⟩ := Attempt.bind_ok ran
    obtain ⟨⟨_, rfl⟩, own, keeps⟩ := allotShelf_keeps first
    obtain ⟨sources, _, second, update⟩ := Attempt.bind_ok later
    obtain ⟨⟨_, rfl⟩, _⟩ := allotShelf_keeps second
    cases update
    refine ⟨templates.foreign, own, fun _ => rfl, ?_, ⟨rfl, rfl, rfl, rfl, rfl, rfl⟩, rfl⟩
    rintro _ ⟨⟩
    exact keeps
  · cases ran
    refine ⟨false, fun _ => rfl, nofun, fun shelf on => ?_, ⟨rfl, rfl, rfl, rfl, rfl, rfl⟩, rfl⟩
    rw [none] at on
    cases on

/-! ### Resolvers -/

theorem init_members {priority : Int} {store store' : Store σ} {r : Resolver σ}
    (ran : (Resolver.members priority).init b.factory b.config store = (.ok r, store')) :
    r = ⟨priority, .members (some store.members.length)⟩ ∧
      ∃ (host : σ) (added : Shelf σ MemberKey (Option Nat)),
        (b.OwnCaches → added.foreign = false) ∧
        (∀ right, added.Keeps added.foreign Resolver.membersConsumer right) ∧
        store' = { store with host, members := store.members ++ [added] } := by
  simp only [Resolver.init, Resolver.members] at ran
  split at ran
  · cases ran
  · next shelved =>
    cases shelved
  · next added allotted _ =>
    cases ran
    exact ⟨rfl, _, added, fun own => (ofAllotment_empty allotted).1.trans (own _ _ _),
      ofAllotment_keeps allotted, rfl⟩

theorem initAll_customs {rs added : List (Resolver σ)} (customs : ∀ r ∈ rs, r.isBuiltIn = false)
    {store store' : Store σ} (ran : b.initAll rs store = (.ok added, store')) :
    added = rs ∧ ∃ host, store' = { store with host } := by
  induction rs generalizing added store with
  | nil =>
    cases ran
    exact ⟨rfl, _, rfl⟩
  | cons r rest ih =>
    obtain ⟨r', _, init, ran⟩ := Attempt.bind_ok ran
    obtain ⟨added, _, later, ran⟩ := Attempt.bind_ok ran
    cases ran
    have custom := customs r List.mem_cons_self
    obtain ⟨priority, kind⟩ := r
    cases kind with
    | custom c =>
      obtain ⟨result, rfl⟩ := Prod.mk.inj init
      cases ready : (c.init store.host).1 with
      | error err =>
        rw [ready] at result
        cases result
      | ok _ =>
        rw [ready] at result
        cases result
        obtain ⟨rfl, host, rfl⟩ := ih (fun r member => customs r (List.mem_cons_of_mem _ member)) later
        exact ⟨rfl, host, rfl⟩
    | _ => cases custom

theorem initResolvers_assembled (builtIn : b.builtIn = true)
    (customs : ∀ r ∈ b.resolvers, r.isBuiltIn = false) {store store' : Store σ}
    {resolvers : List (Resolver σ)} {members : Option (Resolver σ)}
    (ran : b.initResolvers store = (.ok (resolvers, members), store')) :
    (∃ shelf, resolvers =
        byPriority (·.priority) (b.resolvers ++ Lookup.builtIns shelf b.globals)) ∧
      ∃ (host : σ) (added : Shelf σ MemberKey (Option Nat)),
        (b.OwnCaches → added.foreign = false) ∧
        (∀ right, added.Keeps added.foreign Resolver.membersConsumer right) ∧
        store' = { store with host, members := store.members ++ [added] } := by
  unfold initResolvers at ran
  rw [builtIn] at ran
  obtain ⟨added, _, first, ran⟩ := Attempt.bind_ok ran
  obtain ⟨rfl, _, rfl⟩ := initAll_customs customs first
  obtain ⟨r, _, init, ran⟩ := Attempt.bind_ok ran
  cases ran
  obtain ⟨rfl, added⟩ := init_members init
  refine ⟨⟨some store.members.length, ?_⟩, added⟩
  rw [List.append_assoc]
  rfl

theorem ascending_builtIns (shelf : Option Nat) (globals : List (String × Value)) :
    (Lookup.builtIns shelf globals : List (Resolver σ)).Pairwise fun q r =>
      decide (q.priority ≤ r.priority) = true :=
  (Lookup.builtIns_ascending shelf globals).imp fun less => decide_eq_true (Int.le_of_lt less)

theorem byPriority_builtIns (shelf : Option Nat) (globals : List (String × Value)) :
    byPriority (·.priority) (Lookup.builtIns shelf globals : List (Resolver σ)) =
      Lookup.builtIns shelf globals :=
  List.mergeSort_of_pairwise (ascending_builtIns shelf globals)

/-- Resolvers of the host program do not change the order of the built-in ones. -/
theorem filter_byPriority {customs : List (Resolver σ)} (h : ∀ r ∈ customs, r.isBuiltIn = false)
    (shelf : Option Nat) (globals : List (String × Value)) :
    (byPriority (·.priority) (customs ++ Lookup.builtIns shelf globals)).filter (·.isBuiltIn) =
      Lookup.builtIns shelf globals := by
  have all : (Lookup.builtIns shelf globals : List (Resolver σ)).filter (·.isBuiltIn) =
      Lookup.builtIns shelf globals :=
    List.filter_eq_self.mpr fun r member => Lookup.isBuiltIn_of_mem member
  have none : customs.filter (·.isBuiltIn) = [] :=
    List.filter_eq_nil_iff.mpr fun r member builtIn => by
      rw [h r member] at builtIn
      cases builtIn
  have sorted : (Lookup.builtIns shelf globals).Sublist
      (byPriority (·.priority) (customs ++ Lookup.builtIns shelf globals)) :=
    List.sublist_mergeSort (by simpa using fun _ _ _ => Int.le_trans)
      (by simpa using fun _ _ => Int.le_total _ _) (ascending_builtIns shelf globals)
      (List.sublist_append_right _ _)
  have permuted := (List.mergeSort_perm (customs ++ Lookup.builtIns shelf globals)
    fun q r => decide (q.priority ≤ r.priority)).filter (·.isBuiltIn)
  rw [List.filter_append, none, all, List.nil_append] at permuted
  have kept := sorted.filter (·.isBuiltIn)
  rw [all] at kept
  exact (kept.eq_of_length permuted.length_eq.symm).symm

/-! ### Templates compiled in advance -/

theorem precompile_recalls (rules : Rules σ) {e : Engine σ} {identifiers : List String}
    {store store' : Store σ} (ran : precompile e identifiers store = (.ok (), store'))
    (recalls : store.Recalls e.split rules []) :
    store.Carried store' ∧ store'.Recalls e.split rules [] := by
  induction identifiers generalizing store with
  | nil =>
    cases ran
    exact ⟨⟨rfl, rfl, rfl, rfl, rfl, rfl⟩, recalls⟩
  | cons name rest ih =>
    obtain ⟨found, store₁, got, ran⟩ := Attempt.bind_ok ran
    have recalls₁ : store₁.Recalls e.split rules [] := (Engine.recalls_obtained recalls got).mono nofun
    have carried := e.getTemplate_carried name store
    rw [got] at carried
    obtain ⟨carried', recalls'⟩ := ih ran recalls₁
    exact ⟨carried.1.trans carried', recalls'⟩

/-! ### Building -/

structure Assembled (rules : Rules σ) (b : Blueprint σ) (host : σ) (e : Engine σ) (store : Store σ) :
    Prop where
  resolvers : ∃ shelf, e.resolvers =
    byPriority (·.priority) (b.resolvers ++ Lookup.builtIns shelf b.globals)
  config : e.config = b.config
  missing : e.missing = b.missing
  support : e.support = b.support
  split : e.split = b.split
  isOpen : store.isOpen = true
  locators : store.locators = (b.emptyStore host).locators
  recalls : store.Recalls b.split rules []

theorem Assembled.remembers {rules : Rules σ} {host : σ} {e : Engine σ} {store : Store σ}
    (assembled : Assembled rules b host e store) : store.Recalls e.split rules [] := by
  rw [assembled.split]
  exact assembled.recalls

/-- Whether its caches hold values of another type depends on the factory alone. -/
theorem build_assembled (builtIn : b.builtIn = true)
    (customs : ∀ r ∈ b.resolvers, r.isBuiltIn = false) {host : σ} {e : Engine σ} {store : Store σ}
    (built : b.build host = .ok (e, store)) :
    ∃ members templates, (b.OwnCaches → members = false ∧ templates = false) ∧
      ∀ names right answer, Assembled ⟨names, right, answer, [members], templates⟩ b host e store := by
  obtain ⟨_, resolved, allotted, precompiled⟩ := build_staged built
  obtain ⟨resolvers, _, added, own, keeps, rfl⟩ := initResolvers_assembled builtIn customs resolved
  obtain ⟨mixed, own', cached, templates, carried, counted⟩ := allotCaches_keeps rfl allotted
  refine ⟨added.foreign, mixed, fun contained => ⟨own contained, own' contained⟩,
    fun names right answer => ?_⟩
  have indexed (s : Store σ) (members : s.members = [added]) :
      s.Indexed ⟨names, right, answer, [added.foreign], mixed⟩ := by
    constructor <;> rw [members]
    · rfl
    · exact List.forall_mem_singleton.mpr (keeps _)
  obtain ⟨carried', recalls⟩ := precompile_recalls
    ⟨names, right, answer, [added.foreign], mixed⟩ precompiled <| by
      refine ⟨[], ⟨counted, nofun, ?_, cached, fun shelf on => templates shelf on _,
        indexed _ carried.members⟩, nofun⟩
      rw [carried.hints]
      intro p member
      cases member
  have carried := carried.trans carried'
  exact ⟨resolvers, rfl, rfl, rfl, rfl, carried.isOpen, carried.locators, recalls⟩

end Blueprint

/-! ### Standard caches -/

def Shelf.fresh {K V : Type} (consumer : String) (label : K → String) (settings : CacheSettings) :
    Shelf σ K V :=
  ⟨consumer, none, false, label, Cache.empty settings⟩

def Resolver.Ready (r : Resolver σ) : Prop :=
  ∃ c, r.kind = .custom c ∧ ∀ host, c.init host = (.ok (), host)

namespace Blueprint

variable {b : Blueprint σ}

def firstStore (b : Blueprint σ) (host : σ) : Store σ :=
  let settings : CacheSettings := ⟨b.config.templateCacheExpiration.map (·.nanos), none⟩
  let cached := b.config.templateCacheEnabled
  { b.emptyStore host with
    templates := if cached then some (.fresh Engine.templatesConsumer Text.quote settings) else none
    sources := if cached then some (.fresh Engine.templatesConsumer Text.quote settings) else none
    members := [.fresh Resolver.membersConsumer MemberKey.label ⟨none, b.config.memberCacheMaxSize⟩] }

/-- Nothing stands in the way of an engine with standard caches. -/
structure Buildable (b : Blueprint σ) : Prop where
  ready : ∀ r ∈ b.resolvers, r.Ready
  builtIn : b.builtIn = true
  factory : b.factory = .standard
  limit : 1 ≤ b.config.nestingLimit
  addressable : CacheSettings.isAddressable ⟨none, b.config.memberCacheMaxSize⟩ = true
  lazy : b.config.precompile = false

theorem ofAllotment_of_addressable {K V : Type} {consumer : String} {label : K → String}
    {settings : CacheSettings} (addressable : settings.isAddressable = true) :
    (Shelf.ofAllotment consumer label ⟨settings, none, false⟩ : Except Error (Shelf σ K V)) =
      .ok (.fresh consumer label settings) := if_pos addressable

theorem initAll_ready {rs : List (Resolver σ)} (ready : ∀ r ∈ rs, r.Ready) (store : Store σ) :
    b.initAll rs store = (.ok rs, store) := by
  induction rs with
  | nil => rfl
  | cons r rest ih =>
    obtain ⟨⟨c, custom, init⟩, later⟩ := List.forall_mem_cons.mp ready
    have first : r.init b.factory b.config store = (.ok r, store) := by
      simp only [Resolver.init, custom, init]
      rfl
    unfold initAll
    rw [Attempt.bind_of_ok first, Attempt.bind_of_ok (ih later)]
    rfl

theorem initResolvers_eq (buildable : b.Buildable) {store : Store σ} (fresh : store.members = []) :
    b.initResolvers store =
      (.ok (byPriority (·.priority) (b.resolvers ++ Lookup.builtIns (some 0) b.globals),
        some ⟨40, .members (some 0)⟩),
        { store with members := (b.firstStore store.host).members }) := by
  have members : (Resolver.members 40).init b.factory b.config store =
      (.ok ⟨40, .members (some 0)⟩, { store with members := (b.firstStore store.host).members }) := by
    rw [buildable.factory]
    simp only [Resolver.init, Resolver.members, CacheFactory.standard,
      ofAllotment_of_addressable buildable.addressable, fresh]
    rfl
  unfold initResolvers
  rw [Attempt.bind_of_ok (initAll_ready buildable.ready store), buildable.builtIn, if_pos rfl]
  simp only [List.append_assoc]
  rw [Attempt.bind_of_ok members]
  rfl

theorem allotShelf_eq {V : Type} (factory : b.factory = .standard) (expiration : Option Nat)
    (store : Store σ) : b.allotShelf (V := V) ⟨expiration, none⟩ store =
      (.ok (.fresh Engine.templatesConsumer Text.quote ⟨expiration, none⟩), store) := by
  have addressable : CacheSettings.isAddressable ⟨expiration, none⟩ = true := rfl
  unfold allotShelf
  rw [factory]
  simp only [CacheFactory.standard, ofAllotment_of_addressable addressable]

theorem allotCaches_eq (factory : b.factory = .standard) {store : Store σ}
    (fresh : store.templates = none ∧ store.sources = none) :
    b.allotCaches store = (.ok (), { store with
      templates := (b.firstStore store.host).templates
      sources := (b.firstStore store.host).sources }) := by
  unfold allotCaches
  cases enabled : b.config.templateCacheEnabled with
  | true =>
    dsimp only
    rw [if_pos rfl, Attempt.bind_of_ok (allotShelf_eq factory _ store),
      Attempt.bind_of_ok (allotShelf_eq factory _ store)]
    simp only [firstStore, enabled, if_true]
    rfl
  | false =>
    obtain ⟨_, _, _, _, _, _, _, _, _, _, _⟩ := store
    obtain ⟨rfl, rfl⟩ := fresh
    simp only [firstStore, enabled, Bool.false_eq_true, if_false]
    rfl

theorem build_eq (buildable : b.Buildable) (host : σ) :
    b.build host = .ok
      (⟨b.config, byPriority (·.priority) (b.resolvers ++ Lookup.builtIns (some 0) b.globals), b.missing,
        b.support, b.split, b.factory.label, some ⟨40, .members (some 0)⟩⟩, b.firstStore host) := by
  have positive : b.config.nestingLimit ≠ 0 := Nat.one_le_iff_ne_zero.mp buildable.limit
  unfold build assemble
  rw [if_neg positive, buildable.lazy, Attempt.bind_of_ok (initResolvers_eq buildable rfl)]
  dsimp only
  rw [Attempt.bind_of_ok (allotCaches_eq buildable.factory ⟨rfl, rfl⟩)]
  rfl

end Blueprint

end Logicless
