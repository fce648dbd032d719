import Logicless.Proofs.Founding

/-!
# Caches that cannot be seen

Of engines with the built-in resolvers alone, whatever they remember and for however long, all
sessions look alike (`Blueprint.observations_eq`).
-/

namespace Logicless

variable {σ : Type}

namespace Blueprint

/-- An engine of this kind has the built-in resolvers alone, and its caches are its own. -/
structure Plain (b : Blueprint σ) : Prop where
  resolvers : b.resolvers = []
  builtIn : b.builtIn = true
  factory : b.factory = .standard

/-- The caches may come from any factory, if it makes each of them for one consumer. -/
structure SelfContained (b : Blueprint σ) : Prop where
  resolvers : b.resolvers = []
  builtIn : b.builtIn = true
  own : ∀ consumer settings host, (b.factory.allot consumer settings host).1.foreign = false

/-- The blueprints may differ in what is remembered, and for how long, but in nothing else. -/
structure Alike (b b' : Blueprint σ) : Prop where
  globals : b'.globals = b.globals
  locators : b'.locators = b.locators
  missing : b'.missing = b.missing
  support : b'.support = b.support
  split : b'.split = b.split
  nestingLimit : b'.config.nestingLimit = b.config.nestingLimit
  skipEscaping : b'.config.skipEscaping = b.config.skipEscaping

variable {b : Blueprint σ} {names : String → List String}

theorem Plain.selfContained (plain : b.Plain) : b.SelfContained := by
  refine ⟨plain.resolvers, plain.builtIn, fun consumer settings host => ?_⟩
  rw [plain.factory]
  rfl

/-! ### Building -/

structure Founded (names : String → List String) (b : Blueprint σ) (host : σ) (e : Engine σ)
    (store : Store σ) : Prop where
  builtIn : ∃ shelf, e.resolvers = Lookup.builtIns shelf b.globals
  config : e.config = b.config
  missing : e.missing = b.missing
  support : e.support = b.support
  split : e.split = b.split
  isOpen : store.isOpen = true
  locators : store.locators = (b.emptyStore host).locators
  recalls : store.Recalls b.split names []

theorem build_founded (contained : b.SelfContained) {host : σ} {e : Engine σ} {store : Store σ}
    (built : b.build host = .ok (e, store)) : Founded names b host e store := by
  have customs : ∀ r ∈ b.resolvers, r.isBuiltIn = false := by
    rw [contained.resolvers]
    exact nofun
  obtain ⟨_, _, own, assembled⟩ := build_assembled contained.builtIn customs built
  obtain ⟨rfl, rfl⟩ := own contained.own
  have assembled := assembled names (Hint.Right names) fun _ _ _ => .ok none
  obtain ⟨shelf, resolvers⟩ := assembled.resolvers
  rw [contained.resolvers, List.nil_append, byPriority_builtIns] at resolvers
  exact ⟨⟨shelf, resolvers⟩, assembled.config, assembled.missing, assembled.support, assembled.split,
    assembled.isOpen, assembled.locators, assembled.recalls⟩

/-- Such an engine can be built, if there is room for its positions of members. -/
theorem build_ok (plain : b.Plain) (limit : 1 ≤ b.config.nestingLimit)
    (addressable : CacheSettings.isAddressable ⟨none, b.config.memberCacheMaxSize⟩ = true)
    (lazy : b.config.precompile = false) (host : σ) :
    ∃ e store, b.build host = .ok (e, store) := by
  have ready : ∀ r ∈ b.resolvers, r.Ready := by
    rw [plain.resolvers]
    exact nofun
  exact ⟨_, _, build_eq ⟨ready, plain.builtIn, plain.factory, limit, addressable, lazy⟩ host⟩

/-! ### Sessions -/

/-- Caches and hints cannot be seen: however they are set up, the same operations show the same.
Locators and handlers are functions, and the data has equal members for equal types. -/
theorem observations_eq (names : String → List String) {b' : Blueprint σ} (plain : b.Plain)
    (plain' : b'.Plain) (alike : b.Alike b') {host host' : σ} {e e' : Engine σ}
    {store store' : Store σ} (built : b.build host = .ok (e, store))
    (built' : b'.build host' = .ok (e', store')) (outside : ∀ entry ∈ b.globals, entry.2.Conforms names)
    {operations : List Operation}
    (conforms : ∀ operation ∈ operations, operation.Conforms names) (oneOffs : Nat) :
    e'.observations operations ⟨{ store' with oneOffs }, []⟩ =
      e.observations operations ⟨{ store with oneOffs }, []⟩ := by
  have founded : Founded names b host e store := build_founded plain.selfContained built
  have founded' : Founded names b' host' e' store' := build_founded plain'.selfContained built'
  have engines : e.Alike e' b.globals := by
    refine ⟨founded.builtIn, alike.globals ▸ founded'.builtIn, ?_, ?_, ?_, ?_, ?_⟩
    · rw [founded'.missing, founded.missing, alike.missing]
    · rw [founded'.support, founded.support, alike.support]
    · rw [founded'.split, founded.split, alike.split]
    · rw [founded'.config, founded.config, alike.nestingLimit]
    · rw [founded'.config, founded.config, alike.skipEscaping]
  have locators : store'.locators = store.locators := by
    rw [founded'.locators, founded.locators]
    simp only [emptyStore, alike.locators]
  have recalls' : store'.Recalls e.split names [] := by
    rw [founded.split, ← alike.split]
    exact founded'.recalls
  have recalls : store.Recalls e.split names [] := by
    rw [founded.split]
    exact founded.recalls
  -- No templates have been obtained yet, so there are no twins to be known to both stores.
  apply Engine.observations_alike engines outside conforms
  refine ⟨[], rfl, rfl, (fun p member => by cases member), ⟨?_, locators, rfl, ?_, ?_⟩⟩
  · exact founded'.isOpen.trans founded.isOpen.symm
  · exact recalls.of_eq rfl rfl rfl rfl rfl
  · exact recalls'.of_eq rfl rfl rfl rfl rfl

theorem observations_eq_noCaching :
    ∃ (e e' : Engine Unit) (store store' : Store Unit),
      Blueprint.standard.build () = .ok (e, store) ∧
        { Blueprint.standard with config := .noCaching }.build () = .ok (e', store') ∧
        let operations : List Operation :=
          [.compile "rows" "\x7b\x7b#rows\x7d\x7d\x7b\x7bname\x7d\x7d\x7b\x7b/rows\x7d\x7d",
            .render 0 (.map [("rows", .list
              [.object ⟨0, "Row", [("name", some (.string "a"))], none⟩,
                .map [("name", .string "b")]])]) none,
            .forgetMembers fun _ => true,
            .render 0 (.map [("name", .string "c"), ("rows", .bool true)]) none]
        e'.observations operations ⟨{ store' with oneOffs := 0 }, []⟩ =
          e.observations operations ⟨{ store with oneOffs := 0 }, []⟩ := by
  have plain : (Blueprint.standard : Blueprint Unit).Plain := ⟨rfl, rfl, rfl⟩
  have plain' : ({ Blueprint.standard with config := .noCaching } : Blueprint Unit).Plain :=
    ⟨rfl, rfl, rfl⟩
  obtain ⟨e, store, built⟩ := build_ok plain (by decide) (by decide +kernel) rfl ()
  obtain ⟨e', store', built'⟩ := build_ok plain' (by decide) (by decide +kernel) rfl ()
  have item : Value.Conforms (fun _ => ["name"])
      (.object ⟨0, "Row", [("name", some (.string "a"))], none⟩) := by
    refine .object rfl fun member within v value => ?_
    obtain rfl := List.mem_singleton.mp within
    cases value
    exact .string "a"
  refine ⟨e, e', store, store', built, built', ?_⟩
  apply observations_eq (fun _ => ["name"]) plain plain' ⟨rfl, rfl, rfl, rfl, rfl, rfl, rfl⟩ built built'
    (fun entry within => by cases within)
  simp only [List.forall_mem_cons, Operation.Conforms]
  refine ⟨trivial, .map ?_, trivial, .map ?_, fun operation within => by cases within⟩
  · intro entry within
    obtain rfl := List.mem_singleton.mp within
    refine .list (List.forall_mem_cons.mpr ⟨item, List.forall_mem_singleton.mpr (.map ?_)⟩)
    exact List.forall_mem_singleton.mpr (.string "b")
  · exact List.forall_mem_cons.mpr ⟨.string "c", List.forall_mem_singleton.mpr (.bool true)⟩

end Blueprint

end Logicless
