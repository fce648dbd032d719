import Logicless.Proofs.Accounting
import Logicless.Proofs.Memory
import Mathlib.Data.Finset.Card

/-!
# How many templates are cached

The size of the template cache is the number of names it holds an answer for. The answer may be that
no locator knows the name, and it counts as a template does (`Blueprint.templateCacheSize_of_build`).
-/

namespace Logicless

variable {σ : Type}

/-! ### Sound caches -/

namespace Cache

variable {K V : Type} [DecidableEq K] {c : Cache K V}

theorem Sound.computing (sound : c.Sound) (key : K) : (computing key c).Sound :=
  have looked := (lookup_accounts sound key).sound
  ⟨looked.distinct, looked.bounded⟩

/-- A key that is missed is absent when its value is stored. -/
theorem Sound.stored (sound : c.Sound) {key : K} (missed : (c.lookup key).1 = none) (v : V) :
    (((Cache.computing key c).store key v).2.settle key).Sound :=
  have absent : key ∉ (Cache.computing key c).keys := not_mem_keys (lookup_missed missed)
  have stored := (store_accounts (sound.computing key) absent v).sound
  ⟨stored.distinct, stored.bounded⟩

end Cache

theorem Shelf.fetch_sound {K V : Type} [DecidableEq K] [WellFoundedRelation K] {shelf : Shelf σ K V}
    (sound : shelf.cache.Sound) (put : Shelf σ K V → Store σ → Store σ)
    (load : K → Attempt (Store σ) Error V) (key : K) (store : Store σ) :
    ∃ r shelf' store', Store.fetch shelf put load key store = (r, put shelf' store') ∧
      shelf'.cache.Sound := by
  have looked := (Cache.lookup_accounts sound key).sound
  cases seen : (shelf.cache.lookup key).1 with
  | some held => exact ⟨_, _, _, fetch_of_hit put load store seen, looked⟩
  | none =>
    by_cases flight : key ∈ shelf.cache.inFlight
    · exact ⟨_, _, _, fetch_of_inFlight put load store seen flight, looked⟩
    · cases mixed : shelf.foreign with
      | true => exact ⟨_, _, _, fetch_of_foreign put load store seen flight mixed, sound.stored seen _⟩
      | false =>
        rcases ran : load key { store with host := shelf.told (shelf.cache.lookup key).2.1 store.host } with
          ⟨err | v, store'⟩
        · have computing := sound.computing key
          exact ⟨_, _, _, fetch_of_failed put seen flight mixed ran,
            computing.distinct, computing.bounded⟩
        · exact ⟨_, _, _, fetch_of_loaded put seen flight mixed ran, sound.stored seen _⟩

/-! ### Stores with a sound cache of templates -/

namespace Store

def Sound (store : Store σ) : Prop :=
  ∀ shelf, store.templates = some shelf → shelf.cache.Sound

/-- The names the template cache holds an answer for. -/
def names (store : Store σ) : Finset String :=
  (store.templates.map (·.cache.keys)).getD [] |>.toFinset

def compiledNames (store : Store σ) : Finset String :=
  store.names.filter fun name => (store.template? name).join.isSome = true

def unknownNames (store : Store σ) : Finset String :=
  store.names.filter fun name => ¬ (store.template? name).join.isSome = true

theorem Sound.of_eq {s t : Store σ} (sound : s.Sound) (templates : t.templates = s.templates) :
    t.Sound :=
  fun shelf on => sound shelf (templates ▸ on)

theorem Sound.invalidate {s : Store σ} (sound : s.Sound) (matching : String → Bool) :
    (Engine.invalidateTemplates matching s).Sound := by
  have kept (shelf : Shelf σ String (Option Template)) (host : σ) (before : shelf.cache.Sound) :
      (shelf.invalidate matching host).1.cache.Sound := by
    have accounts : shelf.cache.Accounts (.invalidate matching)
        (shelf.cache.removeWhere (fun e => matching e.key) .explicit).1
        (shelf.cache.removeWhere (fun e => matching e.key) .explicit).2 :=
      Cache.removeWhere_accounts shelf.cache before rfl rfl
        fun e member dropped => ⟨List.mem_map_of_mem member, dropped⟩
    exact accounts.sound
  intro shelf' on
  cases templates : s.templates with
  | none =>
    simp only [Engine.invalidateTemplates, Engine.onShelf, templates] at on
    split at on
    · rw [templates] at on
      cases on
    · simp only [putSources, templates] at on
      cases on
  | some shelf =>
    simp only [Engine.invalidateTemplates, Engine.onShelf, templates, putTemplates] at on
    split at on
    · cases on
      exact kept shelf _ (sound shelf templates)
    · cases on
      exact kept shelf _ (sound shelf templates)

/-- Where the cache lasts, the names are those for which something is held. -/
theorem mem_names {s : Store σ} (lasting : s.Lasting) {name : String} :
    name ∈ s.names ↔ ∃ found, s.template? name = some found := by
  obtain ⟨shelf, on, lasts⟩ := lasting.templates
  simp only [names, template?, on, Option.map_some, Option.getD_some, List.mem_toFinset,
    Option.bind_some]
  constructor
  · intro member
    cases held : shelf.held? name with
    | some found => exact ⟨found, rfl⟩
    | none => exact absurd member (Cache.not_mem_keys (lasts.find?_none held))
  · rintro ⟨found, held⟩
    obtain ⟨entry, front, _⟩ := Shelf.held?_some held
    obtain ⟨member, rfl⟩ := Cache.find?_some front
    exact List.mem_map_of_mem member

theorem mem_compiledNames {s : Store σ} (lasting : s.Lasting) {name : String} :
    name ∈ s.compiledNames ↔ ∃ t, s.template? name = some (some t) := by
  rw [compiledNames, Finset.mem_filter, mem_names lasting]
  rcases s.template? name with _ | _ | _ <;> simp

theorem mem_unknownNames {s : Store σ} (lasting : s.Lasting) {name : String} :
    name ∈ s.unknownNames ↔ s.template? name = some none := by
  rw [unknownNames, Finset.mem_filter, mem_names lasting]
  rcases s.template? name with _ | _ | _ <;> simp

end Store

namespace Engine

/-- The size is the number of names, and counting them drops none. -/
theorem templateCacheSize_eq {s : Store σ} (lasting : s.Lasting) (sound : s.Sound) :
    (templateCacheSize s).1 = s.names.card ∧
      (templateCacheSize s).2.template? = s.template? := by
  obtain ⟨shelf, on, lasts⟩ := lasting.templates
  have purged := Cache.purge_lasting (congrArg CacheSettings.expiration lasts.settings)
  have size (host : σ) : shelf.size host =
      (shelf.cache.entries.length, { shelf with cache := shelf.cache.tick }, host) := by
    simp only [Shelf.size, Shelf.perform, Cache.size, purged]
    rfl
  simp only [templateCacheSize, onShelf, on, size, Option.getD_some]
  constructor
  · rw [Store.names, on, Option.map_some, Option.getD_some,
      List.toFinset_card_of_nodup (sound shelf on).distinct, Cache.keys, List.length_map]
  · funext name
    simp only [Store.template?, Store.putTemplates, on, Option.bind_some]
    rfl

variable {e : Engine σ}

theorem getTemplate_sound (name : String) {s : Store σ} (sound : s.Sound) :
    (e.getTemplate name s).2.Sound := by
  cases templates : s.templates with
  | none =>
    rw [e.getTemplate_of_none templates]
    exact sound.of_eq (e.load_carried name s).2.1
  | some shelf =>
    obtain ⟨r, shelf', store', fetched, sound'⟩ :=
      Shelf.fetch_sound (sound shelf templates) Store.putTemplates e.load name s
    rw [e.getTemplate_of_some templates, fetched]
    rintro _ ⟨⟩
    exact sound'

theorem sound_carries (e : Engine σ) : e.Carries fun s t => s.Sound → t.Sound where
  trans first second sound := second (first sound)
  looked same sound := sound.of_eq same.templates
  learned _ _ _ _ sound := sound
  got name _ sound := getTemplate_sound name sound
  compiled origin tag source s sound :=
    sound.of_eq (e.compileOneOff_carried origin tag source s).2.1

theorem use_sound {s : Store σ} (lasting : s.Lasting) (sound : s.Sound) (use : Use) :
    (e.use use s).Sound := by
  cases use with
  | get name => exact getTemplate_sound name sound
  | source name => exact sound.of_eq (getSource_recites name lasting).2.2.1
  | render t data limit => exact e.sound_carries.renderTo t data (Sink.empty limit) s sound
  | forget matching => exact sound.invalidate matching
  | relocate number locator => exact sound.of_eq rfl

theorem useAll_sound {s : Store σ} (lasting : s.Lasting) (sound : s.Sound) (uses : List Use) :
    (e.useAll uses s).Sound := by
  induction uses generalizing s with
  | nil => exact sound
  | cons use rest ih => exact ih (use_lasting lasting use) (use_sound lasting sound use)

/-! ### What is held -/

/-- A lookup of the name has given `found`, or it was held from the beginning, and the name has not
been invalidated since. -/
inductive Serves (e : Engine σ) (start : Store σ) (uses : List Use) (name : String)
    (found : Option Template) : Prop where
  | held (known : start.template? name = some found) (kept : ∀ use ∈ uses, ¬ use.Forgets name)
  | given {before after : List Use} {use : Use} {a : Store σ} (split : uses = before ++ use :: after)
      (asks : e.Asks (e.useAll before start) use name a) (given : (e.getTemplate name a).1 = .ok found)
      (kept : ∀ use ∈ after, ¬ use.Forgets name)

theorem Serves.next {start : Store σ} {uses : List Use} {name : String} {found : Option Template}
    (serves : e.Serves start uses name found) {use : Use} (kept : ¬ use.Forgets name) :
    e.Serves start (uses ++ [use]) name found := by
  have both {some : List Use} (rest : ∀ u ∈ some, ¬ u.Forgets name) :
      ∀ u ∈ some ++ [use], ¬ u.Forgets name :=
    List.forall_mem_append.mpr ⟨rest, List.forall_mem_singleton.mpr kept⟩
  cases serves with
  | held known rest => exact .held known (both rest)
  | given split asks given rest =>
    exact .given (by rw [split, List.append_assoc, List.cons_append]) asks given (both rest)

theorem template?_iff_serves {start : Store σ} (lasting : start.Lasting) (uses : List Use)
    {name : String} {found : Option Template} :
    (e.useAll uses start).template? name = some found ↔ e.Serves start uses name found := by
  constructor
  · intro known
    induction uses using List.reverseRecOn with
    | nil => exact .held known nofun
    | append_singleton uses use ih =>
      have lasting' := useAll_lasting (e := e) lasting uses
      rw [useAll_append] at known
      rcases use_origin lasting' known with before | ⟨a, asks, _, given⟩
      · refine (ih before).next ?_
        rintro ⟨matching, rfl, matched⟩
        have drops := (invalidateTemplates_drops lasting' matching).2.1 name
        rw [if_pos matched] at drops
        exact absurd (drops.symm.trans known) nofun
      · exact .given rfl asks given nofun
  · intro serves
    cases serves with
    | held known kept => exact useAll_known lasting kept known
    | @given before after use a split asks given kept =>
      have lasting' := useAll_lasting (e := e) lasting before
      rw [split, useAll_append]
      exact useAll_known (use_lasting lasting' use) kept (asks_learns lasting' asks given).1

/-- The first lookup of a name that no locator knows adds to what is held, and later ones do not. -/
theorem names_get_unknown {s : Store σ} (lasting : s.Lasting) {name : String}
    (unknown : content e.split s.locators name = .ok none) :
    (e.getTemplate name s).2.names.card =
      s.names.card + if s.template? name = none then 1 else 0 := by
  obtain ⟨retrieves, lasting', _⟩ := e.getTemplate_retrieves name lasting
  generalize e.getTemplate name s = out at retrieves lasting' ⊢
  cases retrieves with
  | @held _ t known same _ _ =>
    have names : t.names = s.names := by
      ext other
      rw [Store.mem_names lasting', Store.mem_names lasting, same]
    rw [names, known]
    simp
  | failed _ content _ _ _ =>
    rw [unknown] at content
    cases content
  | @loaded found t absent content now _ _ =>
    have names : t.names = insert name s.names := by
      ext other
      rw [Store.mem_names lasting', now, Finset.mem_insert, Store.mem_names lasting]
      split <;> simp_all
    have outside : name ∉ s.names := by
      rw [Store.mem_names lasting, absent]
      simp
    rw [names, Finset.card_insert_of_notMem outside, absent, if_pos rfl]

end Engine

/-! ### The making of an engine -/

namespace Blueprint

/-- The factory makes each cache for one consumer, with the settings that are asked for. -/
def Grants (b : Blueprint σ) : Prop :=
  ∀ consumer settings host, (b.factory.allot consumer settings host).1.settings = settings ∧
    (b.factory.allot consumer settings host).1.foreign = false

theorem allotShelf_granted {V : Type} {b : Blueprint σ} (grants : b.Grants) {s t : Store σ}
    {shelf : Shelf σ String V} (ran : b.allotShelf ⟨none, none⟩ s = (.ok shelf, t)) :
    shelf.Lasting ∧ shelf.cache.Sound ∧ shelf.cache.keys = [] ∧ ∃ host, t = { s with host } := by
  obtain ⟨allotted, rfl⟩ := Prod.mk.inj ran
  obtain ⟨settings, own⟩ := grants Engine.templatesConsumer ⟨none, none⟩ s.host
  unfold Shelf.ofAllotment at allotted
  split at allotted
  · cases allotted
    exact ⟨⟨own, rfl, settings, nofun⟩, ⟨List.nodup_nil, fun n _ => Nat.zero_le n⟩, rfl, _, rfl⟩
  · cases allotted

theorem allotCaches_granted {b : Blueprint σ} (enabled : b.config.templateCacheEnabled = true)
    (unexpiring : b.config.templateCacheExpiration = none) (grants : b.Grants) {s t : Store σ}
    (ran : b.allotCaches s = (.ok (), t)) : t.Lasting ∧ t.Sound ∧ t.names = ∅ := by
  simp only [allotCaches, enabled, if_true, unexpiring, Option.map_none] at ran
  obtain ⟨templates, _, first, ran⟩ := Attempt.bind_ok ran
  obtain ⟨sources, _, second, update⟩ := Attempt.bind_ok ran
  obtain ⟨lasting, sound, empty, _, rfl⟩ := allotShelf_granted grants first
  obtain ⟨lasting', _, _, _, rfl⟩ := allotShelf_granted grants second
  cases update
  refine ⟨⟨⟨_, rfl, lasting⟩, _, rfl, lasting'⟩, ?_, ?_⟩
  · rintro _ ⟨⟩
    exact sound
  · rw [Store.names, Option.map_some, Option.getD_some, empty, List.toFinset_nil]

/-- To compile templates in advance is to look them up. -/
theorem precompile_uses {e : Engine σ} {names : List String} {s t : Store σ}
    (ran : precompile e names s = (.ok (), t)) : t = e.useAll (names.map .get) s := by
  induction names generalizing s with
  | nil =>
    cases ran
    rfl
  | cons name rest ih =>
    obtain ⟨_, u, got, ran⟩ := Attempt.bind_ok ran
    obtain rfl : e.use (.get name) s = u := congrArg Prod.snd got
    exact ih ran

/-- What a new engine holds, it has compiled in advance. -/
theorem build_census {b : Blueprint σ} {host : σ} {e : Engine σ} {start : Store σ}
    (enabled : b.config.templateCacheEnabled = true)
    (unexpiring : b.config.templateCacheExpiration = none) (grants : b.Grants)
    (built : b.build host = .ok (e, start)) :
    start.Lasting ∧ start.Sound ∧ ∀ name found, start.template? name = some found →
      b.config.precompile = true ∧ name ∈ start.locators.flatMap fun p => p.2.identifiers := by
  obtain @⟨_, _, _, first, _, names, _, _, allotted, precompiled, listed⟩ := build_staged built
  obtain ⟨lasting, sound, empty⟩ := allotCaches_granted enabled unexpiring grants allotted
  obtain rfl := precompile_uses precompiled
  refine ⟨Engine.useAll_lasting lasting _, Engine.useAll_sound lasting sound _, ?_⟩
  have fresh {name : String} {found : Option Template} (known : first.template? name = some found) :
      False := by
    have member := (Store.mem_names lasting).mpr ⟨found, known⟩
    rw [empty] at member
    cases member
  intro name found known
  obtain known | ⟨a, ⟨before, use, after, split, asks⟩, _⟩ := Engine.useAll_origin lasting known
  · exact (fresh known).elim
  · have among : use ∈ names.map .get := split ▸ List.mem_append_right before List.mem_cons_self
    obtain ⟨other, member, rfl⟩ := List.mem_map.mp among
    cases asks
    rw [(precompile_sourced precompiled lasting fun _ _ known => (fresh known).elim).2.1]
    rw [listed] at member
    split at member
    · next advance => exact ⟨advance, member⟩
    · cases member

theorem Plain.grants {b : Blueprint σ} (plain : b.Plain) : b.Grants := by
  intro consumer settings host
  rw [plain.factory]
  exact ⟨rfl, rfl⟩

/-- What no locator knows, a lookup does not give, whether that is held or not. -/
theorem Sourced.misses {e : Engine σ} {s : Store σ} (sourced : Sourced e s) (lasting : s.Lasting)
    {name : String} (unknown : Engine.content e.split s.locators name = .ok none) :
    (e.getTemplate name s).1 = .ok none := by
  have retrieves := (e.getTemplate_retrieves name lasting).1
  generalize e.getTemplate name s = out at retrieves
  cases retrieves with
  | @held found _ known _ _ _ =>
    have same := (sourced name found known).symm.trans unknown
    cases found with
    | none => rfl
    | some t => cases same
  | failed _ content _ _ _ =>
    rw [unknown] at content
    cases content
  | loaded _ content _ _ _ =>
    rw [unknown] at content
    cases content
    rfl

/-- An engine whose locator knows the name "a" alone. -/
theorem located_built : ∃ e start, located.build () = .ok (e, start) ∧ Made located () e start ∧
    (∃ segments, Engine.content e.split start.locators "a" = .ok (some segments)) ∧
    Engine.content e.split start.locators "b" = .ok none := by
  have plain : located.Plain := ⟨rfl, rfl, rfl⟩
  obtain ⟨e, start, built⟩ := build_ok plain (by decide) (by decide +kernel) rfl ()
  have founded : Founded (fun _ => []) located () e start := build_founded plain.selfContained built
  have locators : start.locators = [(0, Locator.ofSources 0 [("a", "old")])] :=
    founded.locators.trans (List.mergeSort_singleton _)
  refine ⟨e, start, built, build_made rfl rfl rfl built, ⟨[.text "old" ⟨"a", 1, 1⟩], ?_⟩, ?_⟩
  all_goals
    rw [founded.split, locators]
    with_unfolding_all rfl

/-- The size of the template cache is the number of names that it has an answer for: those of the
templates it holds, and those that no locator knew when they were looked up. A name is looked up by
a caller, by a partial tag or in advance, and it counts until it is invalidated. -/
theorem templateCacheSize_of_build {b : Blueprint σ} {host : σ} {e : Engine σ} {start : Store σ}
    (enabled : b.config.templateCacheEnabled = true)
    (unexpiring : b.config.templateCacheExpiration = none) (grants : b.Grants)
    (built : b.build host = .ok (e, start)) :
    (∀ name found, start.template? name = some found →
      b.config.precompile = true ∧ name ∈ start.locators.flatMap fun p => p.2.identifiers) ∧
    ∀ uses, let s := e.useAll uses start
      (∃ compiled unknown : Finset String,
        (∀ name, name ∈ compiled ↔ ∃ t, e.Serves start uses name (some t)) ∧
        (∀ name, name ∈ unknown ↔ e.Serves start uses name none) ∧
        Disjoint compiled unknown ∧
        (Engine.templateCacheSize s).1 = compiled.card + unknown.card) ∧
      (Engine.templateCacheSize s).2.template? = s.template? ∧
      ∀ name, Engine.content e.split s.locators name = .ok none →
        (Engine.templateCacheSize (e.getTemplate name s).2).1 =
          (Engine.templateCacheSize s).1 + if s.template? name = none then 1 else 0 := by
  obtain ⟨lasting, sound, known⟩ := build_census enabled unexpiring grants built
  refine ⟨known, fun uses => ?_⟩
  have lasting' : (e.useAll uses start).Lasting := Engine.useAll_lasting lasting uses
  have sound' : (e.useAll uses start).Sound := Engine.useAll_sound lasting sound uses
  obtain ⟨size, kept⟩ := Engine.templateCacheSize_eq lasting' sound'
  refine ⟨⟨(e.useAll uses start).compiledNames, (e.useAll uses start).unknownNames, fun name => ?_,
    fun name => ?_, Finset.disjoint_filter_filter_not _ _ _, ?_⟩, kept, fun name unknown => ?_⟩
  · simp only [Store.mem_compiledNames lasting', Engine.template?_iff_serves lasting]
  · rw [Store.mem_unknownNames lasting', Engine.template?_iff_serves lasting]
  · rw [size, Store.compiledNames, Store.unknownNames, Finset.card_filter_add_card_filter_not]
  · have grown := e.getTemplate_grown name lasting'
    rw [size, (Engine.templateCacheSize_eq grown.lasting (Engine.getTemplate_sound name sound')).1]
    exact Engine.names_get_unknown lasting' unknown

/-- A name with a template and one without are looked up, and both are counted. -/
theorem templateCacheSize_of_build_located :
    ∃ e start, located.build () = .ok (e, start) ∧ ∃ compiled unknown : Finset String,
      "a" ∈ compiled ∧ "b" ∈ unknown ∧
      (Engine.templateCacheSize (e.useAll [.get "b", .get "a"] start)).1 =
        compiled.card + unknown.card := by
  obtain ⟨e, start, built, made, ⟨_, known⟩, unknown⟩ := located_built
  have grants : located.Grants := Plain.grants ⟨rfl, rfl, rfl⟩
  obtain ⟨⟨compiled, unknown', mem_compiled, mem_unknown, _, size⟩, _⟩ :=
    (templateCacheSize_of_build rfl rfl grants built).2 [.get "b", .get "a"]
  refine ⟨e, start, built, compiled, unknown', (mem_compiled "a").mpr ?_, (mem_unknown "b").mpr ?_,
    size⟩
  · have grown := e.getTemplate_grown "b" made.lasting
    have sourced := getTemplate_sourced made.lasting made.sourced "b"
    obtain ⟨t, _, got, _⟩ := sourced.gives grown.lasting (grown.locators.symm ▸ known)
    have split : [Use.get "b", .get "a"] = [.get "b"] ++ .get "a" :: [] := rfl
    exact ⟨t, .given split (.get "a") (congrArg Prod.fst got) nofun⟩
  · have missed := made.sourced.misses made.lasting unknown
    have split : [Use.get "b", .get "a"] = [] ++ .get "b" :: [.get "a"] := rfl
    refine .given split (.get "b") missed ?_
    simp [Use.Forgets]

/-- A name that no locator knows is counted, although no template is held for it. -/
theorem templateCacheSize_located :
    ∃ e start, located.build () = .ok (e, start) ∧ (Engine.templateCacheSize start).1 = 0 ∧
      (e.getTemplate "b" start).1 = .ok none ∧
      (Engine.templateCacheSize (e.getTemplate "b" start).2).1 = 1 := by
  obtain ⟨e, start, built, made, _, unknown⟩ := located_built
  obtain ⟨lasting, sound, known⟩ := build_census rfl rfl (Plain.grants ⟨rfl, rfl, rfl⟩) built
  have unheld (name : String) : start.template? name = none := by
    cases held : start.template? name with
    | none => rfl
    | some found => cases (known name found held).1
  have empty : start.names = ∅ := by
    refine Finset.eq_empty_of_forall_notMem fun name member => ?_
    obtain ⟨found, held⟩ := (Store.mem_names lasting).mp member
    rw [unheld] at held
    cases held
  have grown := e.getTemplate_grown "b" lasting
  refine ⟨e, start, built, ?_, made.sourced.misses lasting unknown, ?_⟩
  · rw [(Engine.templateCacheSize_eq lasting sound).1, empty, Finset.card_empty]
  · rw [(Engine.templateCacheSize_eq grown.lasting (Engine.getTemplate_sound "b" sound)).1,
      Engine.names_get_unknown lasting unknown, unheld, if_pos rfl, empty, Finset.card_empty]

end Blueprint

end Logicless
