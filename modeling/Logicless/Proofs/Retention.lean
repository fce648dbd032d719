import Logicless.Proofs.Loading

/-!
# Shelves that forget nothing

A shelf whose entries neither expire nor are evicted answers each request for a key it holds with the
value it holds, and loads every other one. It holds what has been loaded, and no failure.
-/

namespace Logicless

/-! ### Caches -/

namespace Cache

variable {K V : Type} [DecidableEq K]

theorem find?_erase_of_ne {c : Cache K V} {key k : K} (other : k ≠ key) :
    (c.erase key).find? k = c.find? k := by
  unfold find? erase
  rw [List.find?_filter]
  congr
  funext entry
  by_cases same : entry.key = k
  · simp [same, other]
  · simp [same]

/-- The front entry is found, and other keys as before. -/
theorem find?_front (entry : Entry K V) (c : Cache K V) (k : K) :
    find? { c with entries := entry :: (c.erase entry.key).entries } k =
      if k = entry.key then some entry else c.find? k := by
  by_cases same : k = entry.key
  · simp [find?, same]
  · have other : ¬ entry.key = k := fun h => same h.symm
    have kept : (c.erase entry.key).find? k = c.find? k := find?_erase_of_ne same
    rw [if_neg same, ← kept]
    simp only [find?, List.find?_cons, other, decide_false]

theorem lookup_live {key : K} {c : Cache K V} {entry : Entry K V}
    (lasting : c.settings.expiration = none) (found : c.find? key = some entry) :
    c.lookup key =
      (some entry.value, [], { c.tick with entries := entry :: (c.tick.erase key).entries }) := by
  have found : c.tick.find? key = some entry := found
  have live : c.tick.isExpired entry = false := by
    simp [isExpired, tick, lasting]
  simp only [lookup, found, live, Bool.false_eq_true, if_false]

omit [DecidableEq K] in
theorem purge_lasting {c : Cache K V} (lasting : c.settings.expiration = none) :
    c.purge = ([], c.tick) := by
  have live (e : Entry K V) : c.tick.isExpired e = false := by
    rw [isExpired]
    simp only [tick, lasting]
  have all : c.tick.entries.filter (fun e => !c.tick.isExpired e) = c.tick.entries :=
    List.filter_eq_self.mpr fun e _ => by rw [live, Bool.not_false]
  have none : c.tick.entries.filter c.tick.isExpired = [] :=
    List.filter_eq_nil_iff.mpr fun e _ => by simp [live]
  rw [purge, removeWhere, all, none]
  rfl

end Cache

/-! ### Shelves -/

def Held.own? {V : Type} : Held V → Option V
  | .own v => some v
  | .foreign => none

namespace Shelf

variable {σ K V : Type} [DecidableEq K]

def held? (shelf : Shelf σ K V) (key : K) : Option V :=
  (shelf.cache.find? key).bind fun entry => entry.value.own?

/-- The shelf has its cache to itself, the cache drops nothing, and no value is being computed. -/
structure Lasting (shelf : Shelf σ K V) : Prop where
  own : shelf.foreign = false
  idle : shelf.cache.inFlight = []
  settings : shelf.cache.settings = ⟨none, none⟩
  entries : ∀ entry ∈ shelf.cache.entries, entry.value ≠ .foreign

theorem held?_some {shelf : Shelf σ K V} {key : K} {v : V} (h : shelf.held? key = some v) :
    ∃ entry, shelf.cache.find? key = some entry ∧ entry.value = .own v := by
  obtain ⟨⟨key', held, time⟩, found, value⟩ := Option.bind_eq_some_iff.mp h
  cases held with
  | own v' => exact ⟨_, found, congrArg Held.own (Option.some.inj value)⟩
  | foreign => cases value

theorem Lasting.find?_none {shelf : Shelf σ K V} (lasting : shelf.Lasting) {key : K}
    (h : shelf.held? key = none) : shelf.cache.find? key = none := by
  cases found : shelf.cache.find? key with
  | none => rfl
  | some entry =>
    have own := lasting.entries entry (Cache.find?_some found).1
    rw [held?, found, Option.bind_some] at h
    cases held : entry.value with
    | own v =>
      rw [held] at h
      cases h
    | foreign => exact absurd held own

omit [DecidableEq K] in
theorem lasting_empty (consumer : String) (listener : Option (Listener σ)) (label : K → String) :
    Lasting (V := V) ⟨consumer, listener, false, label, Cache.empty ⟨none, none⟩⟩ :=
  ⟨rfl, rfl, rfl, fun _ member => by cases member⟩

/-- Invalidation drops the keys that match, and no other. -/
theorem held?_invalidate (matching : K → Bool) (shelf : Shelf σ K V) (host : σ) (k : K) :
    (shelf.invalidate matching host).1.held? k = if matching k then none else shelf.held? k := by
  have found : (shelf.invalidate matching host).1.cache.find? k =
      if matching k then none else shelf.cache.find? k := by
    change (shelf.cache.entries.filter fun e => !matching e.key).find? (fun e => e.key = k) = _
    rw [List.find?_filter]
    by_cases dropped : matching k = true
    · rw [if_pos dropped, List.find?_eq_none]
      intro e _ kept
      simp only [Bool.not_eq_true', decide_eq_true_eq] at kept
      rw [kept.2, dropped] at kept
      cases kept.1
    · rw [if_neg dropped]
      unfold Cache.find?
      congr
      funext e
      by_cases same : e.key = k
      · simp [same, dropped]
      · simp [same]
  simp only [held?, found]
  split <;> rfl

omit [DecidableEq K] in
theorem Lasting.invalidate {shelf : Shelf σ K V} (lasting : shelf.Lasting) (matching : K → Bool)
    (host : σ) : (shelf.invalidate matching host).1.Lasting :=
  ⟨lasting.own, lasting.idle, lasting.settings,
    fun e kept => lasting.entries e (List.mem_filter.mp kept).1⟩

variable [WellFoundedRelation K] {shelf : Shelf σ K V} (put : Shelf σ K V → Store σ → Store σ)
  {load : K → Attempt (Store σ) Error V} {key : K} {store store' : Store σ}

/-- A value that is held is given as it is. -/
theorem fetch_of_held (load : K → Attempt (Store σ) Error V) (store : Store σ)
    (lasting : shelf.Lasting) {v : V} (held : shelf.held? key = some v) :
    ∃ shelf' : Shelf σ K V, shelf'.Lasting ∧ shelf'.held? = shelf.held? ∧
      Store.fetch shelf put load key store = (.ok v, put shelf' store) := by
  obtain ⟨entry, found, value⟩ := held?_some held
  obtain ⟨member, same⟩ := Cache.find?_some found
  have seen := Cache.lookup_live (congrArg CacheSettings.expiration lasting.settings) found
  refine ⟨{ shelf with cache := (shelf.cache.lookup key).2.2 }, ?_, ?_, ?_⟩
  · refine ⟨lasting.own, ?_, ?_, fun e kept => lasting.entries e (Cache.mem_lookup kept)⟩
    · rw [Cache.inFlight_lookup]
      exact lasting.idle
    · rw [seen]
      exact lasting.settings
  · funext k
    have front := Cache.find?_front entry shelf.cache k
    rw [same] at front
    rw [seen]
    simp only [held?]
    change Option.bind (Cache.find? { shelf.cache with
      entries := entry :: (shelf.cache.erase key).entries } k) _ = _
    rw [front]
    split
    · next same => rw [same, found]
    · rfl
  · have live : (shelf.cache.lookup key).1 = some entry.value := by rw [seen]
    simp only [Store.fetch, Shelf.get]
    rw [Cache.get_of_held live, seen, value]
    rfl

/-- A value that is not held is loaded. It is held from then on, unless loading it fails. -/
theorem fetch_of_missing (lasting : shelf.Lasting) (missing : shelf.held? key = none)
    {r : Except Error V} (ran : load key store = (r, store')) :
    ∃ shelf' : Shelf σ K V, shelf'.Lasting ∧
      (∀ k, shelf'.held? k = if k = key then r.toOption else shelf.held? k) ∧
      Store.fetch shelf put load key store = (r, put shelf' store') := by
  have absent := lasting.find?_none missing
  have seen := Cache.lookup_absent absent
  have free : key ∉ shelf.cache.inFlight := by simp [lasting.idle]
  have missed : (shelf.cache.lookup key).1 = none := by rw [seen]
  have computed : (shelf.world load Store.onHost).compute key
      (Cache.told (shelf.world load Store.onHost).notice (shelf.cache.lookup key).2.1 store) =
        (.done (r.map .own), store') := by
    rw [seen]
    exact compute_load lasting.own ran
  have waiting : (Cache.computing key shelf.cache).inFlight = [key] := by
    simp only [Cache.computing, seen, Cache.claim, Cache.tick, lasting.idle]
  simp only [Store.fetch, Shelf.get]
  rw [Cache.get_of_missed missed free computed]
  cases r with
  | error err =>
    refine ⟨{ shelf with cache := (Cache.computing key shelf.cache).settle key }, ?_, ?_, rfl⟩
    · refine ⟨lasting.own, ?_, ?_, fun e kept => lasting.entries e (Cache.mem_computing kept)⟩
      · simp [Cache.settle, waiting]
      · simp only [Cache.computing, seen]
        exact lasting.settings
    · intro k
      have same : held? { shelf with cache := (Cache.computing key shelf.cache).settle key } k =
          shelf.held? k := by
        simp only [Cache.computing, seen]
        rfl
      rw [same]
      split
      · next same => exact same ▸ missing
      · rfl
  | ok v =>
    let c := Cache.computing key shelf.cache
    have settings : c.settings = ⟨none, none⟩ := by
      simp only [c, Cache.computing, seen]
      exact lasting.settings
    have stored : c.store key (.own v) = ([.stored key],
        { c.tick with entries := ⟨key, .own v, c.tick.clock⟩ :: (c.tick.erase key).entries }) := by
      have bounded : c.tick.settings.maxSize = none := congrArg CacheSettings.maxSize settings
      simp only [Cache.store, settings, reduceCtorEq, if_false, bounded, Cache.evict]
    refine ⟨{ shelf with cache := (c.store key (.own v)).2.settle key }, ?_, ?_, ?_⟩
    · refine ⟨lasting.own, ?_, ?_, fun e kept => ?_⟩
      · simp [stored, Cache.settle, Cache.tick, c, waiting]
      · rw [stored]
        exact settings
      · rcases Cache.mem_store kept with kept | ⟨_, value⟩
        · exact lasting.entries e (Cache.mem_computing kept)
        · rw [value]
          intro foreign
          cases foreign
    · intro k
      have front := Cache.find?_front ⟨key, .own v, c.tick.clock⟩ shelf.cache k
      have same : held? { shelf with cache := (c.store key (.own v)).2.settle key } k =
          (Cache.find? { shelf.cache with
            entries := ⟨key, .own v, c.tick.clock⟩ :: (shelf.cache.erase key).entries } k).bind
              fun entry => entry.value.own? := by
        rw [stored]
        simp only [c, Cache.computing, seen]
        rfl
      rw [same, front]
      split
      · rfl
      · rfl
    · simp only [Except.map, Cache.settled]
      rw [stored]
      rfl

end Shelf

/-! ### Stores -/

namespace Store

variable {σ : Type}

def template? (store : Store σ) (name : String) : Option (Option Template) :=
  store.templates.bind (·.held? name)

def source? (store : Store σ) (name : String) : Option (Option String) :=
  store.sources.bind (·.held? name)

def asked (store : Store σ) (name : String) : Nat :=
  store.consultations.countP (·.name == name)

/-- Templates and sources are cached for as long as they are not invalidated. -/
structure Lasting (store : Store σ) : Prop where
  templates : ∃ shelf, store.templates = some shelf ∧ shelf.Lasting
  sources : ∃ shelf, store.sources = some shelf ∧ shelf.Lasting

theorem Lasting.of_eq {s t : Store σ} (h : s.Lasting) (templates : t.templates = s.templates)
    (sources : t.sources = s.sources) : t.Lasting :=
  ⟨templates ▸ h.templates, sources ▸ h.sources⟩

theorem template?_of_eq {s t : Store σ} (templates : t.templates = s.templates) :
    t.template? = s.template? := by
  funext name
  simp only [template?, templates]

theorem source?_of_eq {s t : Store σ} (sources : t.sources = s.sources) :
    t.source? = s.source? := by
  funext name
  simp only [source?, sources]

end Store

theorem Locator.name_of_askedIn {name : String} {locators : List (Nat × Locator)} {c : Consultation}
    (h : c ∈ askedIn name locators) : c.name = name := by
  induction locators with
  | nil => cases h
  | cons first rest ih =>
    obtain ⟨number, l⟩ := first
    unfold askedIn at h
    split at h
    · rcases List.mem_append.mp h with h | h
      · exact ih h
      · rw [List.mem_singleton.mp h]
    · rw [List.mem_singleton.mp h]

/-- A locator is asked for the name that is wanted, and for no other. -/
theorem Store.asked_consult {σ : Type} {name other : String} (ne : other ≠ name) (store : Store σ) :
    (store.consult name).asked other = store.asked other := by
  have none : (Locator.askedIn name store.locators).countP (·.name == other) = 0 := by
    rw [List.countP_eq_zero]
    intro c member
    rw [Locator.name_of_askedIn member]
    simpa using ne.symm
  simp only [asked, consult, List.countP_append, none, Nat.zero_add]

namespace Engine

variable {σ : Type} (e : Engine σ) {name : String} {s : Store σ}

/-- How a request for a template ends, in a store that lasts. What is held is given, without asking a
locator. What is not held is asked for, and held unless that or the compilation fails. -/
inductive Retrieves (name : String) (s : Store σ) :
    Except Error (Option Template) × Store σ → Prop where
  | held {found : Option Template} {t : Store σ} (known : s.template? name = some found)
      (same : t.template? = s.template?) (counted : t.compiled = s.compiled)
      (unasked : t.consultations = s.consultations) : Retrieves name s (.ok found, t)
  | failed {err : Error} {t : Store σ} (unknown : s.template? name = none)
      (content : content e.split s.locators name = .error err) (same : t.template? = s.template?)
      (counted : t.compiled = s.compiled)
      (asked : t.consultations = (s.consult name).consultations) : Retrieves name s (.error err, t)
  | loaded {found : Option (List Segment)} {t : Store σ} (unknown : s.template? name = none)
      (content : content e.split s.locators name = .ok found)
      (known : ∀ k, t.template? k = if k = name then
        some (found.map fun segments => ⟨s.compiled, name, segments⟩) else s.template? k)
      (counted : t.compiled = s.compiled + found.toList.length)
      (asked : t.consultations = (s.consult name).consultations) :
      Retrieves name s (.ok (found.map fun segments => ⟨s.compiled, name, segments⟩), t)

inductive Recites (name : String) (s : Store σ) : Except Error (Option String) × Store σ → Prop where
  | held {found : Option String} {t : Store σ} (known : s.source? name = some found)
      (same : t.source? = s.source?) (unasked : t.consultations = s.consultations) :
      Recites name s (.ok found, t)
  | failed {err : Error} {t : Store σ} (unknown : s.source? name = none)
      (answer : Locator.answerIn name s.locators = .error err) (same : t.source? = s.source?)
      (asked : t.consultations = (s.consult name).consultations) : Recites name s (.error err, t)
  | located {found : Option String} {t : Store σ} (unknown : s.source? name = none)
      (answer : Locator.answerIn name s.locators = .ok found)
      (known : ∀ k, t.source? k = if k = name then some found else s.source? k)
      (asked : t.consultations = (s.consult name).consultations) : Recites name s (.ok found, t)

theorem getTemplate_retrieves (name : String) (lasting : s.Lasting) :
    e.Retrieves name s (e.getTemplate name s) ∧ (e.getTemplate name s).2.Lasting ∧
      (e.getTemplate name s).2.sources = s.sources := by
  obtain ⟨⟨shelf, on, lasts⟩, sources⟩ := lasting
  have view : s.template? = shelf.held? := by
    funext k
    simp only [Store.template?, on, Option.bind_some]
  rw [e.getTemplate_of_some on]
  cases held : shelf.held? name with
  | some found =>
    obtain ⟨shelf', lasts', same, fetched⟩ := Shelf.fetch_of_held Store.putTemplates
      e.load s lasts held
    rw [fetched]
    refine ⟨.held (view ▸ held) ?_ rfl rfl, ⟨⟨shelf', rfl, lasts'⟩, sources⟩, rfl⟩
    rw [view]
    exact same
  | none =>
    have unknown : s.template? name = none := view ▸ held
    cases given : content e.split s.locators name with
    | error err =>
      obtain ⟨shelf', lasts', known, fetched⟩ := Shelf.fetch_of_missing
        Store.putTemplates lasts held (e.load_of_error given)
      rw [fetched]
      refine ⟨.failed unknown given ?_ rfl rfl, ⟨⟨shelf', rfl, lasts'⟩, sources⟩, rfl⟩
      funext k
      refine (known k).trans ?_
      split
      · next same => rw [same, unknown]; rfl
      · rw [view]
    | ok found =>
      have loaded : ∃ t, e.load name s =
          (.ok (found.map fun segments => ⟨s.compiled, name, segments⟩), t) ∧
          t.sources = s.sources ∧ t.compiled = s.compiled + found.toList.length ∧
          t.consultations = (s.consult name).consultations := by
        cases found with
        | none => exact ⟨_, e.load_of_none given, rfl, rfl, rfl⟩
        | some segments => exact ⟨_, e.load_of_some given, rfl, rfl, rfl⟩
      obtain ⟨t, ran, same, counted, asked⟩ := loaded
      obtain ⟨shelf', lasts', known, fetched⟩ := Shelf.fetch_of_missing
        Store.putTemplates lasts held ran
      rw [fetched]
      refine ⟨.loaded unknown given (fun k => ?_) counted asked,
        ⟨⟨shelf', rfl, lasts'⟩, ?_⟩, same⟩
      · rw [view]
        exact known k
      · exact same ▸ sources

theorem getSource_recites (name : String) (lasting : s.Lasting) :
    Recites name s (getSource name s) ∧ (getSource name s).2.Lasting ∧
      (getSource name s).2.templates = s.templates ∧
      (getSource name s).2.locators = s.locators := by
  obtain ⟨templates, shelf, on, lasts⟩ := lasting
  have view : s.source? = shelf.held? := by
    funext k
    simp only [Store.source?, on, Option.bind_some]
  have get : getSource name s = Store.fetch shelf Store.putSources locate name s := by
    simp only [getSource, Attempt.state, Attempt.bind_apply, on]
  rw [get]
  cases held : shelf.held? name with
  | some found =>
    obtain ⟨shelf', lasts', same, fetched⟩ := Shelf.fetch_of_held Store.putSources
      locate s lasts held
    rw [fetched]
    refine ⟨.held (view ▸ held) ?_ rfl, ⟨templates, ⟨shelf', rfl, lasts'⟩⟩, rfl, rfl⟩
    rw [view]
    exact same
  | none =>
    have unknown : s.source? name = none := view ▸ held
    obtain ⟨shelf', lasts', known, fetched⟩ := Shelf.fetch_of_missing
      Store.putSources lasts held (locate_apply name s)
    rw [fetched]
    refine ⟨?_, ⟨templates, ⟨shelf', rfl, lasts'⟩⟩, rfl, rfl⟩
    cases answer : Locator.answerIn name s.locators with
    | error err =>
      refine .failed unknown answer ?_ rfl
      funext k
      refine (known k).trans ?_
      rw [answer]
      split
      · next same => rw [same, unknown]; rfl
      · rw [view]
    | ok found =>
      refine .located unknown answer (fun k => ?_) rfl
      rw [view]
      refine (known k).trans ?_
      rw [answer]
      rfl

/-- Invalidation drops the templates and the sources of the names that match, and no others. -/
theorem invalidateTemplates_drops (lasting : s.Lasting) (matching : String → Bool) :
    (invalidateTemplates matching s).Lasting ∧
      (∀ k, (invalidateTemplates matching s).template? k =
        if matching k then none else s.template? k) ∧
      (∀ k, (invalidateTemplates matching s).source? k = if matching k then none else s.source? k) ∧
      (invalidateTemplates matching s).locators = s.locators ∧
      (invalidateTemplates matching s).consultations = s.consultations := by
  obtain ⟨⟨shelf, on, lasts⟩, shelf', on', lasts'⟩ := lasting
  have invalidated : ∃ host host' host'', invalidateTemplates matching s =
      Store.putSources (shelf'.invalidate matching host').1 { Store.putTemplates
        (shelf.invalidate matching host).1 s with host := host'' } := by
    simp only [invalidateTemplates, onShelf, on, Store.putTemplates, on']
    exact ⟨_, _, _, rfl⟩
  obtain ⟨host, host', host'', eq⟩ := invalidated
  rw [eq]
  refine ⟨⟨⟨_, rfl, lasts.invalidate matching host⟩, ⟨_, rfl, lasts'.invalidate matching host'⟩⟩,
    fun k => ?_, fun k => ?_, rfl, rfl⟩
  · simp only [Store.template?, on, Option.bind_some]
    exact shelf.held?_invalidate matching host k
  · simp only [Store.source?, on', Option.bind_some]
    exact shelf'.held?_invalidate matching host' k

end Engine

end Logicless
