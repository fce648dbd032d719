import Logicless.Proofs.Fetch
import Logicless.Proofs.Renaming.Source
import Mathlib.Data.List.Forall2

/-!
# Caches under other keys

A cache does not look into its keys. Under other keys for the same values it holds, evicts and
expires the same entries, and a request to a shelf goes the same way (`Shelf.fetch_renames`).
-/

namespace Logicless

variable {K V : Type} {κ : K → K} {same : V → V → Prop}

def Change.map (κ : K → K) : Change K → Change K
  | .stored key => .stored (κ key)
  | .removed key cause => .removed (κ key) cause

structure Entry.Renames (κ : K → K) (same : V → V → Prop) (e e' : Entry K V) : Prop where
  key : e'.key = κ e.key
  value : same e.value e'.value
  storedAt : e'.storedAt = e.storedAt

namespace Cache

/-- The caches hold values that stand for each other, under other keys. -/
structure Renames (κ : K → K) (same : V → V → Prop) (c c' : Cache K V) : Prop where
  settings : c'.settings = c.settings
  clock : c'.clock = c.clock
  entries : List.Forall₂ (Entry.Renames κ same) c.entries c'.entries
  inFlight : c'.inFlight = c.inFlight.map κ

/-- What an operation does to the caches: it finds values that stand for each other, and it makes the
same changes. -/
structure Done (κ : K → K) (same : V → V → Prop) (r r' : Option V × List (Change K) × Cache K V) :
    Prop where
  found : Option.Rel same r.1 r'.1
  changes : r'.2.1 = r.2.1.map (Change.map κ)
  renames : Renames κ same r.2.2 r'.2.2

variable [DecidableEq K] (injective : Function.Injective κ) {c c' : Cache K V} (h : Renames κ same c c')

include injective h

theorem find?_renames (key : K) : Option.Rel (Entry.Renames κ same) (c.find? key) (c'.find? (κ key)) := by
  have entries := h.entries
  unfold find?
  generalize c.entries = es, c'.entries = es' at entries
  induction entries with
  | nil => exact .none
  | @cons e e' _ _ head _ ih =>
    rw [List.find?_cons, List.find?_cons, head.key]
    by_cases here : e.key = key
    · simp only [here, decide_true]
      exact .some head
    · have apart : κ e.key ≠ κ key := fun same => here (injective same)
      simpa only [here, apart, decide_false] using ih

theorem erase_renames (key : K) : Renames κ same (c.erase key) (c'.erase (κ key)) := by
  refine ⟨h.settings, h.clock, List.rel_filter ?_ h.entries, h.inFlight⟩
  intro e e' renames
  simp only [renames.key, injective.eq_iff, ne_eq, decide_not, Bool.not_eq_true', decide_eq_false_iff_not]

theorem lookup_renames (key : K) : Done κ same (c.lookup key) (c'.lookup (κ key)) := by
  have ticked : Renames κ same c.tick c'.tick := ⟨h.settings, congrArg (· + 1) h.clock, h.entries, h.inFlight⟩
  have found := find?_renames injective ticked key
  unfold lookup
  dsimp only
  generalize c.tick.find? key = r, c'.tick.find? (κ key) = r' at found ⊢
  cases found with
  | none => exact ⟨.none, rfl, ticked⟩
  | @some e e' entry =>
    have expires : c'.tick.isExpired e' = c.tick.isExpired e := by
      simp only [isExpired, ticked.settings, ticked.clock, entry.storedAt]
    have erased := erase_renames injective ticked key
    simp only [expires]
    split
    · exact ⟨.none, rfl, erased⟩
    · exact ⟨.some entry.value, rfl, ticked.settings, ticked.clock, .cons entry erased.entries, ticked.inFlight⟩

omit injective h [DecidableEq K] in
theorem removed_renames (cause : Cause) {es es' : List (Entry K V)}
    (entries : List.Forall₂ (Entry.Renames κ same) es es') :
    (es'.map fun e => Change.removed e.key cause) =
      (es.map fun e => Change.removed e.key cause).map (Change.map κ) := by
  induction entries with
  | nil => rfl
  | cons head _ ih =>
    rw [List.map_cons, List.map_cons, List.map_cons, ih, head.key]
    rfl

omit injective [DecidableEq K] in
theorem removeWhere_renames {drop drop' : Entry K V → Bool}
    (agree : ∀ e e', Entry.Renames κ same e e' → drop' e' = drop e) (cause : Cause) :
    (c'.removeWhere drop' cause).1 = (c.removeWhere drop cause).1.map (Change.map κ) ∧
      Renames κ same (c.removeWhere drop cause).2 (c'.removeWhere drop' cause).2 := by
  refine ⟨removed_renames cause (List.rel_filter ?_ h.entries), h.settings, h.clock,
    List.rel_filter ?_ h.entries, h.inFlight⟩
  · intro e e' renames
    simp only [agree e e' renames]
  · intro e e' renames
    simp only [agree e e' renames]

omit injective h [DecidableEq K] in
theorem evict_renames (maxSize : Option Nat) {es es' : List (Entry K V)}
    (entries : List.Forall₂ (Entry.Renames κ same) es es') :
    List.Forall₂ (Entry.Renames κ same) (evict maxSize es).1 (evict maxSize es').1 ∧
      (evict maxSize es').2 = (evict maxSize es).2.map (Change.map κ) := by
  cases maxSize with
  | none => exact ⟨entries, rfl⟩
  | some n =>
    exact ⟨List.forall₂_take n entries, removed_renames .size (List.forall₂_drop n entries)⟩

theorem store_renames (key : K) {v v' : V} (value : same v v') :
    (c'.store (κ key) v').1 = (c.store key v).1.map (Change.map κ) ∧
      Renames κ same (c.store key v).2 (c'.store (κ key) v').2 := by
  have erased := erase_renames injective h key
  unfold store
  rw [h.settings]
  split
  · exact ⟨rfl, h⟩
  · have added : List.Forall₂ (Entry.Renames κ same) (⟨key, v, c.clock + 1⟩ :: (c.erase key).entries)
        (⟨κ key, v', c'.clock + 1⟩ :: (c'.erase (κ key)).entries) :=
      .cons ⟨rfl, value, congrArg (· + 1) h.clock⟩ erased.entries
    obtain ⟨entries, changes⟩ := evict_renames c.settings.maxSize added
    refine ⟨congrArg (Change.stored (κ key) :: ·) ?_, h.settings, congrArg (· + 1) h.clock, ?_, h.inFlight⟩
    · simp only [tick, h.settings]
      exact changes
    · simp only [tick, h.settings]
      exact entries

theorem settle_renames (key : K) : Renames κ same (c.settle key) (c'.settle (κ key)) := by
  refine ⟨h.settings, h.clock, h.entries, ?_⟩
  simp only [settle, h.inFlight, List.filter_map]
  refine congrArg (List.map κ) (List.filter_congr fun k _ => ?_)
  simp only [Function.comp_apply, ne_eq, injective.eq_iff]

theorem computing_renames (key : K) : Renames κ same (computing key c) (computing (κ key) c') := by
  obtain ⟨_, _, looked⟩ := lookup_renames injective h key
  exact ⟨looked.settings, congrArg (· + 1) looked.clock, looked.entries, by
    simp only [computing, claim, tick, looked.inFlight, List.map_cons]⟩

omit [DecidableEq K] in
theorem mem_inFlight_renames (key : K) : κ key ∈ c'.inFlight ↔ key ∈ c.inFlight := by
  rw [h.inFlight, List.mem_map_of_injective injective]

end Cache

/-! ### Shelves -/

inductive Held.Renames (same : V → V → Prop) : Held V → Held V → Prop where
  | own {v v' : V} (h : same v v') : Renames same (.own v) (.own v')
  | foreign : Renames same .foreign .foreign

namespace Shelf

variable {σ : Type}

/-- The shelves are for one consumer and hold values that stand for each other, under other keys. Who
is told of removals makes no difference between the keys. -/
structure Renames (κ : K → K) (same : V → V → Prop) (shelf shelf' : Shelf σ K V) : Prop where
  consumer : shelf'.consumer = shelf.consumer
  foreign : shelf'.foreign = shelf.foreign
  notice : ∀ change, shelf'.notice (change.map κ) = shelf.notice change
  cache : Cache.Renames κ (Held.Renames same) shelf.cache shelf'.cache

variable {shelf shelf' : Shelf σ K V}

theorem Renames.told (h : Renames κ same shelf shelf') (changes : List (Change K)) :
    shelf'.told (changes.map (Change.map κ)) = shelf.told changes := by
  funext host
  unfold Shelf.told
  rw [List.foldl_map]
  simp only [h.notice]

theorem Renames.withCache (h : Renames κ same shelf shelf') {c c' : Cache K (Held V)}
    (cache : Cache.Renames κ (Held.Renames same) c c') :
    Renames κ same { shelf with cache := c } { shelf' with cache := c' } :=
  ⟨h.consumer, h.foreign, h.notice, cache⟩

theorem invalidate_renames [DecidableEq K] (h : Renames κ same shelf shelf') {matching matching' : K → Bool}
    (agree : ∀ key, matching' (κ key) = matching key) (host : σ) :
    Renames κ same (shelf.invalidate matching host).1 (shelf'.invalidate matching' host).1 ∧
      (shelf'.invalidate matching' host).2 = (shelf.invalidate matching host).2 := by
  have drops (e e' : Entry K (Held V)) (renames : Entry.Renames κ (Held.Renames same) e e') :
      matching' e'.key = matching e.key := by rw [renames.key, agree]
  obtain ⟨changes, kept⟩ := Cache.removeWhere_renames h.cache drops .explicit
  refine ⟨h.withCache kept, ?_⟩
  change shelf'.told (shelf'.cache.invalidate matching').1 host =
    shelf.told (shelf.cache.invalidate matching).1 host
  rw [← h.told]
  exact congrArg (fun changes => shelf'.told changes host) changes

variable [DecidableEq K] [WellFoundedRelation K]

/-- Requests for values under other keys go the same way, if loading does. -/
theorem fetch_renames (injective : Function.Injective κ) {bad : Error → Error → Prop}
    (mismatch : ∀ consumer, bad (.cacheTypeMismatch consumer) (.cacheTypeMismatch consumer))
    (computation : ∀ reason, bad (.cacheComputation reason) (.cacheComputation reason))
    {stores : Store σ → Store σ → Prop}
    (hosts : ∀ {s s'}, stores s s' → s'.host = s.host)
    (rehost : ∀ {s s'} host, stores s s' → stores { s with host } { s' with host })
    {load load' : K → Attempt (Store σ) Error V} {key : K}
    (loads : ∀ {s s'}, stores s s' → Correspond bad same (load key s).1 (load' (κ key) s').1 ∧
      stores (load key s).2 (load' (κ key) s').2)
    (put put' : Shelf σ K V → Store σ → Store σ) (h : Renames κ same shelf shelf') {s s' : Store σ}
    (start : stores s s') :
    Correspond bad same (Store.fetch shelf put load key s).1 (Store.fetch shelf' put' load' (κ key) s').1 ∧
      ∃ after after' t t', Renames κ same after after' ∧ stores t t' ∧
        (Store.fetch shelf put load key s).2 = put after t ∧
        (Store.fetch shelf' put' load' (κ key) s').2 = put' after' t' := by
  obtain ⟨found, changes, looked⟩ := Cache.lookup_renames injective h.cache key
  have computing := Cache.computing_renames injective h.cache key
  have unwrap {held held' : Held V} (value : Held.Renames same held held') :
      Correspond bad same (shelf.unwrap (.value held)) (shelf'.unwrap (.value held')) := by
    cases value with
    | own h => exact .ok h
    | foreign =>
      refine .error ?_
      rw [h.consumer]
      exact mismatch _
  -- The host is told of the same removals.
  have told : shelf'.told (shelf'.cache.lookup (κ key)).2.1 s'.host =
      shelf.told (shelf.cache.lookup key).2.1 s.host := by
    rw [changes, h.told, hosts start]
  have before : stores { s with host := shelf.told (shelf.cache.lookup key).2.1 s.host }
      { s' with host := shelf'.told (shelf'.cache.lookup (κ key)).2.1 s'.host } := by
    rw [told]
    exact rehost _ start
  cases seen : (shelf.cache.lookup key).1 with
  | some held =>
    rw [seen] at found
    obtain ⟨held', seen', value⟩ : ∃ held', (shelf'.cache.lookup (κ key)).1 = some held' ∧
        Held.Renames same held held' := by
      generalize (shelf'.cache.lookup (κ key)).1 = r at found
      cases found with
      | some value => exact ⟨_, rfl, value⟩
    rw [fetch_of_hit put load s seen, fetch_of_hit put' load' s' seen']
    exact ⟨unwrap value, _, _, _, _, h.withCache looked, before, rfl, rfl⟩
  | none =>
    rw [seen] at found
    have seen' : (shelf'.cache.lookup (κ key)).1 = none := by
      generalize (shelf'.cache.lookup (κ key)).1 = r at found
      cases found
      rfl
    have flights := Cache.mem_inFlight_renames injective h.cache key
    by_cases flight : key ∈ shelf.cache.inFlight
    · rw [fetch_of_inFlight put load s seen flight, fetch_of_inFlight put' load' s' seen' (flights.mpr flight)]
      exact ⟨.error (computation _), _, _, _, _, h.withCache looked, before, rfl, rfl⟩
    · have idle : κ key ∉ shelf'.cache.inFlight := fun flight' => flight (flights.mp flight')
      have stored {held held' : Held V} (value : Held.Renames same held held') :=
        Cache.store_renames injective computing key value
      cases mixed : shelf.foreign with
      | true =>
        obtain ⟨more, kept⟩ := stored .foreign
        rw [fetch_of_foreign put load s seen flight mixed,
          fetch_of_foreign put' load' s' seen' idle (h.foreign.trans mixed)]
        refine ⟨unwrap .foreign, _, _, _, _, h.withCache (Cache.settle_renames injective kept key), ?_, rfl, rfl⟩
        rw [told, more, h.told]
        exact rehost _ start
      | false =>
        obtain ⟨results, after⟩ := loads before
        rcases ran : load key { s with host := shelf.told (shelf.cache.lookup key).2.1 s.host } with ⟨r, t⟩
        rcases ran' : load' (κ key) { s' with host := shelf'.told (shelf'.cache.lookup (κ key)).2.1 s'.host }
          with ⟨r', t'⟩
        rw [ran, ran'] at results after
        cases results with
        | error fails =>
          rw [fetch_of_failed put seen flight mixed ran,
            fetch_of_failed put' seen' idle (h.foreign.trans mixed) ran']
          exact ⟨.error fails, _, _, _, _, h.withCache (Cache.settle_renames injective computing key),
            after, rfl, rfl⟩
        | ok value =>
          obtain ⟨more, kept⟩ := stored (.own value)
          rw [fetch_of_loaded put seen flight mixed ran,
            fetch_of_loaded put' seen' idle (h.foreign.trans mixed) ran']
          refine ⟨.ok value, _, _, _, _, h.withCache (Cache.settle_renames injective kept key), ?_, rfl, rfl⟩
          rw [more, h.told, hosts after]
          exact rehost _ after

end Shelf

end Logicless
