import Logicless.Store

/-!
# Requests to a shelf

A request for a value is answered from what the shelf holds, or by one run of the loader. Beside
the loader only listeners act, and they reach no further than the host.
-/

namespace Logicless

/-! ### Entries -/

namespace Cache

variable {K V : Type} [DecidableEq K]

theorem find?_erase (c : Cache K V) (key : K) : (c.erase key).find? key = none := by
  simp [find?, erase]

theorem mem_erase {c : Cache K V} {key : K} {e : Entry K V} (h : e ∈ (c.erase key).entries) :
    e ∈ c.entries :=
  (List.mem_filter.mp h).1

/-- The three ways a look-up goes: nothing is held, what is held has expired, or it is live. -/
theorem lookup_cases (key : K) (c : Cache K V) :
    (c.find? key = none ∧ c.lookup key = (none, [], c.tick)) ∨
    (∃ e, c.find? key = some e ∧
      c.lookup key = (none, [.removed key .expired], c.tick.erase key)) ∨
    (∃ e, c.find? key = some e ∧
      c.lookup key = (some e.value, [], { c.tick with entries := e :: (c.tick.erase key).entries })) := by
  have ticked : c.tick.find? key = c.find? key := rfl
  simp only [lookup, ticked]
  cases found : c.find? key with
  | none => exact Or.inl ⟨rfl, rfl⟩
  | some e =>
    by_cases expired : c.tick.isExpired e = true
    · exact Or.inr (Or.inl ⟨e, rfl, by simp only [expired, if_true]⟩)
    · exact Or.inr (Or.inr ⟨e, rfl, by simp only [expired, if_false, Bool.false_eq_true]⟩)

theorem find?_some {c : Cache K V} {key : K} {e : Entry K V} (h : c.find? key = some e) :
    e ∈ c.entries ∧ e.key = key :=
  ⟨List.mem_of_find?_eq_some h, by simpa using List.find?_some h⟩

theorem lookup_held {key : K} {c : Cache K V} {v : V} (h : (c.lookup key).1 = some v) :
    ∃ e ∈ c.entries, e.key = key ∧ e.value = v := by
  rcases lookup_cases key c with ⟨_, eq⟩ | ⟨e, _, eq⟩ | ⟨e, found, eq⟩
  · rw [eq] at h
    cases h
  · rw [eq] at h
    cases h
  · rw [eq] at h
    obtain ⟨member, same⟩ := find?_some found
    exact ⟨e, member, same, Option.some.inj h⟩

theorem lookup_missed {key : K} {c : Cache K V} (h : (c.lookup key).1 = none) :
    (c.lookup key).2.2.find? key = none := by
  rcases lookup_cases key c with ⟨found, eq⟩ | ⟨e, _, eq⟩ | ⟨e, _, eq⟩
  · rw [eq]
    exact found
  · rw [eq]
    exact find?_erase _ _
  · rw [eq] at h
    cases h

theorem mem_lookup {key : K} {c : Cache K V} {e : Entry K V}
    (h : e ∈ (c.lookup key).2.2.entries) : e ∈ c.entries := by
  rcases lookup_cases key c with ⟨_, eq⟩ | ⟨_, _, eq⟩ | ⟨e', found, eq⟩
  · rw [eq] at h
    exact h
  · rw [eq] at h
    exact mem_erase h
  · rw [eq] at h
    rcases List.mem_cons.mp h with rfl | h
    · exact (find?_some found).1
    · exact mem_erase h

theorem inFlight_lookup (key : K) (c : Cache K V) : (c.lookup key).2.2.inFlight = c.inFlight := by
  rcases lookup_cases key c with ⟨_, eq⟩ | ⟨_, _, eq⟩ | ⟨_, _, eq⟩ <;> rw [eq] <;> rfl

theorem lookup_absent {key : K} {c : Cache K V} (h : c.find? key = none) :
    c.lookup key = (none, [], c.tick) := by
  rcases lookup_cases key c with ⟨_, eq⟩ | ⟨e, found, _⟩ | ⟨e, found, _⟩
  · exact eq
  · rw [h] at found
    cases found
  · rw [h] at found
    cases found

omit [DecidableEq K] in
theorem mem_evict {maxSize : Option Nat} {entries : List (Entry K V)} {e : Entry K V}
    (h : e ∈ (evict maxSize entries).1) : e ∈ entries := by
  cases maxSize with
  | none => exact h
  | some n => exact List.mem_of_mem_take h

theorem mem_store {key : K} {v : V} {c : Cache K V} {e : Entry K V}
    (h : e ∈ (c.store key v).2.entries) : e ∈ c.entries ∨ (e.key = key ∧ e.value = v) := by
  by_cases zero : c.settings.maxSize = some 0
  · simp only [store, zero, if_true] at h
    exact Or.inl h
  · simp only [store, zero, if_false] at h
    rcases List.mem_cons.mp (mem_evict h) with rfl | h
    · exact Or.inr ⟨rfl, rfl⟩
    · exact Or.inl (mem_erase h)

theorem inFlight_store (key : K) (v : V) (c : Cache K V) :
    (c.store key v).2.inFlight = c.inFlight := by
  by_cases zero : c.settings.maxSize = some 0
  · simp only [store, zero, if_true]
  · simp only [store, zero, if_false]
    rfl

def computing (key : K) (c : Cache K V) : Cache K V :=
  ((c.lookup key).2.2.claim key).tick

theorem inFlight_settle {key k : K} {c : Cache K V} (h : k ∈ (c.settle key).inFlight) :
    k ∈ c.inFlight ∧ k ≠ key := by
  simpa [settle] using h

theorem inFlight_computing {key k : K} {c : Cache K V} (h : k ∈ (computing key c).inFlight)
    (other : k ≠ key) : k ∈ c.inFlight := by
  rcases List.mem_cons.mp h with same | h
  · exact absurd same other
  · rwa [inFlight_lookup] at h

theorem mem_computing {key : K} {c : Cache K V} {e : Entry K V}
    (h : e ∈ (computing key c).entries) : e ∈ c.entries :=
  mem_lookup h

/-! ### Requests -/

variable {E W : Type} [order : WellFoundedRelation K]

def told (notice : Change K → W → W) (changes : List (Change K)) (w : W) : W :=
  changes.foldl (fun w change => notice change w) w

/-- What is left of a request when its value has been computed. -/
def settled (notice : Change K → W → W) (key : K) (c : Cache K V) (w : W) :
    Except E V → Outcome E V × Cache K V × W
  | .ok v =>
    (.value v, ((computing key c).store key v).2.settle key,
      told notice ((computing key c).store key v).1 w)
  | .error e => (.failed e, (computing key c).settle key, w)

omit [DecidableEq K] order in
theorem onCache_apply (f : Cache K V → Cache K V) (c : Cache K V) (w : W) :
    onCache f (c, w) = ((), f c, w) := rfl

theorem get_of_held {world : Computing K V E W order.rel} {key : K} {c : Cache K V} {w : W} {v : V}
    (held : (c.lookup key).1 = some v) :
    get world key (c, w) =
      (.value v, (c.lookup key).2.2, told world.notice (c.lookup key).2.1 w) := by
  rw [get]
  simp only [bind, StateT.bind, perform, held]
  rfl

theorem get_of_inFlight {world : Computing K V E W order.rel} {key : K} {c : Cache K V} {w : W}
    (missed : (c.lookup key).1 = none) (flight : key ∈ c.inFlight) :
    get world key (c, w) =
      (.waiting, (c.lookup key).2.2, told world.notice (c.lookup key).2.1 w) := by
  have waiting : (c.lookup key).2.2.isInFlight key = true := by
    rw [isInFlight, inFlight_lookup]
    exact decide_eq_true flight
  rw [get]
  simp only [bind, StateT.bind, perform, missed, StateT.get, pure, waiting, if_true]
  rfl

def closed (notice : Change K → W → W) (key : K) :
    Outcome E V × Cache K V × W → Outcome E V × Cache K V × W
  | (.value v, c, w) => (.value v, (c.store key v).2.settle key, told notice (c.store key v).1 w)
  | (outcome, c, w) => (outcome, c.settle key, w)

theorem get_of_computation {world : Computing K V E W order.rel} {key : K} {c : Cache K V} {w w' : W}
    {computation : Computation V E order.rel key} (missed : (c.lookup key).1 = none)
    (flight : key ∉ c.inFlight)
    (computed : world.compute key (told world.notice (c.lookup key).2.1 w) = (computation, w')) :
    get world key (c, w) = closed world.notice key
      (computation.run world.notice (fun k _ => get world k) (computing key c, w')) := by
  have free : (c.lookup key).2.2.isInFlight key = false := by
    rw [isInFlight, inFlight_lookup]
    exact decide_eq_false flight
  have again := lookup_absent (c := (c.lookup key).2.2.claim key) (lookup_missed missed)
  obtain ⟨compute, notice⟩ := world
  rw [get]
  simp only [bind, StateT.bind, perform, perform', onCache_apply, modifyGet,
    MonadStateOf.modifyGet, StateT.modifyGet, StateT.get, pure, missed, free, again,
    Bool.false_eq_true, if_false, List.foldl_nil]
  simp only [told] at computed
  rw [computed]
  simp only [computing]
  generalize computation.run notice (fun k _ => get ⟨compute, notice⟩ k)
    (((c.lookup key).2.2.claim key).tick, w') = ran
  obtain ⟨outcome, c', w''⟩ := ran
  cases outcome <;> rfl

/-- A computation that makes no queries is run in the world that knows of the miss. -/
theorem get_of_missed {world : Computing K V E W order.rel} {key : K} {c : Cache K V} {w w' : W}
    {r : Except E V} (missed : (c.lookup key).1 = none) (flight : key ∉ c.inFlight)
    (computed : world.compute key (told world.notice (c.lookup key).2.1 w) = (.done r, w')) :
    get world key (c, w) = settled world.notice key c w' r := by
  rw [get_of_computation missed flight computed]
  cases r <;> rfl

end Cache

/-! ### Shelves -/

/-- The value is right, or it is of another type, as all are that a `mixed` shelf holds. -/
def Held.Right {V : Type} (mixed : Bool) (right : V → Prop) : Held V → Prop
  | .own v => mixed = false ∧ right v
  | .foreign => mixed = true

namespace Shelf

variable {σ K V : Type} [DecidableEq K]

structure Updated (shelf shelf' : Shelf σ K V) (added : Entry K (Held V) → Prop) : Prop where
  foreign : shelf'.foreign = shelf.foreign
  consumer : shelf'.consumer = shelf.consumer
  inFlight : ∀ k ∈ shelf'.cache.inFlight, k ∈ shelf.cache.inFlight
  entries : ∀ e ∈ shelf'.cache.entries, e ∈ shelf.cache.entries ∨ added e

/-- What a shelf answers without its loader. -/
inductive Answers (shelf : Shelf σ K V) (key : K) : Except Error V → Prop where
  | held (e : Entry K (Held V)) (v : V) (member : e ∈ shelf.cache.entries) (same : e.key = key)
      (value : e.value = .own v) : Answers shelf key (.ok v)
  | foreign (mixed : shelf.foreign = true ∨ ∃ e ∈ shelf.cache.entries, e.value = .foreign) :
      Answers shelf key (.error (.cacheTypeMismatch shelf.consumer))
  | inFlight (flight : key ∈ shelf.cache.inFlight) (reason : String) :
      Answers shelf key (.error (.cacheComputation reason))

inductive Fetched (shelf : Shelf σ K V) (put : Shelf σ K V → Store σ → Store σ)
    (load : K → Attempt (Store σ) Error V) (key : K) (store : Store σ) :
    Except Error V × Store σ → Prop where
  | answered (r : Except Error V) (shelf' : Shelf σ K V) (host : σ) (answers : shelf.Answers key r)
      (updated : shelf.Updated shelf' fun e => shelf.foreign = true ∧ e.value = .foreign) :
      Fetched shelf put load key store (r, put shelf' { store with host })
  | loaded (r : Except Error V) (shelf' : Shelf σ K V) (before after : σ) (store' : Store σ)
      (ran : load key { store with host := before } = (r, store'))
      (updated : shelf.Updated shelf' fun e => e.key = key ∧ ∃ v, r = .ok v ∧ e.value = .own v)
      (own : shelf.foreign = false) :
      Fetched shelf put load key store (r, put shelf' { store' with host := after })

def told (shelf : Shelf σ K V) (changes : List (Change K)) (host : σ) : σ :=
  changes.foldl (fun host change => shelf.notice change host) host

omit [DecidableEq K] in
theorem told_store (shelf : Shelf σ K V) (changes : List (Change K)) (store : Store σ) :
    Cache.told (fun change w => Store.onHost (shelf.notice change) w) changes store =
      { store with host := shelf.told changes store.host } := by
  induction changes generalizing store with
  | nil => rfl
  | cons change rest ih => exact ih (store.onHost (shelf.notice change))

omit [DecidableEq K] in
theorem unwrap_held {shelf : Shelf σ K V} {key : K} {h : Held V} {e : Entry K (Held V)}
    (member : e ∈ shelf.cache.entries) (same : e.key = key) (value : e.value = h) :
    shelf.Answers key (shelf.unwrap (.value h)) := by
  cases h with
  | own v => exact .held e v member same value
  | foreign => exact .foreign (Or.inr ⟨e, member, value⟩)

omit [DecidableEq K] in
theorem Updated.mono {shelf shelf' : Shelf σ K V} {added added' : Entry K (Held V) → Prop}
    (h : shelf.Updated shelf' added) (wider : ∀ e, added e → added' e) :
    shelf.Updated shelf' added' :=
  ⟨h.foreign, h.consumer, h.inFlight, fun e member => (h.entries e member).imp_right (wider e)⟩

omit [DecidableEq K] in
theorem Updated.idle {shelf shelf' : Shelf σ K V} {added : Entry K (Held V) → Prop}
    (h : shelf.Updated shelf' added) (idle : shelf.cache.inFlight = []) :
    shelf'.cache.inFlight = [] := by
  rw [List.eq_nil_iff_forall_not_mem]
  intro k flight
  have before := h.inFlight k flight
  rw [idle] at before
  cases before

theorem updated_lookup (shelf : Shelf σ K V) (key : K) (added : Entry K (Held V) → Prop) :
    shelf.Updated { shelf with cache := (shelf.cache.lookup key).2.2 } added := by
  refine ⟨rfl, rfl, ?_, fun e member => Or.inl (Cache.mem_lookup member)⟩
  intro k flight
  rwa [Cache.inFlight_lookup] at flight

/-- A computed value is stored, and its key is no longer in flight. -/
theorem updated_stored (shelf : Shelf σ K V) (key : K) (h : Held V) :
    shelf.Updated
      { shelf with cache := ((Cache.computing key shelf.cache).store key h).2.settle key }
      fun e => e.key = key ∧ e.value = h := by
  refine ⟨rfl, rfl, ?_, ?_⟩
  · intro k flight
    obtain ⟨flight, other⟩ := Cache.inFlight_settle flight
    rw [Cache.inFlight_store] at flight
    exact Cache.inFlight_computing flight other
  · intro e member
    exact (Cache.mem_store member).imp_left Cache.mem_computing

/-- A computation that fails stores nothing. -/
theorem updated_failed (shelf : Shelf σ K V) (key : K) (added : Entry K (Held V) → Prop) :
    shelf.Updated { shelf with cache := (Cache.computing key shelf.cache).settle key } added := by
  refine ⟨rfl, rfl, ?_, fun e member => Or.inl (Cache.mem_computing member)⟩
  intro k flight
  obtain ⟨flight, other⟩ := Cache.inFlight_settle flight
  exact Cache.inFlight_computing flight other

variable [WellFoundedRelation K]

omit [DecidableEq K] in
theorem compute_foreign {shelf : Shelf σ K V} (mixed : shelf.foreign = true)
    (load : K → Attempt (Store σ) Error V) (key : K) (store : Store σ) :
    (shelf.world load Store.onHost).compute key store = (.done (.ok .foreign), store) := by
  simp only [world, mixed, if_true]

omit [DecidableEq K] in
theorem compute_load {shelf : Shelf σ K V} (own : shelf.foreign = false)
    {load : K → Attempt (Store σ) Error V} {key : K} {store store' : Store σ} {r : Except Error V}
    (ran : load key store = (r, store')) :
    (shelf.world load Store.onHost).compute key store = (.done (r.map .own), store') := by
  simp only [world, own, ran, Bool.false_eq_true, if_false]

/-! ### Requests case by case -/

section

variable (put : Shelf σ K V → Store σ → Store σ) (load : K → Attempt (Store σ) Error V) {key : K}
  (store : Store σ) {shelf : Shelf σ K V}

theorem fetch_of_hit {h : Held V} (held : (shelf.cache.lookup key).1 = some h) :
    Store.fetch shelf put load key store = (shelf.unwrap (.value h),
      put { shelf with cache := (shelf.cache.lookup key).2.2 }
        { store with host := shelf.told (shelf.cache.lookup key).2.1 store.host }) := by
  simp only [Store.fetch, Shelf.get]
  rw [Cache.get_of_held held]
  exact congrArg (fun w => (_, put _ w)) (shelf.told_store _ store)

theorem fetch_of_inFlight (missed : (shelf.cache.lookup key).1 = none)
    (flight : key ∈ shelf.cache.inFlight) :
    Store.fetch shelf put load key store = (shelf.unwrap .waiting,
      put { shelf with cache := (shelf.cache.lookup key).2.2 }
        { store with host := shelf.told (shelf.cache.lookup key).2.1 store.host }) := by
  simp only [Store.fetch, Shelf.get]
  rw [Cache.get_of_inFlight missed flight]
  exact congrArg (fun w => (_, put _ w)) (shelf.told_store _ store)

theorem fetch_of_foreign (missed : (shelf.cache.lookup key).1 = none)
    (idle : key ∉ shelf.cache.inFlight) (mixed : shelf.foreign = true) :
    Store.fetch shelf put load key store = (shelf.unwrap (.value .foreign),
      put { shelf with cache := ((Cache.computing key shelf.cache).store key .foreign).2.settle key }
        { store with
          host := shelf.told ((Cache.computing key shelf.cache).store key .foreign).1
            (shelf.told (shelf.cache.lookup key).2.1 store.host) }) := by
  simp only [Store.fetch, Shelf.get]
  rw [Cache.get_of_missed missed idle (compute_foreign mixed load key _)]
  have before := shelf.told_store (shelf.cache.lookup key).2.1 store
  change Cache.told (shelf.world load Store.onHost).notice _ _ = _ at before
  rw [before]
  exact congrArg (fun w => (_, put _ w)) (shelf.told_store _ _)

section

variable {load} {store} {store' : Store σ} (missed : (shelf.cache.lookup key).1 = none)
  (idle : key ∉ shelf.cache.inFlight) (own : shelf.foreign = false)

include missed idle own

theorem fetch_of_failed {err : Error}
    (ran : load key { store with host := shelf.told (shelf.cache.lookup key).2.1 store.host } =
      (.error err, store')) :
    Store.fetch shelf put load key store =
      (.error err, put { shelf with cache := (Cache.computing key shelf.cache).settle key } store') := by
  simp only [Store.fetch, Shelf.get]
  have before := shelf.told_store (shelf.cache.lookup key).2.1 store
  change Cache.told (shelf.world load Store.onHost).notice _ _ = _ at before
  rw [Cache.get_of_missed missed idle (compute_load own (before ▸ ran))]
  rfl

theorem fetch_of_loaded {v : V}
    (ran : load key { store with host := shelf.told (shelf.cache.lookup key).2.1 store.host } =
      (.ok v, store')) :
    Store.fetch shelf put load key store = (.ok v,
      put { shelf with cache := ((Cache.computing key shelf.cache).store key (.own v)).2.settle key }
        { store' with
          host := shelf.told ((Cache.computing key shelf.cache).store key (.own v)).1 store'.host }) := by
  simp only [Store.fetch, Shelf.get]
  have before := shelf.told_store (shelf.cache.lookup key).2.1 store
  change Cache.told (shelf.world load Store.onHost).notice _ _ = _ at before
  rw [Cache.get_of_missed missed idle (compute_load own (before ▸ ran))]
  exact congrArg (fun w => (_, put _ w)) (shelf.told_store _ store')

end

theorem fetched (shelf : Shelf σ K V) (put : Shelf σ K V → Store σ → Store σ)
    (load : K → Attempt (Store σ) Error V) (key : K) (store : Store σ) :
    Fetched shelf put load key store (Store.fetch shelf put load key store) := by
  cases seen : (shelf.cache.lookup key).1 with
  | some h =>
    obtain ⟨e, member, same, value⟩ := Cache.lookup_held seen
    rw [fetch_of_hit put load store seen]
    exact .answered _ _ _ (unwrap_held member same value) (shelf.updated_lookup key _)
  | none =>
    by_cases flight : key ∈ shelf.cache.inFlight
    · rw [fetch_of_inFlight put load store seen flight]
      exact .answered _ _ _ (.inFlight flight _) (shelf.updated_lookup key _)
    · cases mixed : shelf.foreign with
      | true =>
        rw [fetch_of_foreign put load store seen flight mixed]
        exact .answered _ _ _ (.foreign (Or.inl mixed))
          ((shelf.updated_stored key .foreign).mono fun e added => ⟨mixed, added.2⟩)
      | false =>
        rcases ran : load key { store with host := shelf.told (shelf.cache.lookup key).2.1 store.host } with
          ⟨err | v, store'⟩
        · rw [fetch_of_failed put seen flight mixed ran]
          exact .loaded (.error err) _ _ store'.host store' ran (shelf.updated_failed key _) mixed
        · rw [fetch_of_loaded put seen flight mixed ran]
          exact .loaded (.ok v) _ _ _ store' ran
            ((shelf.updated_stored key (.own v)).mono fun e added => ⟨added.1, v, rfl, added.2⟩) mixed

/-! ### Shelves that hold what is right -/

/-- The shelf is the consumer's, and it holds what is right, unless it is `mixed`. -/
structure Keeps (mixed : Bool) (consumer : String) (right : K → V → Prop) (shelf : Shelf σ K V) :
    Prop where
  foreign : shelf.foreign = mixed
  consumer : shelf.consumer = consumer
  idle : shelf.cache.inFlight = []
  entries : ∀ e ∈ shelf.cache.entries, e.value.Right mixed (right e.key)

namespace Keeps

variable {mixed : Bool} {consumer : String} {right : K → V → Prop} {shelf shelf' : Shelf σ K V}

omit [DecidableEq K] [WellFoundedRelation K] in
theorem updated {added : Entry K (Held V) → Prop} (h : shelf.Keeps mixed consumer right)
    (updated : shelf.Updated shelf' added)
    (new : ∀ e, added e → e.value.Right mixed (right e.key)) : shelf'.Keeps mixed consumer right := by
  refine ⟨updated.foreign.trans h.foreign, updated.consumer.trans h.consumer, updated.idle h.idle,
    fun e member => ?_⟩
  rcases updated.entries e member with old | added
  · exact h.entries e old
  · exact new e added

omit [DecidableEq K] [WellFoundedRelation K] in
theorem mono {right' : K → V → Prop} (h : shelf.Keeps mixed consumer right)
    (wider : ∀ k v, right k v → right' k v) : shelf.Keeps mixed consumer right' := by
  refine ⟨h.foreign, h.consumer, h.idle, fun e member => ?_⟩
  have held := h.entries e member
  cases value : e.value with
  | own v =>
    rw [value] at held
    exact ⟨held.1, wider _ _ held.2⟩
  | foreign =>
    rw [value] at held
    exact held

omit [DecidableEq K] [WellFoundedRelation K] in
/-- Unless it is mixed, the shelf answers with what is right. -/
theorem answers (h : shelf.Keeps false consumer right) {key : K} {r : Except Error V}
    (answers : shelf.Answers key r) : ∃ v, r = .ok v ∧ right key v := by
  cases answers with
  | held e v member same value =>
    have held := h.entries e member
    rw [value] at held
    exact ⟨v, rfl, same ▸ held.2⟩
  | foreign foreign =>
    rcases foreign with foreign | ⟨e, member, value⟩
    · rw [h.foreign] at foreign
      cases foreign
    · have held := h.entries e member
      rw [value] at held
      cases held
  | inFlight flight reason =>
    rw [h.idle] at flight
    cases flight

/-- A mixed shelf refuses all requests. -/
theorem refuses (h : shelf.Keeps true consumer right) (put : Shelf σ K V → Store σ → Store σ)
    (load : K → Attempt (Store σ) Error V) (key : K) (store : Store σ) :
    ∃ shelf' host, Store.fetch shelf put load key store =
        (.error (.cacheTypeMismatch consumer), put shelf' { store with host }) ∧
      shelf'.Keeps true consumer right := by
  have fetched := shelf.fetched put load key store
  generalize Store.fetch shelf put load key store = out at fetched
  cases fetched with
  | answered r shelf' host answers updated =>
    refine ⟨shelf', host, congrArg (·, _) ?_, h.updated updated fun e added => ?_⟩
    · cases answers with
      | held e v member same value =>
        have held := h.entries e member
        rw [value] at held
        cases held.1
      | foreign _ => rw [h.consumer]
      | inFlight flight reason =>
        rw [h.idle] at flight
        cases flight
    · rw [added.2]
      rfl
  | loaded r shelf' before after store' ran updated own =>
    rw [h.foreign] at own
    cases own

end Keeps

/-- A loader that leaves the store alone sees nothing of it, and the request no more than the host. -/
theorem fetch_pure (shelf : Shelf σ K V) (key : K) (v : V) :
    ∃ answer : σ → Except Error V × Shelf σ K V × σ, ∀ put store,
      Store.fetch shelf put (fun _ => pure v) key store =
        ((answer store.host).1,
          put (answer store.host).2.1 { store with host := (answer store.host).2.2 }) := by
  cases seen : (shelf.cache.lookup key).1 with
  | some h =>
    let answer (host : σ) := (shelf.unwrap (.value h),
      { shelf with cache := (shelf.cache.lookup key).2.2 }, shelf.told (shelf.cache.lookup key).2.1 host)
    exact ⟨answer, fun put store => fetch_of_hit put _ store seen⟩
  | none =>
    by_cases flight : key ∈ shelf.cache.inFlight
    · let answer (host : σ) := (shelf.unwrap .waiting,
        { shelf with cache := (shelf.cache.lookup key).2.2 }, shelf.told (shelf.cache.lookup key).2.1 host)
      exact ⟨answer, fun put store => fetch_of_inFlight put _ store seen flight⟩
    · let computed := Cache.computing key shelf.cache
      let stored (r : Except Error V) (h : Held V) (host : σ) :=
        (r, { shelf with cache := (computed.store key h).2.settle key },
          shelf.told (computed.store key h).1 (shelf.told (shelf.cache.lookup key).2.1 host))
      cases mixed : shelf.foreign with
      | true =>
        exact ⟨stored (shelf.unwrap (.value .foreign)) .foreign, fun put store =>
          fetch_of_foreign put _ store seen flight mixed⟩
      | false =>
        refine ⟨stored (.ok v) (.own v), fun put store => ?_⟩
        let load : K → Attempt (Store σ) Error V := fun _ => pure v
        have ran (s : Store σ) : load key s = (.ok v, s) := rfl
        exact fetch_of_loaded put seen flight mixed (ran _)

end

end Shelf

end Logicless
