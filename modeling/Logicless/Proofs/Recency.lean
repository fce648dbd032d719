import Logicless.Proofs.Accounting
import Logicless.Proofs.Retention
import Mathlib

/-!
# Which keys a bounded cache holds

A cache whose entries do not expire holds the keys that were accessed last, as many of them as it has
room for (`Cache.serveAll_recency`). They stand in the order of their last accesses, so that the one
that has to make room is the one whose last access is longest ago.
-/

namespace Logicless

namespace Cache

variable {K V E W : Type} [DecidableEq K]

/-! ### Accesses, the latest first -/

def ranked : List K → List K
  | [] => []
  | key :: earlier => key :: (ranked earlier).filter fun k => k ≠ key

def fit (maxSize : Option Nat) (keys : List K) : List K :=
  match maxSize with
  | none => keys
  | some n => keys.take n

theorem mem_ranked {recent : List K} {key : K} : key ∈ ranked recent ↔ key ∈ recent := by
  induction recent with
  | nil => exact Iff.rfl
  | cons k earlier ih =>
    rw [ranked, List.mem_cons, List.mem_cons, List.mem_filter, ih]
    by_cases same : key = k <;> simp [same]

theorem ranked_nodup (recent : List K) : (ranked recent).Nodup := by
  induction recent with
  | nil => exact List.nodup_nil
  | cons k earlier ih =>
    refine List.nodup_cons.mpr ⟨?_, ih.filter _⟩
    simp [List.mem_filter]

theorem length_ranked (recent : List K) : (ranked recent).length = recent.toFinset.card := by
  rw [← List.toFinset_card_of_nodup (ranked_nodup recent)]
  congr 1
  ext key
  rw [List.mem_toFinset, List.mem_toFinset, mem_ranked]

theorem takeWhile_filter {key other : K} (different : key ≠ other) (keys : List K) :
    (keys.filter fun k => k ≠ other).takeWhile (· ≠ key) =
      (keys.takeWhile (· ≠ key)).filter fun k => k ≠ other := by
  induction keys with
  | nil => rfl
  | cons k keys ih =>
    by_cases gone : k = other
    · subst gone
      simpa [different.symm] using ih
    · by_cases found : k = key
      · simp [found, different]
      · simpa [found, gone] using ih

/-- The keys before one in the order are those that have been accessed since. -/
theorem ranked_takeWhile (recent : List K) (key : K) :
    (ranked recent).takeWhile (· ≠ key) = ranked (recent.takeWhile (· ≠ key)) := by
  induction recent with
  | nil => rfl
  | cons k earlier ih =>
    by_cases found : k = key
    · simp [ranked, found]
    · have others := takeWhile_filter (Ne.symm found) (ranked earlier)
      rw [List.takeWhile_cons_of_pos (by simpa using found), ranked, ranked,
        List.takeWhile_cons_of_pos (by simpa using found), others, ih]

theorem mem_take_iff {keys : List K} {key : K} {n : Nat} :
    key ∈ keys.take n ↔ key ∈ keys ∧ (keys.takeWhile (· ≠ key)).length < n := by
  induction keys generalizing n with
  | nil => simp
  | cons k keys ih =>
    cases n with
    | zero => simp
    | succ n =>
      rw [List.take_succ_cons, List.mem_cons, ih]
      by_cases found : k = key
      · simp [found]
      · simp [found, Ne.symm found]

/-- There is room for a key if fewer keys than fit have been accessed since. -/
theorem mem_fit_ranked {maxSize : Option Nat} {recent : List K} {key : K} :
    key ∈ fit maxSize (ranked recent) ↔ key ∈ recent ∧
      ∀ n, maxSize = some n → (recent.takeWhile (· ≠ key)).toFinset.card < n := by
  cases maxSize with
  | none => simp [fit, mem_ranked]
  | some n =>
    rw [fit, mem_take_iff, mem_ranked, ranked_takeWhile, length_ranked]
    simp

theorem takeWhile_split {earlier later : List K} {key : K} (outside : key ∉ later) :
    (later ++ key :: earlier).takeWhile (· ≠ key) = later := by
  have all : ∀ k ∈ later, decide (k ≠ key) = true := fun k member => by
    simpa using ne_of_mem_of_not_mem member outside
  rw [List.takeWhile_append_of_pos all, List.takeWhile_cons_of_neg (by simp), List.append_nil]

/-- Of two keys, the one that has not been accessed since the other has more keys before it. -/
theorem card_lt_of_not_mem {recent : List K} {key other : K} (accessed : key ∈ recent)
    (different : other ≠ key) (before : other ∉ recent.takeWhile (· ≠ key)) :
    (recent.takeWhile (· ≠ key)).toFinset.card < (recent.takeWhile (· ≠ other)).toFinset.card := by
  obtain ⟨later, earlier, rfl, outside⟩ := List.eq_append_cons_of_mem accessed
  rw [takeWhile_split outside] at before ⊢
  have all : ∀ k ∈ later, decide (k ≠ other) = true := fun k member => by
    simpa using ne_of_mem_of_not_mem member before
  rw [List.takeWhile_append_of_pos all, List.takeWhile_cons_of_pos (by simpa using different.symm)]
  refine Finset.card_lt_card (Finset.ssubset_iff.mpr ⟨key, by simpa using outside, fun k member => ?_⟩)
  rcases Finset.mem_insert.mp member with rfl | member
  · simp
  · simp [List.mem_toFinset.mp member]

/-- It makes no difference whether a key that is accessed was held. -/
theorem take_filter {keys : List K} (distinct : keys.Nodup) (key : K) (n : Nat) :
    ((keys.take (n + 1)).filter fun k => k ≠ key).take n = (keys.filter fun k => k ≠ key).take n := by
  induction keys generalizing n with
  | nil => rfl
  | cons k keys ih =>
    obtain ⟨outside, distinct⟩ := List.nodup_cons.mp distinct
    rw [List.take_succ_cons]
    by_cases found : k = key
    · subst found
      have all : (keys.filter fun k' => k' ≠ k) = keys :=
        List.filter_eq_self.mpr fun x member => by simpa using ne_of_mem_of_not_mem member outside
      have kept : ((keys.take n).filter fun k' => k' ≠ k) = keys.take n :=
        List.filter_eq_self.mpr fun x member => by
          simpa using ne_of_mem_of_not_mem (List.mem_of_mem_take member) outside
      rw [List.filter_cons_of_neg (by simp), List.filter_cons_of_neg (by simp), all, kept, List.take_take,
        Nat.min_self]
    · rw [List.filter_cons_of_pos (by simpa using found), List.filter_cons_of_pos (by simpa using found)]
      cases n with
      | zero => rfl
      | succ n => rw [List.take_succ_cons, List.take_succ_cons, ih distinct n]

theorem fit_ranked (maxSize : Option Nat) (key : K) (recent : List K) :
    fit maxSize (key :: (fit maxSize (ranked recent)).filter fun k => k ≠ key) =
      fit maxSize (ranked (key :: recent)) := by
  cases maxSize with
  | none => rfl
  | some n =>
    cases n with
    | zero => rfl
    | succ n =>
      simp only [fit, ranked, List.take_succ_cons]
      rw [take_filter (ranked_nodup recent)]

omit [DecidableEq K] in
theorem fit_of_length_le {maxSize : Option Nat} {keys : List K}
    (bounded : ∀ n, maxSize = some n → keys.length ≤ n) : fit maxSize keys = keys := by
  cases maxSize with
  | none => rfl
  | some n => exact List.take_of_length_le (bounded n rfl)

/-! ### Operations -/

omit [DecidableEq K] in
theorem keys_evict (maxSize : Option Nat) (entries : List (Entry K V)) :
    (evict maxSize entries).1.map (·.key) = fit maxSize (entries.map (·.key)) := by
  cases maxSize with
  | none => rfl
  | some n => exact List.map_take

theorem find?_of_mem_keys {c : Cache K V} {key : K} (held : key ∈ c.keys) :
    ∃ e, c.find? key = some e := by
  obtain ⟨e, member, same⟩ := List.mem_map.mp held
  exact Option.isSome_iff_exists.mp (List.find?_isSome.mpr ⟨e, member, by simpa using same⟩)

theorem find?_of_not_mem_keys {c : Cache K V} {key : K} (absent : key ∉ c.keys) :
    c.find? key = none := by
  rw [find?, List.find?_eq_none]
  intro e member same
  exact absent (List.mem_map.mpr ⟨e, member, by simpa using same⟩)

/-- A key that is looked up comes to the front. -/
theorem lookup_of_mem_keys {c : Cache K V} {key : K} (lasting : c.settings.expiration = none)
    (held : key ∈ c.keys) :
    ∃ v c', c.lookup key = (some v, [], c') ∧ c'.settings = c.settings ∧ c'.inFlight = c.inFlight ∧
      c'.keys = key :: c.keys.filter fun k => k ≠ key := by
  obtain ⟨e, found⟩ := find?_of_mem_keys held
  obtain ⟨_, same⟩ := find?_some found
  refine ⟨_, _, lookup_live lasting found, rfl, rfl, ?_⟩
  rw [← keys_erase]
  exact congrArg (· :: _) same

theorem keys_store (c : Cache K V) (key : K) (v : V)
    (bounded : ∀ n, c.settings.maxSize = some n → c.keys.length ≤ n) :
    (c.store key v).2.keys = fit c.settings.maxSize (key :: c.keys.filter fun k => k ≠ key) := by
  by_cases zero : c.settings.maxSize = some 0
  · have empty : c.keys = [] := List.length_eq_zero_iff.mp (Nat.le_zero.mp (bounded 0 zero))
    simp only [store, zero, if_true]
    exact empty
  · simp only [store, zero, if_false]
    rw [← keys_erase]
    exact keys_evict _ _

theorem settings_store (c : Cache K V) (key : K) (v : V) :
    (c.store key v).2.settings = c.settings := by
  unfold store
  split <;> rfl

end Cache

/-! ### Computations that do not use the cache -/

inductive Computation.ComesTo {K V E : Type} {below : K → K → Prop} {k : K} :
    Computation V E below k → Outcome E V → Prop where
  | value (v : V) : ComesTo (.done (.ok v)) (.value v)
  | failed (e : E) : ComesTo (.done (.error e)) (.failed e)
  | aborted : ComesTo .abort .aborted
  | wait (nanos : Nat) {next : Computation V E below k} {outcome : Outcome E V}
      (h : ComesTo next outcome) : ComesTo (.wait nanos next) outcome

theorem Computation.ComesTo.run {K V E W : Type} [DecidableEq K] {below : K → K → Prop} {k : K}
    {computation : Computation V E below k} {outcome : Outcome E V} (h : computation.ComesTo outcome)
    (notice : Change K → W → W) (ask : (key : K) → below key k → Cache.Request K V W (Outcome E V))
    (c : Cache K V) (w : W) :
    ∃ nanos, computation.run notice ask (c, w) = (outcome, c.wait nanos, w) := by
  induction h generalizing c with
  | value v => exact ⟨0, rfl⟩
  | failed e => exact ⟨0, rfl⟩
  | aborted => exact ⟨0, rfl⟩
  | wait nanos _ ih =>
    obtain ⟨more, ran⟩ := ih (c.wait nanos)
    refine ⟨nanos + more, ?_⟩
    rw [Cache.wait, ← Nat.add_assoc]
    exact ran

namespace Cache

variable {K V E W : Type} [DecidableEq K]

section

variable [order : WellFoundedRelation K] {world : Computing K V E W order.rel} {c : Cache K V}
  {key : K} {w : W} {outcome : Outcome E V}

omit order in
/-- The cache when the value of an absent key is computed. -/
theorem computing_of_not_mem_keys (absent : key ∉ c.keys) (nanos : Nat) :
    ((computing key c).wait nanos).settings = c.settings ∧
      ((computing key c).wait nanos).inFlight = key :: c.inFlight ∧
      ((computing key c).wait nanos).entries = c.entries := by
  have missed := lookup_absent (find?_of_not_mem_keys absent)
  rw [computing, missed]
  exact ⟨rfl, rfl, rfl⟩

/-- The request for an absent key runs its computation. -/
theorem get_of_not_mem_keys (idle : c.inFlight = []) (absent : key ∉ c.keys)
    (alone : (world.compute key w).1.ComesTo outcome) :
    ∃ nanos, get world key (c, w) = closed world.notice key
      (outcome, (computing key c).wait nanos, (world.compute key w).2) := by
  have missed := lookup_absent (find?_of_not_mem_keys absent)
  have free : key ∉ c.inFlight := by
    rw [idle]
    exact List.not_mem_nil
  obtain ⟨nanos, ran⟩ := alone.run world.notice (fun k _ => get world k) (computing key c)
    (world.compute key w).2
  have computed : world.compute key (told world.notice (c.lookup key).2.1 w) =
      ((world.compute key w).1, (world.compute key w).2) := by
    rw [missed]
    rfl
  refine ⟨nanos, ?_⟩
  rw [get_of_computation (by rw [missed]) free computed, ran]

/-- A value that is computed is stored before those that are held. -/
theorem get_of_new_value (idle : c.inFlight = [])
    (bounded : ∀ n, c.settings.maxSize = some n → c.keys.length ≤ n) (absent : key ∉ c.keys) {v : V}
    (alone : (world.compute key w).1.ComesTo (.value v)) :
    ∃ c' changes, get world key (c, w) =
        (.value v, c', told world.notice changes (world.compute key w).2) ∧
      c'.settings = c.settings ∧ c'.inFlight = [] ∧
      c'.keys = fit c.settings.maxSize (key :: c.keys.filter fun k => k ≠ key) ∧
      ∀ e ∈ c'.entries, e ∈ c.entries ∨ (e.key = key ∧ e.value = v) := by
  obtain ⟨nanos, got⟩ := get_of_not_mem_keys idle absent alone
  obtain ⟨settings, inFlight, entries⟩ := computing_of_not_mem_keys absent nanos
  generalize (computing key c).wait nanos = before at got settings inFlight entries
  have keys : before.keys = c.keys := congrArg (List.map Entry.key) entries
  refine ⟨(before.store key v).2.settle key, (before.store key v).1, got,
    (settings_store before key v).trans settings, ?_, ?_, ?_⟩
  · rw [settle, inFlight_store, inFlight, idle]
    simp
  · have stored := keys_store before key v (by rw [settings, keys]; exact bounded)
    rw [settings, keys] at stored
    exact stored
  · intro e member
    rw [← entries]
    exact mem_store member

/-- A request that comes to no value leaves what is held as it is. -/
theorem get_of_no_value (idle : c.inFlight = []) (absent : key ∉ c.keys)
    (alone : (world.compute key w).1.ComesTo outcome) (failed : ∀ v, outcome ≠ .value v) :
    ∃ c', get world key (c, w) = (outcome, c', (world.compute key w).2) ∧
      c'.settings = c.settings ∧ c'.inFlight = [] ∧ c'.entries = c.entries := by
  obtain ⟨nanos, got⟩ := get_of_not_mem_keys idle absent alone
  obtain ⟨settings, inFlight, entries⟩ := computing_of_not_mem_keys absent nanos
  generalize (computing key c).wait nanos = before at got settings inFlight entries
  have closes : closed world.notice key (outcome, before, (world.compute key w).2) =
      (outcome, before.settle key, (world.compute key w).2) := by
    cases outcome with
    | value v => exact absurd rfl (failed v)
    | _ => rfl
  refine ⟨before.settle key, got.trans closes, settings, ?_, entries⟩
  rw [settle, inFlight, idle]
  simp

end

/-- No entry expires, and nothing is being computed. The keys that there is room for are held in the
order of their last accesses. -/
structure Ranks (limits : CacheSettings) (recent : List K) (c : Cache K V) : Prop where
  settings : c.settings = limits
  lasting : limits.expiration = none
  idle : c.inFlight = []
  keys : c.keys = fit limits.maxSize (ranked recent)

namespace Ranks

variable {limits : CacheSettings} {recent : List K} {c c' : Cache K V} {key : K}

theorem expiration (h : c.Ranks limits recent) : c.settings.expiration = none := by
  rw [h.settings, h.lasting]

theorem bounded (h : c.Ranks limits recent) (n : Nat) (room : c.settings.maxSize = some n) :
    c.keys.length ≤ n := by
  rw [h.settings] at room
  rw [h.keys, room]
  exact List.length_take_le n _

/-- Nothing but the clock has moved. -/
theorem of_eq (h : c.Ranks limits recent) (settings : c'.settings = c.settings)
    (inFlight : c'.inFlight = c.inFlight) (keys : c'.keys = c.keys) : c'.Ranks limits recent :=
  ⟨settings.trans h.settings, h.lasting, inFlight.trans h.idle, keys.trans h.keys⟩

theorem empty (lasting : limits.expiration = none) :
    (Cache.empty limits : Cache K V).Ranks limits [] := by
  refine ⟨rfl, lasting, rfl, ?_⟩
  cases limits.maxSize with
  | none => rfl
  | some n => exact List.take_nil.symm

/-- The key that loses its place to another is the one whose last access is longest ago. -/
theorem oldest {other : K} {accessed : Option K} (h : c.Ranks limits recent)
    (h' : c'.Ranks limits (accessed.toList ++ recent)) (held : key ∈ c.keys) (gone : key ∉ c'.keys)
    (beside : other ∈ c.keys) (different : other ≠ key) :
    other ∈ recent.takeWhile (· ≠ key) := by
  rw [h.keys, mem_fit_ranked] at held beside
  rw [h'.keys, mem_fit_ranked] at gone
  by_contra before
  have more := card_lt_of_not_mem held.1 different before
  refine gone ⟨List.mem_append_right _ held.1, fun n room => ?_⟩
  have fits := held.2 n room
  have fits' := beside.2 n room
  cases accessed with
  | none => exact fits
  | some k =>
    by_cases same : k = key
    · have latest : ((some k).toList ++ recent).takeWhile (· ≠ key) = [] :=
        List.takeWhile_cons_of_neg (by simpa using same)
      rw [latest]
      exact Nat.lt_of_le_of_lt (Nat.zero_le _) fits
    · have since : ((some k).toList ++ recent).takeWhile (· ≠ key) =
          k :: recent.takeWhile (· ≠ key) := List.takeWhile_cons_of_pos (by simpa using same)
      rw [since, List.toFinset_cons]
      have one := Finset.card_insert_le k (recent.takeWhile (· ≠ key)).toFinset
      omega

/-- A key that is held comes to the front. -/
theorem lookup_of_mem (h : c.Ranks limits recent) (held : key ∈ c.keys) :
    ∃ v c', c.lookup key = (some v, [], c') ∧ c'.Ranks limits (key :: recent) := by
  obtain ⟨v, c', found, settings, inFlight, keys⟩ := lookup_of_mem_keys h.expiration held
  refine ⟨v, c', found, settings.trans h.settings, h.lasting, inFlight.trans h.idle, ?_⟩
  rw [← fit_ranked, ← h.keys, keys]
  refine (fit_of_length_le fun n room => ?_).symm
  have fewer : (c.keys.filter fun k => k ≠ key).length < c.keys.length :=
    List.length_filter_lt_length_iff_exists.mpr ⟨key, held, by simp⟩
  have bounded := h.bounded n (h.settings ▸ room)
  rw [List.length_cons]
  omega

variable [order : WellFoundedRelation K] {world : Computing K V E W order.rel}
  {outcome : Outcome E V} {w : W}

/-- A key that is held is not computed. -/
theorem get_of_mem (h : c.Ranks limits recent) (held : key ∈ c.keys) :
    ∃ v c', c'.Ranks limits (key :: recent) ∧
      ∀ (world : Computing K V E W order.rel) (w : W), get world key (c, w) = (.value v, c', w) := by
  obtain ⟨v, c', found, ranks⟩ := h.lookup_of_mem held
  refine ⟨v, c', ranks, fun world w => ?_⟩
  rw [get_of_held (by rw [found]), found]
  rfl

/-- A value that is computed makes its key the first. -/
theorem get_of_value (h : c.Ranks limits recent) (absent : key ∉ c.keys) {v : V}
    (alone : (world.compute key w).1.ComesTo (.value v)) :
    (get world key (c, w)).1 = .value v ∧
      (get world key (c, w)).2.1.Ranks limits (key :: recent) := by
  obtain ⟨c', changes, got, settings, idle, keys, _⟩ :=
    get_of_new_value h.idle h.bounded absent alone
  rw [got]
  refine ⟨rfl, settings.trans h.settings, h.lasting, idle, ?_⟩
  rw [keys, h.settings, h.keys, fit_ranked]

/-- A request that fails leaves the keys as they are. -/
theorem get_of_failed (h : c.Ranks limits recent) (absent : key ∉ c.keys)
    (alone : (world.compute key w).1.ComesTo outcome) (failed : ∀ v, outcome ≠ .value v) :
    (get world key (c, w)).1 = outcome ∧ (get world key (c, w)).2.1.Ranks limits recent := by
  obtain ⟨c', got, settings, idle, entries⟩ := get_of_no_value h.idle absent alone failed
  rw [got]
  have keys : c'.keys = c.keys := congrArg (List.map Entry.key) entries
  exact ⟨rfl, settings.trans h.settings, h.lasting, idle, keys.trans h.keys⟩

end Ranks

/-! ### Runs of requests -/

/-- The demand leaves alone what is held, but for what it finds or computes. -/
def Demand.retains : Demand K → Bool
  | .invalidate _ | .clear => false
  | _ => true

variable [order : WellFoundedRelation K] (world : Computing K V E W order.rel)

def accessed? (demand : Demand K) (s : Cache K V × W) : Option K :=
  match demand with
  | .get key =>
    match (get world key s).1 with
    | .value _ => some key
    | _ => none
  | .getIfPresent key => (getIfPresent world.notice key s).1.map fun _ => key
  | _ => none

/-- The keys whose values demands find or compute, the latest first. -/
def accesses : List (Demand K) → Cache K V × W → List K
  | [], _ => []
  | demand :: rest, s => accesses rest (serve world demand s).2 ++ (accessed? world demand s).toList

variable {world} {limits : CacheSettings} {recent : List K} {outcome : K → Outcome E V}
  {s : Cache K V × W}

theorem Ranks.get (alone : ∀ key w, (world.compute key w).1.ComesTo (outcome key))
    (h : s.1.Ranks limits recent) (key : K) :
    (Cache.get world key s).2.1.Ranks limits ((accessed? world (.get key) s).toList ++ recent) := by
  obtain ⟨c, w⟩ := s
  rw [accessed?]
  by_cases held : key ∈ c.keys
  · obtain ⟨v, c', ranks, got⟩ := h.get_of_mem held
    rw [got]
    exact ranks
  · have alone := alone key w
    cases comes : outcome key with
    | value v =>
      rw [comes] at alone
      obtain ⟨got, ranks⟩ := h.get_of_value held alone
      rw [got]
      exact ranks
    | failed | aborted | waiting =>
      rw [comes] at alone
      obtain ⟨got, ranks⟩ := h.get_of_failed held alone nofun
      rw [got]
      exact ranks

theorem Ranks.getIfPresent (h : s.1.Ranks limits recent) (key : K) :
    (Cache.getIfPresent world.notice key s).2.1.Ranks limits
      ((accessed? world (.getIfPresent key) s).toList ++ recent) := by
  obtain ⟨c, w⟩ := s
  rw [accessed?, Cache.getIfPresent, perform]
  by_cases held : key ∈ c.keys
  · obtain ⟨v, c', found, ranks⟩ := h.lookup_of_mem held
    rw [found]
    exact ranks
  · rw [lookup_absent (find?_of_not_mem_keys held)]
    exact h.of_eq rfl rfl rfl

/-- A demand puts the key that it accesses before those accessed earlier. -/
theorem Ranks.serve (alone : ∀ key w, (world.compute key w).1.ComesTo (outcome key))
    (h : s.1.Ranks limits recent) {demand : Demand K} (retains : demand.retains = true) :
    (serve world demand s).2.1.Ranks limits ((accessed? world demand s).toList ++ recent) := by
  obtain ⟨c, w⟩ := s
  have purged : c.purge.2.Ranks limits recent := by
    rw [purge_lasting h.expiration]
    exact h.of_eq rfl rfl rfl
  cases demand with
  | get key => exact h.get alone key
  | getIfPresent key => exact h.getIfPresent key
  | present | size => exact purged
  | invalidate | clear => cases retains
  | wait nanos => exact h.of_eq rfl rfl rfl

/-- Demands put the keys that they access before those accessed earlier. -/
theorem Ranks.serveAll (alone : ∀ key w, (world.compute key w).1.ComesTo (outcome key))
    (h : s.1.Ranks limits recent) {demands : List (Demand K)}
    (retain : ∀ demand ∈ demands, demand.retains = true) :
    (serveAll world demands s).2.1.Ranks limits (accesses world demands s ++ recent) := by
  induction demands generalizing s recent with
  | nil => exact h
  | cons demand rest ih =>
    obtain ⟨own, others⟩ := List.forall_mem_cons.mp retain
    rw [accesses, List.append_assoc]
    exact ih (h.serve alone own) others

variable (world limits recent s) in
/-- What is known of a cache from the keys that have been accessed, the latest first. A key is held if,
since its last access, fewer other keys have been accessed than there is room for. It is then not computed
again. The key that loses its place is the one whose last access is longest ago. A request that fails
leaves the keys in their order. -/
structure Recency : Prop where
  held_iff : ∀ key, key ∈ s.1.keys ↔ key ∈ recent ∧
    ∀ n, limits.maxSize = some n → (recent.takeWhile (· ≠ key)).toFinset.card < n
  kept : ∀ key ∈ s.1.keys, ∃ v c', ∀ world' : Computing K V E W order.rel,
    get world' key s = (.value v, c', s.2)
  oldest : ∀ demand : Demand K, demand.retains = true → ∀ key ∈ s.1.keys,
    key ∉ (serve world demand s).2.1.keys →
      ∀ other ∈ s.1.keys, other ≠ key → other ∈ recent.takeWhile (· ≠ key)
  failed : ∀ key, (∀ v, (get world key s).1 ≠ .value v) → (get world key s).2.1.keys = s.1.keys

theorem Ranks.recency (alone : ∀ key w, (world.compute key w).1.ComesTo (outcome key))
    (h : s.1.Ranks limits recent) : Recency world limits recent s := by
  refine ⟨fun key => ?_, fun key held => ?_, fun demand retains key held gone other beside => ?_,
    fun key failed => ?_⟩
  · rw [h.keys, mem_fit_ranked]
  · obtain ⟨v, c', _, got⟩ := h.get_of_mem held
    exact ⟨v, c', fun world' => got world' s.2⟩
  · exact h.oldest (h.serve alone retains) held gone beside
  · have same := (h.get alone key).keys
    have none : accessed? world (.get key) s = none := by
      rw [accessed?]
      split
      · next v got => exact absurd got (failed v)
      · rfl
    rw [none] at same
    exact same.trans h.keys.symm

/-- After any requests to a cache whose entries do not expire, what it holds is told by the accesses. -/
theorem serveAll_recency (alone : ∀ key w, (world.compute key w).1.ComesTo (outcome key))
    (lasting : limits.expiration = none) {demands : List (Demand K)}
    (retain : ∀ demand ∈ demands, demand.retains = true) (w : W) :
    Recency world limits (accesses world demands (.empty limits, w))
      (serveAll world demands (.empty limits, w)).2 := by
  have start : Ranks limits [] ((empty limits, w) : Cache K V × W).1 := .empty lasting
  have served := start.serveAll alone retain
  rw [List.append_nil] at served
  exact served.recency alone

/-- The value of a number is the number itself, but 0 has none. -/
def positive : Computing Nat Nat Unit Unit (· < ·) where
  compute key w := (if key = 0 then .done (.error ()) else .done (.ok key), w)
  notice _ w := w

theorem positive_alone (key : Nat) (w : Unit) :
    (positive.compute key w).1.ComesTo (if key = 0 then .failed () else .value key) := by
  by_cases zero : key = 0
  · simp only [positive, zero, if_true]
    exact .failed ()
  · simp only [positive, zero, if_false]
    exact .value key

/-- In a cache that has room for two keys, the second one has to make room for the third, as the first
has been found in the meantime. -/
theorem serveAll_recency_three :
    (∀ key w, (positive.compute key w).1.ComesTo (if key = 0 then .failed () else .value key)) ∧
      accesses positive [.get 1, .get 2, .get 0, .getIfPresent 1, .size, .get 3]
        (.empty ⟨none, some 2⟩, ()) = [3, 1, 2, 1] ∧
      1 ∈ (serveAll positive [.get 1, .get 2, .get 0, .getIfPresent 1, .size, .get 3]
        (.empty ⟨none, some 2⟩, ())).2.1.keys ∧
      2 ∉ (serveAll positive [.get 1, .get 2, .get 0, .getIfPresent 1, .size, .get 3]
        (.empty ⟨none, some 2⟩, ())).2.1.keys := by
  have recent : accesses positive [.get 1, .get 2, .get 0, .getIfPresent 1, .size, .get 3]
      (.empty ⟨none, some 2⟩, ()) = [3, 1, 2, 1] := by
    cbv
  have retain (demand : Demand Nat)
      (member : demand ∈ [.get 1, .get 2, .get 0, .getIfPresent 1, .size, .get 3]) :
      demand.retains = true := by
    revert demand
    simp [Demand.retains]
  have lasting : (⟨none, some 2⟩ : CacheSettings).expiration = none := rfl
  have known := serveAll_recency positive_alone lasting retain ()
  rw [recent] at known
  refine ⟨positive_alone, recent, (known.held_iff 1).mpr ⟨by decide, ?_⟩, fun held => ?_⟩
  · rintro n ⟨⟩
    decide
  · have since := ((known.held_iff 2).mp held).2 2 rfl
    exact absurd since (by decide)

end Cache

end Logicless
