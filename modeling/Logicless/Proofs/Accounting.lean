import Logicless.Proofs.Machine
import Mathlib.Data.List.Nodup
import Mathlib.Data.List.TakeDrop
import Mathlib.Logic.Relation
import Mathlib.Order.WellFounded

/-!
# What enters a computing cache and what leaves it

An entry that was stored is held until its removal is told, with the cause. A key is absent for as
long as its value is computed, so that nothing is stored over an entry.
-/

namespace Logicless

def Change.removes {K : Type} [DecidableEq K] (key : K) : Change K → Bool
  | .stored _ => false
  | .removed k _ => k = key

namespace Cache

variable {K V E W : Type} [DecidableEq K]

/-- A cache holds an entry for each of its keys, and no more of them than it has room for. -/
structure Sound (c : Cache K V) : Prop where
  distinct : c.keys.Nodup
  bounded : ∀ n, c.settings.maxSize = some n → c.entries.length ≤ n

/-- Why an operation on a cache makes a change. Only absent keys are stored. An entry leaves when
the least recently used one has to make room, when it is found expired, or when it is invalidated. -/
def Justified (c : Cache K V) : Deed K V → Change K → Prop
  | .store key _, .stored k => k = key ∧ key ∉ c.keys
  | .store key _, .removed k .size =>
    k ≠ key ∧ c.settings.maxSize = some c.entries.length ∧ c.keys.getLast? = some k
  | .lookup key, .removed k .expired =>
    k = key ∧ ∃ e ∈ c.entries, e.key = k ∧ c.tick.isExpired e = true
  | .purge, .removed k .expired => ∃ e ∈ c.entries, e.key = k ∧ c.tick.isExpired e = true
  | .invalidate matching, .removed k .explicit => k ∈ c.keys ∧ matching k = true
  | .clear, .removed k .explicit => k ∈ c.keys
  | _, _ => False

structure Accounts (c : Cache K V) (deed : Deed K V) (changes : List (Change K))
    (c' : Cache K V) : Prop where
  settings : c'.settings = c.settings
  sound : c'.Sound
  balanced : ∀ key, changes.count (.stored key) + c.keys.count key =
    changes.countP (Change.removes key) + c'.keys.count key
  justified : ∀ change ∈ changes, c.Justified deed change

/-! ### Operations -/

theorem count_removed (gone : List K) (cause : Cause) (key : K) :
    (gone.map fun k => Change.removed k cause).countP (Change.removes key) = gone.count key := by
  rw [List.countP_map, List.count]
  congr 1

theorem count_stored_removed (gone : List K) (cause : Cause) (key : K) :
    (gone.map fun k => Change.removed k cause).count (.stored key) = 0 := by
  rw [List.count_eq_zero]
  intro member
  obtain ⟨_, _, other⟩ := List.mem_map.mp member
  cases other

/-- An operation that removes entries has to tell of those that are gone. -/
theorem Accounts.of_removed {c c' : Cache K V} {deed : Deed K V} (cause : Cause) (gone : List K)
    (sound : c.Sound) (settings : c'.settings = c.settings) (perm : (gone ++ c'.keys).Perm c.keys)
    (justified : ∀ key ∈ gone, c.Justified deed (.removed key cause)) :
    c.Accounts deed (gone.map fun key => .removed key cause) c' := by
  refine ⟨settings, ⟨?_, fun n room => ?_⟩, fun key => ?_, fun change told => ?_⟩
  · exact (List.nodup_append.mp (perm.nodup_iff.mpr sound.distinct)).2.1
  · rw [settings] at room
    have length := perm.length_eq
    have bounded := sound.bounded n room
    simp only [keys, List.length_append, List.length_map] at length
    omega
  · rw [count_stored_removed, count_removed, Nat.zero_add, ← perm.count_eq, List.count_append]
  · obtain ⟨key, left, rfl⟩ := List.mem_map.mp told
    exact justified key left

theorem Accounts.of_perm {c c' : Cache K V} {deed : Deed K V} (sound : c.Sound)
    (settings : c'.settings = c.settings) (perm : c'.keys.Perm c.keys) : c.Accounts deed [] c' :=
  .of_removed .explicit [] sound settings perm nofun

theorem not_mem_keys {c : Cache K V} {key : K} (absent : c.find? key = none) : key ∉ c.keys := by
  simpa [find?, keys] using absent

theorem keys_erase (c : Cache K V) (key : K) :
    (c.erase key).keys = c.keys.filter fun k => k ≠ key := by
  simp only [keys, erase, List.filter_map, Function.comp_def]

theorem Sound.perm_erase {c : Cache K V} (sound : c.Sound) {key : K} (held : key ∈ c.keys) :
    (key :: (c.erase key).keys).Perm c.keys := by
  rw [List.perm_iff_count, keys_erase]
  intro k
  by_cases same : k = key
  · have none : (c.keys.filter fun k => k ≠ key).count key = 0 := by
      simp [List.count_eq_zero]
    rw [same, List.count_cons_self, none, List.count_eq_one_of_mem sound.distinct held]
  · rw [List.count_cons_of_ne (Ne.symm same), List.count_filter (by simpa using same)]

theorem lookup_expired {key : K} {c : Cache K V} {change : Change K}
    (h : change ∈ (c.lookup key).2.1) : ∃ e ∈ c.entries, e.key = key ∧ c.tick.isExpired e = true := by
  simp only [lookup] at h
  split at h
  · cases h
  · next e found =>
    split at h
    · next expired =>
      obtain ⟨member, same⟩ := find?_some found
      exact ⟨e, member, same, expired⟩
    · cases h

theorem lookup_accounts {c : Cache K V} (sound : c.Sound) (key : K) :
    c.Accounts (.lookup key) (c.lookup key).2.1 (c.lookup key).2.2 := by
  have expired (change : Change K) : change ∈ (c.lookup key).2.1 → _ := lookup_expired
  rcases lookup_cases key c with ⟨_, eq⟩ | ⟨e, found, eq⟩ | ⟨e, found, eq⟩
  · rw [eq]
    exact .of_perm sound rfl (.refl _)
  · obtain ⟨member, same⟩ := find?_some found
    have held : key ∈ c.keys := same ▸ List.mem_map_of_mem member
    rw [eq] at expired ⊢
    change c.Accounts _ ([key].map fun k => .removed k .expired) _
    refine .of_removed _ _ sound ?_ ?_ fun k gone => ?_
    · rfl
    · exact sound.perm_erase held
    · obtain rfl := List.mem_singleton.mp gone
      exact ⟨rfl, expired _ (List.mem_singleton.mpr rfl)⟩
  · obtain ⟨member, same⟩ := find?_some found
    have held : key ∈ c.keys := same ▸ List.mem_map_of_mem member
    rw [eq]
    refine .of_perm sound rfl ?_
    subst same
    exact sound.perm_erase held

/-- What satisfies `drop` and what does not make up all entries. -/
theorem removeWhere_accounts {c : Cache K V} (c' : Cache K V) {deed : Deed K V}
    {drop : Entry K V → Bool} {cause : Cause} (sound : c.Sound) (settings : c'.settings = c.settings)
    (entries : c'.entries = c.entries)
    (justified : ∀ e ∈ c.entries, drop e = true → c.Justified deed (.removed e.key cause)) :
    c.Accounts deed (c'.removeWhere drop cause).1 (c'.removeWhere drop cause).2 := by
  have gone : (c'.removeWhere drop cause).1 =
      ((c.entries.filter drop).map (·.key)).map fun key => .removed key cause := by
    simp only [removeWhere, entries, List.map_map]
    rfl
  rw [gone]
  refine .of_removed _ _ sound ?_ ?_ fun key left => ?_
  · exact settings
  · simp only [removeWhere, keys, entries, ← List.map_append]
    exact (List.filter_append_perm drop c.entries).map _
  · obtain ⟨e, dropped, rfl⟩ := List.mem_map.mp left
    obtain ⟨member, drop⟩ := List.mem_filter.mp dropped
    exact justified e member drop

theorem clear_accounts {c : Cache K V} (sound : c.Sound) :
    c.Accounts .clear c.clear.1 c.clear.2 := by
  have gone : c.clear.1 = c.keys.reverse.map fun key => .removed key .explicit := by
    simp only [clear, keys, List.map_reverse, List.map_map]
    rfl
  rw [gone]
  refine .of_removed _ _ sound ?_ ?_ fun key left => ?_
  · rfl
  · simp [clear, keys]
  · exact List.mem_reverse.mp left

omit [DecidableEq K] in
theorem evict_keys (maxSize : Option Nat) (entries : List (Entry K V)) :
    ∃ gone : List K, (evict maxSize entries).2 = (gone.map fun key => .removed key .size) ∧
      (evict maxSize entries).1.map (·.key) ++ gone = entries.map (·.key) ∧
      (∀ n, maxSize = some n → (evict maxSize entries).1.length ≤ n) ∧
      ∀ key ∈ gone, ∃ n, maxSize = some n ∧ key ∈ (entries.map (·.key)).drop n := by
  cases maxSize with
  | none => exact ⟨[], rfl, List.append_nil _, nofun, nofun⟩
  | some n =>
    refine ⟨(entries.map (·.key)).drop n, ?_, ?_, ?_, fun key gone => ⟨n, rfl, gone⟩⟩
    · simp only [evict, ← List.map_drop, List.map_map]
      rfl
    · simp only [evict, List.map_take, List.take_append_drop]
    · rintro _ ⟨rfl⟩
      exact List.length_take_le n entries

/-- Of a full cache with one more key in front, it is the last one that has no room. -/
theorem last_of_mem_drop {α : Type} {key k : α} {keys : List α} {n : Nat} (positive : n ≠ 0)
    (room : keys.length ≤ n) (member : k ∈ (key :: keys).drop n) :
    keys.length = n ∧ keys.getLast? = some k := by
  obtain ⟨m, rfl⟩ := Nat.exists_eq_succ_of_ne_zero positive
  rw [List.drop_succ_cons] at member
  have more : m < keys.length := by
    by_contra less
    rw [List.drop_eq_nil_of_le (Nat.le_of_not_lt less)] at member
    cases member
  have full : keys.length = m + 1 := Nat.le_antisymm room more
  have some : keys ≠ [] := List.ne_nil_of_length_pos (by omega)
  have last := List.drop_length_sub_one some
  rw [full, Nat.add_sub_cancel] at last
  rw [last, List.mem_singleton] at member
  exact ⟨full, member ▸ List.getLast?_eq_getLast_of_ne_nil some⟩

/-- A key that is absent gets an entry, and the one that has to make room for it is told. -/
theorem store_accounts {c : Cache K V} (sound : c.Sound) {key : K} (absent : key ∉ c.keys) (v : V) :
    c.Accounts (.store key v) (c.store key v).1 (c.store key v).2 := by
  have others : (c.tick.erase key).keys = c.keys := by
    rw [keys_erase]
    refine List.filter_eq_self.mpr fun k member => ?_
    simpa using ne_of_mem_of_not_mem member absent
  by_cases zero : c.settings.maxSize = some 0
  · simp only [store, zero, if_true]
    exact .of_perm sound rfl (.refl _)
  · obtain ⟨gone, told, split, bounded, room⟩ := evict_keys c.settings.maxSize
      (⟨key, v, c.tick.clock⟩ :: (c.tick.erase key).entries)
    have stored : c.store key v = (.stored key :: gone.map fun k => .removed k .size,
        { c.tick with entries := (evict c.settings.maxSize
          (⟨key, v, c.tick.clock⟩ :: (c.tick.erase key).entries)).1 }) := by
      simp only [store, zero, if_false, ← told]
      rfl
    -- The keys that are kept, with those that are gone, are the new one and all that were held.
    generalize (evict c.settings.maxSize
      (⟨key, v, c.tick.clock⟩ :: (c.tick.erase key).entries)).1 = kept
      at split stored bounded
    change kept.map (·.key) ++ gone = key :: (c.tick.erase key).keys at split
    rw [others] at split
    have distinct : (kept.map (·.key) ++ gone).Nodup := by
      rw [split]
      exact List.nodup_cons.mpr ⟨absent, sound.distinct⟩
    rw [stored]
    refine ⟨rfl, ⟨(List.nodup_append.mp distinct).1, fun n bound => ?_⟩, fun k => ?_, ?_⟩
    · exact bounded n bound
    · have counts := congrArg (List.count k) split
      rw [List.count_append, List.count_cons] at counts
      have once : (Change.stored key == Change.stored k) = (key == k) := by
        simp only [BEq.beq, Change.stored.injEq]
      rw [List.count_cons, count_stored_removed, List.countP_cons, count_removed, once]
      simp only [Change.removes, Bool.false_eq_true, if_false]
      change _ = _ + List.count k (kept.map (·.key))
      omega
    · intro change told
      rcases List.mem_cons.mp told with rfl | evicted
      · exact ⟨rfl, absent⟩
      · obtain ⟨k, left, rfl⟩ := List.mem_map.mp evicted
        obtain ⟨n, bound, beyond⟩ := room k left
        change k ∈ (key :: (c.tick.erase key).keys).drop n at beyond
        rw [others] at beyond
        have positive : n ≠ 0 := fun none => zero (none ▸ bound)
        have fits : c.keys.length ≤ n := by
          rw [keys, List.length_map]
          exact sound.bounded n bound
        obtain ⟨full, last⟩ := last_of_mem_drop positive fits beyond
        refine ⟨ne_of_mem_of_not_mem (List.mem_of_getLast? last) absent, ?_, last⟩
        rw [bound, ← full, keys, List.length_map]

theorem Deed.apply_accounts {c : Cache K V} {deed : Deed K V} (sound : c.Sound)
    (ready : ∀ key v, deed = .store key v → key ∉ c.keys) :
    c.Accounts deed (deed.apply c).2.1 (deed.apply c).2.2 := by
  cases deed with
  | rest => exact .of_perm sound rfl (.refl _)
  | lookup key => exact lookup_accounts sound key
  | store key v => exact store_accounts sound (ready key v rfl) v
  | purge =>
    exact removeWhere_accounts c.tick sound rfl rfl fun e held expired =>
      ⟨e, held, rfl, expired⟩
  | invalidate matching =>
    exact removeWhere_accounts c sound rfl rfl fun e held matched =>
      ⟨List.mem_map_of_mem held, matched⟩
  | clear => exact clear_accounts sound
  | claim key => exact .of_perm sound rfl (.refl _)
  | settle key => exact .of_perm sound rfl (.refl _)
  | wait nanos => exact .of_perm sound rfl (.refl _)

/-- A key that has come to be held was stored. -/
theorem Accounts.mem_keys {c c' : Cache K V} {deed : Deed K V} {changes : List (Change K)}
    (accounts : c.Accounts deed changes c') {key : K} (held : key ∈ c'.keys) :
    key ∈ c.keys ∨ ∃ v, deed = .store key v := by
  by_contra neither
  obtain ⟨absent, other⟩ := not_or.mp neither
  have stored : 0 < changes.count (.stored key) := by
    have balanced := accounts.balanced key
    have after := List.count_pos_iff.mpr held
    have before := List.count_eq_zero.mpr absent
    omega
  have justified := accounts.justified _ (List.count_pos_iff.mp stored)
  cases deed with
  | store k v => exact other ⟨v, by rw [justified.1]⟩
  | _ => exact justified

omit [DecidableEq K] in
/-- What an operation removes was held, and is not what it stores. -/
theorem Justified.held {c : Cache K V} {deed : Deed K V} {key : K} {cause : Cause}
    (removed : c.Justified deed (.removed key cause)) :
    key ∈ c.keys ∧ ¬ c.Justified deed (.stored key) := by
  cases deed with
  | lookup k =>
    cases cause with
    | expired =>
      obtain ⟨_, e, held, rfl, _⟩ := removed
      exact ⟨List.mem_map_of_mem held, not_false⟩
    | _ => exact removed.elim
  | store k v =>
    cases cause with
    | size =>
      obtain ⟨other, _, last⟩ := removed
      exact ⟨List.mem_of_getLast? last, fun stored => other stored.1⟩
    | _ => exact removed.elim
  | purge =>
    cases cause with
    | expired =>
      obtain ⟨e, held, rfl, _⟩ := removed
      exact ⟨List.mem_map_of_mem held, not_false⟩
    | _ => exact removed.elim
  | invalidate matching =>
    cases cause with
    | explicit => exact ⟨removed.1, not_false⟩
    | _ => exact removed.elim
  | clear =>
    cases cause with
    | explicit => exact ⟨removed, not_false⟩
    | _ => exact removed.elim
  | _ => exact removed.elim

theorem Accounts.removed {c c' : Cache K V} {deed : Deed K V} {changes : List (Change K)}
    (sound : c.Sound) (accounts : c.Accounts deed changes c') {key : K} {cause : Cause}
    (told : .removed key cause ∈ changes) : key ∉ c'.keys := by
  obtain ⟨_, unstored⟩ := (accounts.justified _ told).held
  have balanced := accounts.balanced key
  have stored : changes.count (.stored key) = 0 :=
    List.count_eq_zero.mpr fun stored => unstored (accounts.justified _ stored)
  have once := List.nodup_iff_count_le_one.mp sound.distinct key
  have left : 0 < changes.countP (Change.removes key) :=
    List.countP_pos_iff.mpr ⟨_, told, by simp [Change.removes]⟩
  rw [← List.count_eq_zero]
  omega

/-! ### Points -/

def Control.keys {below : K → K → Prop} : Control V E below → List K
  | .ready => []
  | .asked key => [key]
  | .missed key => [key]
  | .claimed key => [key]
  | .running key _ => [key]
  | .closing key _ => [key]
  | .settling key _ => [key]
  | .answered _ => []

def Control.isReady {below : K → K → Prop} : Control V E below → Bool
  | .ready => true
  | _ => false

def Control.awaited {below : K → K → Prop} : Control V E below → List K
  | .running key _ => [key]
  | .closing key _ => [key]
  | _ => []

variable [order : WellFoundedRelation K]

/-- The computations that are under way go down, and none of their keys is held. -/
structure Point.Nested (p : Point V E W order.rel) : Prop where
  sound : p.cache.Sound
  idle : p.control.isReady = true → p.stack = []
  descending : (p.control.keys ++ p.stack.map (·.key)).Pairwise (Relation.TransGen order.rel)
  absent : ∀ key ∈ p.control.awaited ++ p.stack.map (·.key), key ∉ p.cache.keys

omit [DecidableEq K] in
theorem Point.deed_store {p : Point V E W order.rel} {key : K} {v : V} (h : p.deed = .store key v) :
    p.control = .closing key (.value v) := by
  obtain ⟨control, stack, demands, c, w, log⟩ := p
  cases control with
  | ready =>
    cases demands with
    | nil => cases h
    | cons demand rest => cases demand <;> cases h
  | running k computation => cases computation <;> cases h
  | closing k outcome =>
    cases outcome with
    | value v =>
      cases h
      rfl
    | _ => cases h
  | _ => cases h

theorem Point.Nested.accounts {p : Point V E W order.rel} (nested : p.Nested) :
    p.cache.Accounts p.deed p.changes (p.deed.apply p.cache).2.2 := by
  refine Deed.apply_accounts nested.sound fun key v stores => nested.absent key ?_
  rw [deed_store stores]
  exact List.mem_cons_self

theorem Point.Nested.stack_absent {p : Point V E W order.rel} (nested : p.Nested) (key : K)
    (waits : key ∈ p.stack.map (·.key)) : key ∉ (p.deed.apply p.cache).2.2.keys := by
  intro held
  rcases nested.accounts.mem_keys held with before | ⟨v, stores⟩
  · exact nested.absent key (List.mem_append_right _ waits) before
  · have descending := nested.descending
    rw [deed_store stores] at descending
    have lower := (List.pairwise_cons.mp descending).1 key waits
    exact order.wf.transGen.irrefl.irrefl key lower

theorem Point.Nested.running_absent {p : Point V E W order.rel} (nested : p.Nested) {key : K}
    {computation : Computation V E order.rel key} (running : p.control = .running key computation) :
    key ∉ (p.deed.apply p.cache).2.2.keys := by
  intro held
  rcases nested.accounts.mem_keys held with before | ⟨v, stores⟩
  · refine nested.absent key ?_ before
    rw [running]
    exact List.mem_cons_self
  · have closing := deed_store stores
    rw [running] at closing
    cases closing

omit [DecidableEq K] in
theorem Point.Nested.busy {p : Point V E W order.rel} (sound : p.cache.Sound)
    (busy : p.control.isReady = false)
    (descending : (p.control.keys ++ p.stack.map (·.key)).Pairwise (Relation.TransGen order.rel))
    (absent : ∀ key ∈ p.control.awaited ++ p.stack.map (·.key), key ∉ p.cache.keys) : p.Nested := by
  refine ⟨sound, fun ready => ?_, descending, absent⟩
  rw [busy] at ready
  cases ready

theorem Point.step_nested {world : Computing K V E W order.rel} {p : Point V E W order.rel}
    (nested : p.Nested) : (p.step world).Nested := by
  have sound := nested.accounts.sound
  have above := nested.stack_absent
  obtain ⟨control, stack, demands, c, w, log⟩ := p
  cases control with
  | ready =>
    cases demands with
    | nil => exact ⟨sound, nested.idle, nested.descending, above⟩
    | cons demand rest =>
      cases demand with
      | get key =>
        obtain rfl : stack = [] := nested.idle rfl
        exact .busy sound rfl (List.pairwise_singleton _ _) (List.forall_mem_nil _)
      | _ => exact ⟨sound, nested.idle, nested.descending, above⟩
  | asked key =>
    have lower := (List.pairwise_cons.mp nested.descending).2
    cases seen : (c.lookup key).1 with
    | some v =>
      rw [step_asked_of_held seen]
      exact .busy sound rfl lower above
    | none =>
      by_cases flight : key ∈ c.inFlight
      · rw [step_asked_of_inFlight seen flight]
        exact .busy sound rfl lower above
      · rw [step_asked_of_missed seen flight]
        exact .busy sound rfl nested.descending above
  | missed key => exact .busy sound rfl nested.descending above
  | claimed key =>
    simp only [step, deed, Deed.apply, resume] at sound above ⊢
    cases seen : (c.lookup key).1 with
    | some v => exact .busy sound rfl nested.descending above
    | none =>
      refine .busy sound rfl nested.descending fun k waits => ?_
      rcases List.mem_cons.mp waits with rfl | waits
      · exact not_mem_keys (lookup_missed seen)
      · exact above k waits
  | running key computation =>
    have absent (k : K) (waits : k ∈ key :: stack.map (·.key)) :
        k ∉ (computation.deed.apply c).2.2.keys := by
      rcases List.mem_cons.mp waits with rfl | waits
      · exact nested.running_absent rfl
      · exact above k waits
    cases computation with
    | done r => cases r <;> exact .busy sound rfl nested.descending absent
    | abort => exact .busy sound rfl nested.descending absent
    | query k h next =>
      -- The key that is asked for is below the one that waits for it.
      refine .busy sound rfl (List.pairwise_cons.mpr ⟨fun k' waits => ?_, nested.descending⟩) absent
      rcases List.mem_cons.mp waits with rfl | waits
      · exact .single h
      · exact .head h ((List.pairwise_cons.mp nested.descending).1 k' waits)
    | peek k next => exact .busy sound rfl nested.descending absent
    | invalidate matching next => exact .busy sound rfl nested.descending absent
    | clear next => exact .busy sound rfl nested.descending absent
    | wait nanos next => exact .busy sound rfl nested.descending absent
  | closing key outcome => exact .busy sound rfl nested.descending above
  | settling key outcome => exact .busy sound rfl (List.pairwise_cons.mp nested.descending).2 above
  | answered outcome =>
    -- The computation on top of the stack goes on.
    cases stack with
    | nil => exact ⟨sound, fun _ => rfl, List.Pairwise.nil, List.forall_mem_nil _⟩
    | cons waiting rest =>
      cases outcome <;> exact .busy sound rfl nested.descending above

/-! ### Runs -/

/-- What holds at a point. Each key has been stored as often as its removal has been told, and once
more if it is held. What is about to be told has a reason, and what is told to be removed is gone. -/
structure Point.Accounted {below : K → K → Prop} (settings : CacheSettings)
    (p : Point V E W below) : Prop where
  distinct : p.cache.keys.Nodup
  bounded : ∀ n, settings.maxSize = some n → p.cache.entries.length ≤ n
  balanced : ∀ key, p.log.count (.stored key) =
    p.log.countP (Change.removes key) + if key ∈ p.cache.keys then 1 else 0
  justified : ∀ change ∈ p.changes, p.cache.Justified p.deed change
  removed : ∀ key cause, .removed key cause ∈ p.changes → key ∉ (p.deed.apply p.cache).2.2.keys

theorem course_nested (world : Computing K V E W order.rel) (settings : CacheSettings)
    (demands : List (Demand K)) (w : W) (n : Nat) :
    let p := (Point.step world)^[n] (.start settings demands w)
    p.Nested ∧ p.cache.settings = settings ∧
      ∀ key, p.log.count (.stored key) = p.log.countP (Change.removes key) + p.cache.keys.count key := by
  induction n with
  | zero =>
    refine ⟨⟨⟨List.nodup_nil, fun _ _ => Nat.zero_le _⟩, fun _ => rfl, .nil, nofun⟩, rfl, ?_⟩
    exact fun key => rfl
  | succ n ih =>
    simp only [Function.iterate_succ_apply']
    generalize (Point.step world)^[n] (.start settings demands w) = p at ih ⊢
    obtain ⟨nested, same, balanced⟩ := ih
    obtain ⟨cache, log⟩ := p.step_cache world
    refine ⟨Point.step_nested nested, ?_, fun key => ?_⟩
    · rw [cache, nested.accounts.settings, same]
    · have before := balanced key
      have step := nested.accounts.balanced key
      rw [cache, log, List.count_append, List.countP_append]
      omega

/-- The course of any demands comes to where they are served, and all its points are accounted for. -/
theorem course_accounted (world : Computing K V E W order.rel) (settings : CacheSettings)
    (demands : List (Demand K)) (w : W) :
    (∃ log, Point.Leads world (.start settings demands w)
      ⟨.ready, [], [], (serveAll world demands (.empty settings, w)).2.1,
        (serveAll world demands (.empty settings, w)).2.2, log⟩) ∧
    ∀ n, ((Point.step world)^[n] (.start settings demands w)).Accounted settings := by
  refine ⟨leads_serveAll world demands (.empty settings) w [], fun n => ?_⟩
  obtain ⟨nested, same, balanced⟩ := course_nested world settings demands w n
  refine ⟨nested.sound.distinct, ?_, fun key => ?_, nested.accounts.justified,
    fun key cause told => nested.accounts.removed nested.sound told⟩
  · intro m room
    rw [← same] at room
    exact nested.sound.bounded m room
  · rw [balanced key]
    split
    · next held => rw [List.count_eq_one_of_mem nested.sound.distinct held]
    · next absent => rw [List.count_eq_zero.mpr absent]

/-- A key whose value needs that of the key below it, in a cache that has room for one of them. -/
example :
    let world : Computing Nat Nat Unit Unit (· < ·) :=
      { compute := fun key w => (match key with
          | 0 => .done (.ok 0)
          | k + 1 => .query k (Nat.lt_succ_self k) .done, w)
        notice := fun _ w => w }
    ((Point.step world)^[15] (.start ⟨none, some 1⟩ [.get 1] ())).log =
      [.stored 0, .stored 1, .removed 0 .size] := by
  rfl

end Cache

end Logicless
