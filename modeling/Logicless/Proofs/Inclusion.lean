import Logicless.Proofs.Recency

/-!
# A larger cache does no worse

Two caches that compute the same values serve the same requests. The one that has room for more keys
holds all keys of the other one, and it computes no more often (`Cache.serveAll_surpasses`). The keys
that both hold stand in the same order, and only so many others stand between them as there is more
room.
-/

namespace Logicless

variable {K V E W : Type}

def Computing.tallied {below : K → K → Prop} (world : Computing K V E W below) :
    Computing K V E (W × List K) below where
  compute key w := ((world.compute key w.1).1, (world.compute key w.1).2, key :: w.2)
  notice change w := (world.notice change w.1, w.2)

namespace Cache

/-! ### Records -/

theorem told_tallied {below : K → K → Prop} (world : Computing K V E W below)
    (changes : List (Change K)) (w : W) (tally : List K) :
    told world.tallied.notice changes (w, tally) = (told world.notice changes w, tally) := by
  induction changes generalizing w with
  | nil => rfl
  | cons change rest ih => exact ih (world.notice change w)

theorem perform_tallied {α : Type} {below : K → K → Prop} (world : Computing K V E W below)
    (op : Cache K V → α × List (Change K) × Cache K V) (c : Cache K V) (w : W) (tally : List K) :
    perform world.tallied.notice op (c, w, tally) =
      ((op c).1, (op c).2.2, told world.notice (op c).2.1 w, tally) :=
  congrArg (_, _, ·) (told_tallied world (op c).2.1 w tally)

/-- The requests do the same, but for the record that one of them keeps. -/
def Tallies {α : Type} (recorded : Request K V (W × List K) α) (request : Request K V W α) : Prop :=
  ∀ c w tally, ∃ tally', recorded (c, w, tally) =
    ((request (c, w)).1, (request (c, w)).2.1, (request (c, w)).2.2, tally')

namespace Tallies

theorem pure {α : Type} (a : α) :
    Tallies (Pure.pure a : Request K V (W × List K) α) (Pure.pure a) :=
  fun _ _ tally => ⟨tally, rfl⟩

theorem bind {α β : Type} {recorded : Request K V (W × List K) α} {request : Request K V W α}
    {recorded' : α → Request K V (W × List K) β} {request' : α → Request K V W β}
    (h : Tallies recorded request) (h' : ∀ a, Tallies (recorded' a) (request' a)) :
    Tallies (recorded >>= recorded') (request >>= request') := by
  intro c w tally
  obtain ⟨between, ran⟩ := h c w tally
  obtain ⟨tally', ran'⟩ := h' (request (c, w)).1 (request (c, w)).2.1 (request (c, w)).2.2 between
  refine ⟨tally', ?_⟩
  simp only [Bind.bind, StateT.bind, ran]
  exact ran'

theorem perform {α : Type} {below : K → K → Prop} (world : Computing K V E W below)
    (op : Cache K V → α × List (Change K) × Cache K V) :
    Tallies (Cache.perform world.tallied.notice op) (Cache.perform world.notice op) := by
  intro c w tally
  exact ⟨tally, perform_tallied world op c w tally⟩

theorem onCache (f : Cache K V → Cache K V) :
    Tallies (Cache.onCache f : Request K V (W × List K) Unit) (Cache.onCache f) :=
  fun _ _ tally => ⟨tally, rfl⟩

variable [DecidableEq K] [order : WellFoundedRelation K] (world : Computing K V E W order.rel)

theorem run {key : K}
    (ask : ∀ k, order.rel k key → Tallies (Cache.get world.tallied k) (Cache.get world k))
    (computation : Computation V E order.rel key) :
    Tallies (computation.run world.tallied.notice fun k _ => Cache.get world.tallied k)
      (computation.run world.notice fun k _ => Cache.get world k) := by
  induction computation with
  | done r => cases r <;> exact .pure _
  | abort => exact .pure _
  | query k h next ih =>
    rw [Computation.run, Computation.run]
    refine (ask k h).bind fun outcome => ?_
    cases outcome with
    | value v => exact ih (.ok v)
    | failed e => exact ih (.error e)
    | aborted | waiting => exact .pure _
  | peek k next ih => exact (perform world _).bind ih
  | invalidate matching next ih => exact (perform world _).bind fun _ => ih
  | clear next ih => exact (perform world _).bind fun _ => ih
  | wait nanos next ih => exact (onCache _).bind fun _ => ih

theorem get (key : K) : Tallies (Cache.get world.tallied key) (Cache.get world key) := by
  induction key using order.wf.induction with
  | _ key ask =>
    intro c w tally
    have same := told_tallied world (c.lookup key).2.1 w tally
    cases seen : (c.lookup key).1 with
    | some v =>
      rw [get_of_held seen, get_of_held seen, same]
      exact ⟨tally, rfl⟩
    | none =>
      by_cases flight : key ∈ c.inFlight
      · rw [get_of_inFlight seen flight, get_of_inFlight seen flight, same]
        exact ⟨tally, rfl⟩
      · rcases computed : world.compute key (told world.notice (c.lookup key).2.1 w) with
          ⟨computation, w'⟩
        have recorded : world.tallied.compute key (told world.tallied.notice (c.lookup key).2.1
            (w, tally)) = (computation, w', key :: tally) := by
          rw [same]
          simp only [Computing.tallied, computed]
        rw [get_of_computation seen flight recorded, get_of_computation seen flight computed]
        obtain ⟨tally', ran⟩ := run world ask computation (computing key c) w' (key :: tally)
        rw [ran]
        refine ⟨tally', ?_⟩
        generalize computation.run world.notice (fun k _ => Cache.get world k) (computing key c, w') =
          ended
        obtain ⟨outcome, c', w''⟩ := ended
        cases outcome with
        | value v => simp only [closed, told_tallied]
        | _ => rfl

theorem serve (demand : Demand K) :
    Tallies (Cache.serve world.tallied demand) (Cache.serve world demand) := by
  cases demand with
  | get key => exact (get world key).bind fun _ => .pure _
  | getIfPresent key => exact (perform world _).bind fun _ => .pure _
  | present | size => exact (perform world _).bind fun _ => .pure _
  | invalidate matching => exact perform world fun c => ((), c.invalidate matching)
  | clear => exact perform world fun c => ((), c.clear)
  | wait nanos => exact onCache _

theorem serveAll (demands : List (Demand K)) :
    Tallies (Cache.serveAll world.tallied demands) (Cache.serveAll world demands) := by
  induction demands with
  | nil => exact .pure _
  | cons demand rest ih => exact (serve world demand).bind fun _ => ih

end Tallies

/-! ### Keys beside each other -/

def Narrower : Option Nat → Option Nat → Prop
  | _, none => True
  | none, some _ => False
  | some m, some n => m ≤ n

/-- If only `spare` elements have been inserted, then so many more make up for it. -/
theorem take_sublist_take {small large : List K} (h : small.Sublist large) {spare : Nat}
    (few : large.length ≤ small.length + spare) (n : Nat) :
    (small.take n).Sublist (large.take (n + spare)) := by
  induction h generalizing spare n with
  | slnil => exact (List.take_nil (i := n)).symm ▸ List.nil_sublist _
  | @cons small large key h ih =>
    have shorter := h.length_le
    rw [List.length_cons] at few
    obtain ⟨rest, rfl⟩ : ∃ rest, spare = rest + 1 := ⟨spare - 1, by omega⟩
    exact (ih (by omega) n).cons key
  | @cons_cons small large key h ih =>
    cases n with
    | zero => exact List.nil_sublist _
    | succ n =>
      rw [Nat.succ_add]
      simp only [List.length_cons] at few
      exact (ih (by omega) n).cons_cons key

structure Beside (m n : Option Nat) (small large : List K) : Prop where
  sublist : small.Sublist large
  spare : ∀ j k, m = some j → n = some k → large.length ≤ small.length + (k - j)

namespace Beside

variable {m n : Option Nat} {small large : List K}

theorem nil : Beside m n ([] : List K) [] :=
  ⟨.refl _, fun _ _ _ _ => Nat.zero_le _⟩

theorem filter (h : Beside m n small large) (p : K → Bool) :
    Beside m n (small.filter p) (large.filter p) := by
  refine ⟨h.sublist.filter p, fun j k room room' => ?_⟩
  have spare := h.spare j k room room'
  have dropped := (h.sublist.filter fun k => !p k).length_le
  rw [List.length_eq_length_filter_add p, List.length_eq_length_filter_add (l := small) p] at spare
  omega

/-- The same key is put before the others. -/
theorem admits (h : Beside m n small large) (narrower : Narrower m n) (key : K) :
    Beside m n (fit m (key :: small)) (fit n (key :: large)) := by
  cases n with
  | none =>
    refine ⟨?_, nofun⟩
    cases m with
    | none => exact h.sublist.cons_cons key
    | some m => exact (List.take_sublist m _).trans (h.sublist.cons_cons key)
  | some n =>
    cases m with
    | none => exact narrower.elim
    | some m =>
      have room : m + (n - m) = n := Nat.add_sub_cancel' narrower
      have spare := h.spare m n rfl rfl
      refine ⟨?_, ?_⟩
      · have few : (key :: large).length ≤ (key :: small).length + (n - m) := by
          simp only [List.length_cons]
          omega
        have taken := take_sublist_take (h.sublist.cons_cons key) few m
        rwa [room] at taken
      · rintro j k ⟨⟩ ⟨⟩
        simp only [fit, List.length_take, List.length_cons]
        omega

variable [DecidableEq K]

/-- A key that only the larger cache holds is put before the others. -/
theorem touch (h : Beside m n small large) {key : K} (absent : key ∉ small) (held : key ∈ large) :
    Beside m n small (key :: large.filter fun k => k ≠ key) := by
  have same : small.filter (fun k => k ≠ key) = small :=
    List.filter_eq_self.mpr fun k member => by simpa using ne_of_mem_of_not_mem member absent
  have fewer : (large.filter fun k => k ≠ key).length < large.length :=
    List.length_filter_lt_length_iff_exists.mpr ⟨key, held, by simp⟩
  refine ⟨?_, fun j k room room' => ?_⟩
  · rw [← same]
    exact (h.sublist.filter _).cons key
  · have spare := h.spare j k room room'
    rw [List.length_cons]
    omega

end Beside

/-! ### Caches beside each other -/

variable [DecidableEq K]

def admitted (maxSize : Option Nat) (key : K) (keys : List K) : Outcome E V → List K
  | .value _ => fit maxSize (key :: keys.filter fun k => k ≠ key)
  | _ => keys

/-- No entry expires, and nothing is being computed. There is room for what is held, and each value is
the one that is computed for its key. -/
structure Truthful (limits : CacheSettings) (outcome : K → Outcome E V) (c : Cache K V) : Prop where
  settings : c.settings = limits
  lasting : limits.expiration = none
  idle : c.inFlight = []
  bounded : ∀ n, limits.maxSize = some n → c.keys.length ≤ n
  values : ∀ e ∈ c.entries, outcome e.key = .value e.value

omit [DecidableEq K] in
theorem keys_invalidate (c : Cache K V) (matching : K → Bool) :
    (c.invalidate matching).2.keys = c.keys.filter fun k => !matching k := by
  simp only [keys, invalidate, removeWhere, List.filter_map, Function.comp_def]

namespace Truthful

variable {limits : CacheSettings} {outcome : K → Outcome E V} {c c' : Cache K V} {key : K}

omit [DecidableEq K] in
theorem empty (lasting : limits.expiration = none) :
    (Cache.empty limits : Cache K V).Truthful limits outcome :=
  ⟨rfl, lasting, rfl, fun n _ => Nat.zero_le n, nofun⟩

omit [DecidableEq K] in
theorem of_sublist (h : c.Truthful limits outcome) (settings : c'.settings = c.settings)
    (inFlight : c'.inFlight = c.inFlight) (entries : c'.entries.Sublist c.entries) :
    c'.Truthful limits outcome := by
  refine ⟨settings.trans h.settings, h.lasting, inFlight.trans h.idle, fun n room => ?_,
    fun e member => h.values e (entries.subset member)⟩
  exact ((entries.map (·.key)).length_le).trans (h.bounded n room)

/-- A key that is looked up comes to the front. -/
theorem lookup_of_mem (h : c.Truthful limits outcome) (held : key ∈ c.keys) :
    ∃ v c', c.lookup key = (some v, [], c') ∧ outcome key = .value v ∧ c'.Truthful limits outcome ∧
      c'.keys = key :: c.keys.filter fun k => k ≠ key := by
  obtain ⟨v, c', found, settings, inFlight, keys⟩ :=
    lookup_of_mem_keys (by rw [h.settings, h.lasting]) held
  obtain ⟨e, member, same, value⟩ := lookup_held (congrArg Prod.fst found)
  have fewer : (c.keys.filter fun k => k ≠ key).length < c.keys.length :=
    List.length_filter_lt_length_iff_exists.mpr ⟨key, held, by simp⟩
  refine ⟨v, c', found, ?_, ⟨settings.trans h.settings, h.lasting, inFlight.trans h.idle, ?_, ?_⟩, keys⟩
  · rw [← same, ← value]
    exact h.values e member
  · intro n room
    have bounded := h.bounded n room
    rw [keys, List.length_cons]
    omega
  · intro e' member'
    have stayed : e' ∈ (c.lookup key).2.2.entries := by
      rw [found]
      exact member'
    exact h.values e' (mem_lookup stayed)

theorem lookup_of_not_mem (h : c.Truthful limits outcome) (absent : key ∉ c.keys) :
    ∃ c', c.lookup key = (none, [], c') ∧ c'.Truthful limits outcome ∧ c'.keys = c.keys :=
  ⟨c.tick, lookup_absent (find?_of_not_mem_keys absent), h.of_sublist rfl rfl (.refl _), rfl⟩

variable [order : WellFoundedRelation K] {world : Computing K V E W order.rel}

theorem get (alone : ∀ key w, (world.compute key w).1.ComesTo (outcome key))
    (h : c.Truthful limits outcome) (key : K) (w : W) (tally : List K) :
    ∃ c' w', Cache.get world.tallied key (c, w, tally) =
        (outcome key, c', w', if key ∈ c.keys then tally else key :: tally) ∧
      c'.Truthful limits outcome ∧ c'.keys = admitted limits.maxSize key c.keys (outcome key) := by
  by_cases held : key ∈ c.keys
  · obtain ⟨v, c', found, value, truthful, keys⟩ := h.lookup_of_mem held
    refine ⟨c', w, ?_, truthful, ?_⟩
    · rw [get_of_held (by rw [found]), found, value, if_pos held]
      rfl
    · rw [value, admitted, ← keys]
      exact (fit_of_length_le truthful.bounded).symm
  · have alone' : (world.tallied.compute key (w, tally)).1.ComesTo (outcome key) := alone key w
    rw [if_neg held]
    cases comes : outcome key with
    | value v =>
      rw [comes] at alone'
      have bounded := h.bounded
      rw [← h.settings] at bounded
      obtain ⟨c', changes, got, settings, idle, keys, entries⟩ :=
        get_of_new_value h.idle bounded held alone'
      rw [h.settings] at settings keys
      refine ⟨c', told world.notice changes (world.compute key w).2, ?_,
        ⟨settings, h.lasting, idle, fun n room => ?_, fun e member => ?_⟩, keys⟩
      · rw [got]
        exact congrArg (_, _, ·) (told_tallied world changes _ _)
      · rw [keys, room]
        exact List.length_take_le n _
      · rcases entries e member with member | ⟨same, value⟩
        · exact h.values e member
        · rw [same, value, comes]
    | failed | aborted | waiting =>
      rw [comes] at alone'
      obtain ⟨c', got, settings, idle, entries⟩ :=
        get_of_no_value h.idle held alone' fun _ same => by cases same
      exact ⟨c', _, got, h.of_sublist settings (idle.trans h.idle.symm) (entries ▸ .refl _),
        congrArg (List.map Entry.key) entries⟩

/-- A request is answered by what its computation comes to. -/
theorem answer (alone : ∀ key w, (world.compute key w).1.ComesTo (outcome key))
    (h : c.Truthful limits outcome) (key : K) (w : W) :
    (Cache.get world key (c, w)).1 = outcome key := by
  obtain ⟨_, _, got, _⟩ := h.get alone key w []
  obtain ⟨_, asked⟩ := Tallies.get world key c w []
  rw [got] at asked
  exact (congrArg Prod.fst asked).symm

end Truthful

/-- A cache with room for `m` keys and one with room for `n`, after the same requests. -/
structure Abreast (m n : Option Nat) (outcome : K → Outcome E V)
    (small large : Cache K V × W × List K) : Prop where
  narrow : small.1.Truthful ⟨none, m⟩ outcome
  wide : large.1.Truthful ⟨none, n⟩ outcome
  keys : Beside m n small.1.keys large.1.keys
  calls : large.2.2.Sublist small.2.2

namespace Abreast

variable {m n : Option Nat} {outcome : K → Outcome E V} {small large : Cache K V × W × List K}
  [order : WellFoundedRelation K] {world : Computing K V E W order.rel}

theorem get (alone : ∀ key w, (world.compute key w).1.ComesTo (outcome key))
    (narrower : Narrower m n) (h : Abreast m n outcome small large) (key : K) :
    Abreast m n outcome (Cache.get world.tallied key small).2 (Cache.get world.tallied key large).2 := by
  obtain ⟨c, w, tally, rfl⟩ : ∃ c w tally, small = (c, w, tally) := ⟨_, _, _, rfl⟩
  obtain ⟨c', w', tally', rfl⟩ : ∃ c w tally, large = (c, w, tally) := ⟨_, _, _, rfl⟩
  obtain ⟨d, v, got, narrow, keys⟩ := h.narrow.get alone key w tally
  obtain ⟨d', v', got', wide, keys'⟩ := h.wide.get alone key w' tally'
  rw [got, got']
  refine ⟨narrow, wide, ?_, ?_⟩
  · rw [keys, keys']
    cases outcome key with
    | value v => exact (h.keys.filter _).admits narrower key
    | failed | aborted | waiting => exact h.keys
  · by_cases held : key ∈ c.keys
    · rw [if_pos held, if_pos (h.keys.sublist.subset held)]
      exact h.calls
    · rw [if_neg held]
      split
      · exact h.calls.cons key
      · exact h.calls.cons_cons key

omit [DecidableEq K] in
/-- An operation may change what is held, but computes nothing. -/
theorem perform {α : Type} (op : Cache K V → α × List (Change K) × Cache K V)
    (h : Abreast m n outcome small large) (narrow : (op small.1).2.2.Truthful ⟨none, m⟩ outcome)
    (wide : (op large.1).2.2.Truthful ⟨none, n⟩ outcome)
    (keys : Beside m n (op small.1).2.2.keys (op large.1).2.2.keys) :
    Abreast m n outcome (Cache.perform world.tallied.notice op small).2
      (Cache.perform world.tallied.notice op large).2 := by
  obtain ⟨c, w, tally, rfl⟩ : ∃ c w tally, small = (c, w, tally) := ⟨_, _, _, rfl⟩
  obtain ⟨c', w', tally', rfl⟩ : ∃ c w tally, large = (c, w, tally) := ⟨_, _, _, rfl⟩
  rw [perform_tallied, perform_tallied]
  exact ⟨narrow, wide, keys, h.calls⟩

/-- A key that is found comes to the front, in one of the caches or in both. -/
theorem getIfPresent (narrower : Narrower m n) (h : Abreast m n outcome small large) (key : K) :
    Abreast m n outcome (Cache.getIfPresent world.tallied.notice key small).2
      (Cache.getIfPresent world.tallied.notice key large).2 := by
  by_cases held : key ∈ large.1.keys
  · obtain ⟨_, d, found, _, wide, keys⟩ := h.wide.lookup_of_mem held
    by_cases both : key ∈ small.1.keys
    · obtain ⟨_, c, found', _, narrow, keys'⟩ := h.narrow.lookup_of_mem both
      have admitted := (h.keys.filter fun k => k ≠ key).admits narrower key
      rw [← keys, ← keys', fit_of_length_le narrow.bounded, fit_of_length_le wide.bounded] at admitted
      exact h.perform (lookup key) (by rwa [found']) (by rwa [found]) (by rwa [found, found'])
    · obtain ⟨c, missed, narrow, same⟩ := h.narrow.lookup_of_not_mem both
      have touched := h.keys.touch both held
      rw [← keys, ← same] at touched
      exact h.perform (lookup key) (by rwa [missed]) (by rwa [found]) (by rwa [found, missed])
  · have neither : key ∉ small.1.keys := fun both => held (h.keys.sublist.subset both)
    obtain ⟨d, missed, wide, same⟩ := h.wide.lookup_of_not_mem held
    obtain ⟨c, missed', narrow, same'⟩ := h.narrow.lookup_of_not_mem neither
    have keys := h.keys
    rw [← same, ← same'] at keys
    exact h.perform (lookup key) (by rwa [missed']) (by rwa [missed]) (by rwa [missed, missed'])

theorem serve (alone : ∀ key w, (world.compute key w).1.ComesTo (outcome key))
    (narrower : Narrower m n) (h : Abreast m n outcome small large) (demand : Demand K) :
    Abreast m n outcome (Cache.serve world.tallied demand small).2
      (Cache.serve world.tallied demand large).2 := by
  have narrow : small.1.tick.Truthful ⟨none, m⟩ outcome := h.narrow.of_sublist rfl rfl (.refl _)
  have wide : large.1.tick.Truthful ⟨none, n⟩ outcome := h.wide.of_sublist rfl rfl (.refl _)
  have purged := purge_lasting (c := small.1) (by rw [h.narrow.settings])
  have purged' := purge_lasting (c := large.1) (by rw [h.wide.settings])
  cases demand with
  | get key => exact h.get alone narrower key
  | getIfPresent key => exact h.getIfPresent narrower key
  | present =>
    refine h.perform present ?_ ?_ ?_ <;> simp only [present, purged, purged']
    exacts [narrow, wide, h.keys]
  | size =>
    refine h.perform size ?_ ?_ ?_ <;> simp only [size, purged, purged']
    exacts [narrow, wide, h.keys]
  | invalidate matching =>
    refine h.perform (fun c => ((), c.invalidate matching))
      (h.narrow.of_sublist rfl rfl List.filter_sublist)
      (h.wide.of_sublist rfl rfl List.filter_sublist) ?_
    rw [keys_invalidate, keys_invalidate]
    exact h.keys.filter _
  | clear =>
    exact h.perform (fun c => ((), c.clear)) (h.narrow.of_sublist rfl rfl (List.nil_sublist _))
      (h.wide.of_sublist rfl rfl (List.nil_sublist _)) .nil
  | wait nanos =>
    exact ⟨h.narrow.of_sublist rfl rfl (.refl _), h.wide.of_sublist rfl rfl (.refl _), h.keys, h.calls⟩

theorem serveAll (alone : ∀ key w, (world.compute key w).1.ComesTo (outcome key))
    (narrower : Narrower m n) (h : Abreast m n outcome small large) (demands : List (Demand K)) :
    Abreast m n outcome (Cache.serveAll world.tallied demands small).2
      (Cache.serveAll world.tallied demands large).2 := by
  induction demands generalizing small large with
  | nil => exact h
  | cons demand rest ih => exact ih (h.serve alone narrower demand)

end Abreast

variable [order : WellFoundedRelation K] (world : Computing K V E W order.rel)

def calls (demands : List (Demand K)) (s : Cache K V × W) : List K :=
  (serveAll world.tallied demands (s.1, s.2, [])).2.2.2

/-- What the demands make of the larger cache, beside what they make of the smaller one. It holds all that
the smaller one holds, it has computed no more often, and its answers are the same. -/
structure Surpasses (demands : List (Demand K)) (small large : Cache K V × W) : Prop where
  held : ∀ key ∈ (serveAll world demands small).2.1.keys, key ∈ (serveAll world demands large).2.1.keys
  calls : (calls world demands large).length ≤ (calls world demands small).length
  same : ∀ key, (get world key (serveAll world demands small).2).1 =
    (get world key (serveAll world demands large).2).1

variable {world} {outcome : K → Outcome E V} {m n : Option Nat}

/-- After any requests, a cache whose entries do not expire does no worse than one with less room. -/
theorem serveAll_surpasses (alone : ∀ key w, (world.compute key w).1.ComesTo (outcome key))
    (narrower : Narrower m n) (demands : List (Demand K)) (w w' : W) :
    Surpasses world demands (.empty ⟨none, m⟩, w) (.empty ⟨none, n⟩, w') := by
  have start : Abreast m n outcome (.empty ⟨none, m⟩, w, []) (.empty ⟨none, n⟩, w', []) :=
    ⟨.empty rfl, .empty rfl, .nil, .refl _⟩
  have served := start.serveAll alone narrower demands
  obtain ⟨tally, ran⟩ := Tallies.serveAll world demands (.empty ⟨none, m⟩) w []
  obtain ⟨tally', ran'⟩ := Tallies.serveAll world demands (.empty ⟨none, n⟩) w' []
  rw [ran, ran'] at served
  refine ⟨served.keys.sublist.subset, ?_, fun key => ?_⟩
  · rw [calls, calls, ran, ran']
    exact served.calls.length_le
  · exact (served.narrow.answer alone key _).trans (served.wide.answer alone key _).symm

/-- A cache that has room for one key computes its value again when another one has been asked for, and
a cache that has room for two does not. -/
theorem serveAll_surpasses_two :
    (∀ key w, (positive.compute key w).1.ComesTo (if key = 0 then .failed () else .value key)) ∧
      Narrower (some 1) (some 2) ∧
      Surpasses positive [.get 1, .get 2, .get 0, .getIfPresent 1, .get 3, .invalidate (· = 3), .get 1]
        (.empty ⟨none, some 1⟩, ()) (.empty ⟨none, some 2⟩, ()) ∧
      calls positive [.get 1, .get 2, .get 0, .getIfPresent 1, .get 3, .invalidate (· = 3), .get 1]
        (.empty ⟨none, some 1⟩, ()) = [1, 3, 0, 2, 1] ∧
      calls positive [.get 1, .get 2, .get 0, .getIfPresent 1, .get 3, .invalidate (· = 3), .get 1]
        (.empty ⟨none, some 2⟩, ()) = [3, 0, 2, 1] := by
  have narrower : Narrower (some 1) (some 2) := by
    rw [Narrower]
    decide
  exact ⟨positive_alone, narrower, serveAll_surpasses positive_alone narrower _ () (), by cbv, by cbv⟩

end Cache

end Logicless
