import Logicless.Proofs.Accounting

/-!
# Recursion through a cache

The value of a key may be computed from the values of keys below it. A computing cache then gives what
the recursion gives without a cache, however little the cache holds and however soon that expires, and
no request waits for a computation that is under way (`Cache.serveAll_recursion`).
-/

namespace Logicless

/-! ### Recursion without a cache -/

/-- How the value of the key `k` is made from the values of keys below it. -/
inductive Recipe {K : Type} (V E : Type) (below : K → K → Prop) (k : K) : Type where
  | done (result : Except E V)
  | abort
  | query (key : K) (h : below key k) (next : Except E V → Recipe V E below k)

/-- What the recipe comes to, if anything, when its queries are answered by `ask`. -/
def Recipe.run {K V E : Type} {below : K → K → Prop} {k : K}
    (ask : (key : K) → below key k → Option (Except E V)) : Recipe V E below k → Option (Except E V)
  | .done result => some result
  | .abort => none
  | .query key h next =>
    match ask key h with
    | some result => (next result).run ask
    | none => none

def recursion {K V E : Type} [order : WellFoundedRelation K]
    (recipe : (key : K) → Recipe V E order.rel key) (key : K) : Option (Except E V) :=
  (recipe key).run fun k _ => recursion recipe k
termination_by key

def Outcome.ofResult {V E : Type} : Option (Except E V) → Outcome E V
  | some (.ok v) => .value v
  | some (.error e) => .failed e
  | none => .aborted

inductive Computation.Follows {K V E : Type} {below : K → K → Prop} {k : K} :
    Computation V E below k → Recipe V E below k → Prop where
  | done (result : Except E V) : Follows (.done result) (.done result)
  | abort : Follows .abort .abort
  | query (key : K) (h : below key k) {next : Except E V → Computation V E below k}
      {next' : Except E V → Recipe V E below k} (follows : ∀ result, Follows (next result) (next' result)) :
      Follows (.query key h next) (.query key h next')
  | peek (key : K) {next : Option V → Computation V E below k} {recipe : Recipe V E below k}
      (follows : ∀ seen, Follows (next seen) recipe) : Follows (.peek key next) recipe
  | invalidate (matching : K → Bool) {next : Computation V E below k} {recipe : Recipe V E below k}
      (follows : Follows next recipe) : Follows (.invalidate matching next) recipe
  | clear {next : Computation V E below k} {recipe : Recipe V E below k} (follows : Follows next recipe) :
      Follows (.clear next) recipe
  | wait (nanos : Nat) {next : Computation V E below k} {recipe : Recipe V E below k}
      (follows : Follows next recipe) : Follows (.wait nanos next) recipe

namespace Cache

variable {K V E W : Type}

/-! ### Answers -/

def Recites (answer : K → Option (Except E V)) (c : Cache K V) : Prop :=
  ∀ e ∈ c.entries, answer e.key = some (.ok e.value)

structure Gives (answer : K → Option (Except E V)) (result : Option (Except E V)) (c : Cache K V)
    (got : Outcome E V × Cache K V × W) : Prop where
  outcome : got.1 = .ofResult result
  recites : got.2.1.Recites answer
  inFlight : got.2.1.inFlight = c.inFlight

theorem Gives.of_inFlight {answer : K → Option (Except E V)} {result : Option (Except E V)}
    {c c' : Cache K V} {got : Outcome E V × Cache K V × W} (h : Gives answer result c' got)
    (same : c'.inFlight = c.inFlight) : Gives answer result c got :=
  ⟨h.outcome, h.recites, h.inFlight.trans same⟩

section

variable [DecidableEq K] [order : WellFoundedRelation K] {world : Computing K V E W order.rel}
  {answer : K → Option (Except E V)} {recipe : (key : K) → Recipe V E order.rel key}

/-- The request for a key gives its value, if only computations of keys above it are under way. -/
def Recurs (world : Computing K V E W order.rel) (answer : K → Option (Except E V)) (key : K) : Prop :=
  ∀ (c : Cache K V) (w : W), c.Recites answer →
    (∀ k ∈ c.inFlight, Relation.TransGen order.rel key k) → Gives answer (answer key) c (get world key (c, w))

theorem run_gives {key : K} (ask : ∀ k, order.rel k key → Recurs world answer k)
    {computation : Computation V E order.rel key} {recipe : Recipe V E order.rel key}
    (follows : computation.Follows recipe) {c : Cache K V} (recites : c.Recites answer)
    (above : ∀ k ∈ c.inFlight, k = key ∨ Relation.TransGen order.rel key k) (w : W) :
    Gives answer (recipe.run fun k _ => answer k) c
      (computation.run world.notice (fun k _ => get world k) (c, w)) := by
  induction follows generalizing c w with
  | done result => cases result <;> exact ⟨rfl, recites, rfl⟩
  | abort => exact ⟨rfl, recites, rfl⟩
  | query k h follows ih =>
    have beneath : ∀ k' ∈ c.inFlight, Relation.TransGen order.rel k k' := by
      intro k' flight
      rcases above k' flight with rfl | above
      · exact .single h
      · exact .head h above
    have asked := ask k h c w recites beneath
    simp only [Computation.run, bind, StateT.bind, Recipe.run]
    rcases got : get world k (c, w) with ⟨outcome, c', w'⟩
    rw [got] at asked
    obtain ⟨rfl, recites, inFlight⟩ := asked
    rw [← inFlight] at above
    rcases answered : answer k with _ | e | v
    · exact ⟨rfl, recites, inFlight⟩
    · exact (ih (.error e) recites above w').of_inFlight inFlight
    · exact (ih (.ok v) recites above w').of_inFlight inFlight
  | peek k follows ih =>
    have same := inFlight_lookup k c
    rw [← same] at above
    exact (ih _ (fun e member => recites e (mem_lookup member)) above _).of_inFlight same
  | invalidate matching follows ih =>
    have kept : (c.invalidate matching).2.Recites answer :=
      fun e member => recites e (List.mem_filter.mp member).1
    exact (ih kept above _).of_inFlight rfl
  | clear follows ih =>
    have kept : c.clear.2.Recites answer := fun e member => absurd member List.not_mem_nil
    exact (ih kept above _).of_inFlight rfl
  | wait nanos follows ih =>
    have kept : (c.wait nanos).Recites answer := recites
    exact (ih kept above w).of_inFlight rfl

/-- What is computed is stored, and its key is no longer in flight. -/
theorem closed_gives {key : K} {result : Option (Except E V)} {c : Cache K V}
    {got : Outcome E V × Cache K V × W} (free : key ∉ c.inFlight) (comes : answer key = result)
    (ran : Gives answer result (computing key c) got) :
    Gives answer result c (closed world.notice key got) := by
  obtain ⟨outcome', c', w'⟩ := got
  obtain ⟨outcome, recites, inFlight⟩ := ran
  obtain rfl : outcome' = _ := outcome
  have landed : (key :: c.inFlight).filter (fun k => k ≠ key) = c.inFlight := by
    rw [List.filter_cons_of_neg (by simp)]
    exact List.filter_eq_self.mpr fun k member => by simpa using ne_of_mem_of_not_mem member free
  have settled : (c'.settle key).inFlight = c.inFlight := by
    rw [settle, inFlight, ← landed, ← inFlight_lookup key c]
    rfl
  rcases result with _ | e | v
  · exact ⟨rfl, recites, settled⟩
  · exact ⟨rfl, recites, settled⟩
  · refine ⟨rfl, fun e member => ?_, ?_⟩
    · rcases mem_store member with member | ⟨same, value⟩
      · exact recites e member
      · rw [same, value, comes]
    · change ((c'.store key v).2.settle key).inFlight = c.inFlight
      rw [settle, inFlight_store]
      exact settled

theorem get_gives (follows : ∀ key w, (world.compute key w).1.Follows (recipe key)) (key : K) :
    Recurs world (recursion recipe) key := by
  induction key using order.wf.induction with
  | _ key ask =>
    intro c w recites above
    have looked : (c.lookup key).2.2.Recites (recursion recipe) :=
      fun e member => recites e (mem_lookup member)
    cases seen : (c.lookup key).1 with
    | some v =>
      obtain ⟨e, member, rfl, rfl⟩ := lookup_held seen
      rw [get_of_held seen]
      refine ⟨?_, looked, inFlight_lookup _ c⟩
      rw [recites e member]
      rfl
    | none =>
      have free : key ∉ c.inFlight := fun flight =>
        order.wf.transGen.irrefl.irrefl key (above key flight)
      rcases computed : world.compute key (told world.notice (c.lookup key).2.1 w) with
        ⟨computation, w'⟩
      have own := follows key (told world.notice (c.lookup key).2.1 w)
      rw [computed] at own
      rw [get_of_computation seen free computed]
      have made : recursion recipe key = (recipe key).run fun k _ => recursion recipe k := by
        rw [recursion]
      have beneath : ∀ k ∈ (computing key c).inFlight, k = key ∨ Relation.TransGen order.rel key k := by
        intro k flight
        by_cases same : k = key
        · exact Or.inl same
        · exact Or.inr (above k (inFlight_computing flight same))
      have ran := run_gives ask own (c := computing key c)
        (fun e member => recites e (mem_computing member)) beneath w'
      rw [made]
      exact closed_gives free made ran

/-- Between requests nothing is in flight. -/
theorem serve_gives (follows : ∀ key w, (world.compute key w).1.Follows (recipe key))
    {c : Cache K V} (recites : c.Recites (recursion recipe)) (idle : c.inFlight = [])
    (demand : Demand K) (w : W) :
    (serve world demand (c, w)).2.1.Recites (recursion recipe) ∧
      (serve world demand (c, w)).2.1.inFlight = [] := by
  have alone (key : K) : ∀ k ∈ c.inFlight, Relation.TransGen order.rel key k := by
    rw [idle]
    exact List.forall_mem_nil _
  cases demand with
  | get key =>
    have given := get_gives follows key c w recites (alone key)
    exact ⟨given.recites, given.inFlight.trans idle⟩
  | getIfPresent key =>
    exact ⟨fun e member => recites e (mem_lookup member), (inFlight_lookup key c).trans idle⟩
  | present | size | invalidate =>
    exact ⟨fun e member => recites e (List.mem_filter.mp member).1, idle⟩
  | clear => exact ⟨fun e member => absurd member List.not_mem_nil, idle⟩
  | wait nanos => exact ⟨recites, idle⟩

theorem serveAll_gives (follows : ∀ key w, (world.compute key w).1.Follows (recipe key))
    (demands : List (Demand K)) {c : Cache K V} (recites : c.Recites (recursion recipe))
    (idle : c.inFlight = []) (w : W) :
    (serveAll world demands (c, w)).2.1.Recites (recursion recipe) ∧
      (serveAll world demands (c, w)).2.1.inFlight = [] := by
  induction demands generalizing c w with
  | nil => exact ⟨recites, idle⟩
  | cons demand rest ih =>
    obtain ⟨recites, idle⟩ := serve_gives follows recites idle demand w
    exact ih recites idle _

end

/-! ### Flight -/

section

variable {below : K → K → Prop}

def Control.flying : Control V E below → List K
  | .claimed key => [key]
  | .running key _ => [key]
  | .closing key _ => [key]
  | .settling key _ => [key]
  | _ => []

def Control.isWaiting : Control V E below → Bool
  | .closing _ .waiting => true
  | .settling _ .waiting => true
  | .answered .waiting => true
  | _ => false

end

variable [order : WellFoundedRelation K]

/-- The keys in flight are those of the computations that are under way, and no request waits for one. -/
structure Point.Afloat (p : Point V E W order.rel) : Prop where
  nested : p.Nested
  flight : ∀ key ∈ p.cache.inFlight, key ∈ p.control.flying ++ p.stack.map (·.key)
  awake : p.control.isWaiting = false

variable [DecidableEq K]

omit order in
theorem Deed.inFlight_apply {deed : Deed K V} {c : Cache K V} {key : K}
    (flight : key ∈ (deed.apply c).2.2.inFlight) :
    deed = .claim key ∨ (key ∈ c.inFlight ∧ deed ≠ .settle key) := by
  cases deed with
  | lookup k =>
    have same := inFlight_lookup k c
    exact Or.inr ⟨same ▸ flight, nofun⟩
  | store k v =>
    have same := inFlight_store k v c
    exact Or.inr ⟨same ▸ flight, nofun⟩
  | claim k =>
    rcases List.mem_cons.mp flight with rfl | flight
    · exact Or.inl rfl
    · exact Or.inr ⟨flight, nofun⟩
  | settle k =>
    obtain ⟨flight, other⟩ := inFlight_settle flight
    refine Or.inr ⟨flight, ?_⟩
    rintro ⟨⟩
    exact other rfl
  | _ => exact Or.inr ⟨flight, nofun⟩

theorem Point.step_afloat {world : Computing K V E W order.rel} {p : Point V E W order.rel}
    (afloat : p.Afloat) : (p.step world).Afloat := by
  have kept (key : K) (flight : key ∈ (p.deed.apply p.cache).2.2.inFlight) :
      p.deed = .claim key ∨ (key ∈ p.control.flying ++ p.stack.map (·.key) ∧ p.deed ≠ .settle key) :=
    (Deed.inFlight_apply flight).imp_right fun before => ⟨afloat.flight key before.1, before.2⟩
  suffices (∀ key ∈ (p.step world).cache.inFlight,
      key ∈ (p.step world).control.flying ++ (p.step world).stack.map (·.key)) ∧
        (p.step world).control.isWaiting = false from
    ⟨step_nested afloat.nested, this.1, this.2⟩
  obtain ⟨nested, before, awake⟩ := afloat
  -- Unless it claims a key, the step puts none in flight.
  have same (other : ∀ key, p.deed ≠ .claim key) (key : K)
      (flight : key ∈ (p.deed.apply p.cache).2.2.inFlight) :
      key ∈ p.control.flying ++ p.stack.map (·.key) := ((kept key flight).resolve_left (other key)).1
  obtain ⟨control, stack, demands, c, w, log⟩ := p
  cases control with
  | ready =>
    cases demands with
    | nil => exact ⟨same (fun _ claims => by cases claims), rfl⟩
    | cons demand rest =>
      have same := same fun _ claims => by cases demand <;> cases claims
      cases demand <;> exact ⟨same, rfl⟩
  | asked key =>
    have same := same fun _ claims => by cases claims
    cases seen : (c.lookup key).1 with
    | some v =>
      rw [step_asked_of_held seen]
      exact ⟨same, rfl⟩
    | none =>
      have free : key ∉ c.inFlight := fun flight => order.wf.transGen.irrefl.irrefl key
        ((List.pairwise_cons.mp nested.descending).1 key (before key flight))
      rw [step_asked_of_missed seen free]
      exact ⟨same, rfl⟩
  | missed key =>
    refine ⟨fun k flight => ?_, rfl⟩
    rcases kept k flight with claims | ⟨flight, _⟩
    · cases claims
      exact List.mem_cons_self
    · exact List.mem_cons_of_mem _ flight
  | claimed key =>
    have same := same fun _ claims => by cases claims
    simp only [step, deed, Deed.apply, resume] at same ⊢
    cases (c.lookup key).1 with
    | some v => exact ⟨same, rfl⟩
    | none => exact ⟨same, rfl⟩
  | running key computation =>
    have same := same fun _ claims => by cases computation <;> cases claims
    cases computation with
    | done r => cases r <;> exact ⟨same, rfl⟩
    | _ => exact ⟨same, rfl⟩
  | closing key outcome =>
    cases outcome with
    | waiting => cases awake
    | _ => exact ⟨same (fun _ claims => by cases claims), rfl⟩
  | settling key outcome =>
    refine ⟨fun k flight => ?_, ?_⟩
    · rcases kept k flight with claims | ⟨member, other⟩
      · cases claims
      · exact (List.mem_cons.mp member).resolve_left fun same => other (congrArg _ same.symm)
    · cases outcome <;> exact awake
  | answered outcome =>
    -- The computation on top of the stack goes on.
    have same := same fun _ claims => by cases claims
    cases stack with
    | nil => exact ⟨same, rfl⟩
    | cons waiting rest =>
      cases outcome with
      | waiting => cases awake
      | _ => exact ⟨same, rfl⟩

theorem course_afloat (world : Computing K V E W order.rel) (settings : CacheSettings)
    (demands : List (Demand K)) (w : W) (n : Nat) :
    ((Point.step world)^[n] (.start settings demands w)).Afloat := by
  induction n with
  | zero => exact ⟨(course_nested world settings demands w 0).1, nofun, rfl⟩
  | succ n ih =>
    rw [Function.iterate_succ_apply']
    exact Point.step_afloat ih

/-! ### Runs -/

/-- What is known of a cache after demands. Nothing is in flight, and a request for a key gives what the
recursion gives, and leaves nothing in flight. On the way there, no request waits for another one. -/
structure Memoised (world : Computing K V E W order.rel) (answer : K → Option (Except E V))
    (settings : CacheSettings) (demands : List (Demand K)) (w : W) : Prop where
  idle : (serveAll world demands (.empty settings, w)).2.1.inFlight = []
  gives : ∀ key, (get world key (serveAll world demands (.empty settings, w)).2).1 = .ofResult (answer key)
  settles : ∀ key, (get world key (serveAll world demands (.empty settings, w)).2).2.1.inFlight = []
  awake : ∀ key n, ((Point.step world)^[n] (.start settings (demands ++ [.get key]) w)).control ≠
    .answered .waiting

/-- After any requests to a cache, it answers as if it held nothing. -/
theorem serveAll_recursion {world : Computing K V E W order.rel}
    {recipe : (key : K) → Recipe V E order.rel key}
    (follows : ∀ key w, (world.compute key w).1.Follows (recipe key)) (settings : CacheSettings)
    (demands : List (Demand K)) (w : W) : Memoised world (recursion recipe) settings demands w := by
  have start : (empty settings : Cache K V).Recites (recursion recipe) :=
    fun e member => absurd member List.not_mem_nil
  obtain ⟨recites, idle⟩ := serveAll_gives follows demands start rfl w
  have given (key : K) := get_gives follows key _ (serveAll world demands (.empty settings, w)).2.2 recites
    (by rw [idle]; exact List.forall_mem_nil _)
  refine ⟨idle, fun key => (given key).outcome, fun key => (given key).inFlight.trans idle, ?_⟩
  intro key n waiting
  have awake := (course_afloat world settings (demands ++ [.get key]) w n).awake
  rw [waiting] at awake
  cases awake

/-- A Fibonacci number is the sum of the two before it. Every so often all that is held is dropped. -/
def fibonacci : Computing Nat Nat Unit Unit (· < ·) where
  compute key w :=
    match key with
    | 0 => (.done (.ok 0), w)
    | 1 => (.done (.ok 1), w)
    | n + 2 =>
      (.query n (by omega) fun
        | .error e => .done (.error e)
        | .ok a => .clear (.peek n fun _ => .query (n + 1) (by omega) fun r => .done (r.map (a + ·))), w)
  notice _ w := w

def fibonacciRecipe : (key : Nat) → Recipe Nat Unit (· < ·) key
  | 0 => .done (.ok 0)
  | 1 => .done (.ok 1)
  | n + 2 =>
    .query n (by omega) fun
      | .error e => .done (.error e)
      | .ok a => .query (n + 1) (by omega) fun r => .done (r.map (a + ·))

/-- Where there is room for one number, and that for no time, the numbers are as they should be. -/
theorem serveAll_recursion_fibonacci :
    (∀ key w, (fibonacci.compute key w).1.Follows (fibonacciRecipe key)) ∧
      Memoised fibonacci (recursion fibonacciRecipe) ⟨some 0, some 1⟩ [.get 3, .invalidate (· = 2)] () ∧
      (get fibonacci 6 (serveAll fibonacci [.get 3, .invalidate (· = 2)]
        (.empty ⟨some 0, some 1⟩, ())).2).1 = .value 8 := by
  have follows (key : Nat) (w : Unit) : (fibonacci.compute key w).1.Follows (fibonacciRecipe key) := by
    match key with
    | 0 => exact .done _
    | 1 => exact .done _
    | n + 2 =>
      refine .query _ _ fun r => ?_
      cases r with
      | error e => exact .done _
      | ok a => exact .clear (.peek _ fun _ => .query _ _ fun r => .done _)
  have known := serveAll_recursion follows ⟨some 0, some 1⟩ [.get 3, .invalidate (· = 2)] ()
  refine ⟨follows, known, ?_⟩
  rw [known.gives 6]
  cbv

end Cache

end Logicless
