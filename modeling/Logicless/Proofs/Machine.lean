import Logicless.Proofs.Fetch
import Mathlib.Logic.Function.Iterate

/-!
# The course of requests to a computing cache

A cache is asked for values while it computes others. The course of its requests goes one operation
at a time, with the computations that wait for a value on a stack.
-/

namespace Logicless

namespace Cache

variable {K V E W : Type}

inductive Demand (K : Type) where
  | get (key : K)
  | getIfPresent (key : K)
  | present
  | size
  | invalidate (matching : K → Bool)
  | clear
  | wait (nanos : Nat)

inductive Deed (K V : Type) where
  | rest
  | lookup (key : K)
  | store (key : K) (value : V)
  | purge
  | invalidate (matching : K → Bool)
  | clear
  | claim (key : K)
  | settle (key : K)
  | wait (nanos : Nat)

structure Waiting (V E : Type) (below : K → K → Prop) where
  key : K
  next : Except E V → Computation V E below key

/-- What is going on in a cache. A request has been made, its key has been missed and then claimed,
the value is computed, it is stored, the key is settled, and the request is answered. -/
inductive Control (V E : Type) (below : K → K → Prop) where
  | ready
  | asked (key : K)
  | missed (key : K)
  | claimed (key : K)
  | running (key : K) (computation : Computation V E below key)
  | closing (key : K) (outcome : Outcome E V)
  | settling (key : K) (outcome : Outcome E V)
  | answered (outcome : Outcome E V)

structure Point (V E W : Type) (below : K → K → Prop) where
  control : Control V E below
  stack : List (Waiting V E below)
  demands : List (Demand K)
  cache : Cache K V
  world : W
  log : List (Change K)

section

variable [DecidableEq K]

def Deed.apply : Deed K V → Cache K V → Option V × List (Change K) × Cache K V
  | .rest, c => (none, [], c)
  | .lookup key, c => c.lookup key
  | .store key v, c => (none, c.store key v)
  | .purge, c => (none, c.purge)
  | .invalidate matching, c => (none, c.invalidate matching)
  | .clear, c => (none, c.clear)
  | .claim key, c => (none, [], c.claim key)
  | .settle key, c => (none, [], c.settle key)
  | .wait nanos, c => (none, [], c.wait nanos)

end

def Demand.deed : Demand K → Deed K V
  | .get _ => .rest
  | .getIfPresent key => .lookup key
  | .present => .purge
  | .size => .purge
  | .invalidate matching => .invalidate matching
  | .clear => .clear
  | .wait nanos => .wait nanos

end Cache

def Computation.deed {K V E : Type} {below : K → K → Prop} {k : K} :
    Computation V E below k → Cache.Deed K V
  | .peek key _ => .lookup key
  | .invalidate matching _ => .invalidate matching
  | .clear _ => .clear
  | .wait nanos _ => .wait nanos
  | _ => .rest

namespace Cache

namespace Point

variable {K V E W : Type} {below : K → K → Prop}

def deed (p : Point V E W below) : Deed K V :=
  match p.control with
  | .ready =>
    match p.demands with
    | [] => .rest
    | demand :: _ => demand.deed
  | .asked key => .lookup key
  | .missed key => .claim key
  | .claimed key => .lookup key
  | .running _ computation => computation.deed
  | .closing key (.value v) => .store key v
  | .closing _ _ => .rest
  | .settling key _ => .settle key
  | .answered _ => .rest

variable [DecidableEq K]

def changes (p : Point V E W below) : List (Change K) :=
  (p.deed.apply p.cache).2.1

def resume (world : Computing K V E W below) (answer : Option V) (p : Point V E W below) :
    Point V E W below :=
  match p.control with
  | .ready =>
    match p.demands with
    | [] => p
    | .get key :: rest => { p with control := .asked key, demands := rest }
    | _ :: rest => { p with demands := rest }
  | .asked key =>
    match answer with
    | some v => { p with control := .answered (.value v) }
    | none =>
      if p.cache.isInFlight key then { p with control := .answered .waiting }
      else { p with control := .missed key }
  | .missed key => { p with control := .claimed key }
  | .claimed key =>
    match answer with
    | some v => { p with control := .settling key (.value v) }
    | none =>
      let (computation, w) := world.compute key p.world
      { p with control := .running key computation, world := w }
  | .running key computation =>
    match computation with
    | .done (.ok v) => { p with control := .closing key (.value v) }
    | .done (.error e) => { p with control := .closing key (.failed e) }
    | .abort => { p with control := .closing key .aborted }
    | .query k _ next => { p with control := .asked k, stack := ⟨key, next⟩ :: p.stack }
    | .peek _ next => { p with control := .running key (next answer) }
    | .invalidate _ next => { p with control := .running key next }
    | .clear next => { p with control := .running key next }
    | .wait _ next => { p with control := .running key next }
  | .closing key outcome => { p with control := .settling key outcome }
  | .settling _ outcome => { p with control := .answered outcome }
  | .answered outcome =>
    match p.stack with
    | [] => { p with control := .ready }
    | ⟨key, next⟩ :: rest =>
      match outcome with
      | .value v => { p with control := .running key (next (.ok v)), stack := rest }
      | .failed e => { p with control := .running key (next (.error e)), stack := rest }
      | .aborted => { p with control := .closing key .aborted, stack := rest }
      | .waiting => { p with control := .closing key .waiting, stack := rest }

def step (world : Computing K V E W below) (p : Point V E W below) : Point V E W below :=
  resume world (p.deed.apply p.cache).1
    { p with
      cache := (p.deed.apply p.cache).2.2
      world := told world.notice p.changes p.world
      log := p.log ++ p.changes }

theorem step_cache (world : Computing K V E W below) (p : Point V E W below) :
    (step world p).cache = (p.deed.apply p.cache).2.2 ∧ (step world p).log = p.log ++ p.changes := by
  simp only [step, resume]
  repeat' split
  all_goals exact ⟨rfl, rfl⟩

def start (settings : CacheSettings) (demands : List (Demand K)) (w : W) : Point V E W below :=
  ⟨.ready, [], demands, .empty settings, w, []⟩

def Leads (world : Computing K V E W below) (p q : Point V E W below) : Prop :=
  ∃ n, (step world)^[n] p = q

section

variable {world : Computing K V E W below} {key : K} {stack : List (Waiting V E below)}
  {demands : List (Demand K)} {c : Cache K V} {w w' : W} {log : List (Change K)}

theorem step_asked_of_held {v : V} (held : (c.lookup key).1 = some v) :
    step world ⟨.asked key, stack, demands, c, w, log⟩ =
      ⟨.answered (.value v), stack, demands, (c.lookup key).2.2,
        told world.notice (c.lookup key).2.1 w, log ++ (c.lookup key).2.1⟩ := by
  simp only [step, deed, Deed.apply, changes, resume, held]

theorem step_asked_of_inFlight (missed : (c.lookup key).1 = none) (flight : key ∈ c.inFlight) :
    step world ⟨.asked key, stack, demands, c, w, log⟩ =
      ⟨.answered .waiting, stack, demands, (c.lookup key).2.2,
        told world.notice (c.lookup key).2.1 w, log ++ (c.lookup key).2.1⟩ := by
  simp only [step, deed, Deed.apply, changes, resume, missed, isInFlight, inFlight_lookup, flight,
    decide_true, if_true]

theorem step_asked_of_missed (missed : (c.lookup key).1 = none) (flight : key ∉ c.inFlight) :
    step world ⟨.asked key, stack, demands, c, w, log⟩ =
      ⟨.missed key, stack, demands, (c.lookup key).2.2,
        told world.notice (c.lookup key).2.1 w, log ++ (c.lookup key).2.1⟩ := by
  simp only [step, deed, Deed.apply, changes, resume, missed, isInFlight, inFlight_lookup, flight,
    decide_false, Bool.false_eq_true, if_false]

theorem step_claimed_of_absent {computation : Computation V E below key}
    (absent : c.find? key = none) (computed : world.compute key w = (computation, w')) :
    step world ⟨.claimed key, stack, demands, c, w, log⟩ =
      ⟨.running key computation, stack, demands, c.tick, w', log ++ []⟩ := by
  simp only [step, deed, Deed.apply, changes, resume, lookup_absent absent, told, List.foldl_nil,
    computed]

end

theorem Leads.refl (world : Computing K V E W below) (p : Point V E W below) : Leads world p p :=
  ⟨0, rfl⟩

theorem Leads.head {world : Computing K V E W below} {p q : Point V E W below}
    (h : Leads world (step world p) q) : Leads world p q := by
  obtain ⟨n, h⟩ := h
  exact ⟨n + 1, h⟩

theorem Leads.trans {world : Computing K V E W below} {p q r : Point V E W below}
    (h : Leads world p q) (h' : Leads world q r) : Leads world p r := by
  obtain ⟨n, rfl⟩ := h
  obtain ⟨m, rfl⟩ := h'
  exact ⟨m + n, Function.iterate_add_apply _ m n p⟩

end Point

/-! ### Requests -/

variable {K V E W : Type} [DecidableEq K] [order : WellFoundedRelation K]

def serve (world : Computing K V E W order.rel) : Demand K → Request K V W Unit
  | .get key => do let _ ← get world key
  | .getIfPresent key => do let _ ← getIfPresent world.notice key
  | .present => do let _ ← perform world.notice present
  | .size => do let _ ← perform world.notice size
  | .invalidate matching => perform' world.notice (invalidate matching)
  | .clear => perform' world.notice clear
  | .wait nanos => onCache (wait nanos)

def serveAll (world : Computing K V E W order.rel) : List (Demand K) → Request K V W Unit
  | [] => pure ()
  | demand :: rest => do
    serve world demand
    serveAll world rest

/-- Whatever waits for it, the course of a request comes to its answer. -/
def Answers (world : Computing K V E W order.rel) (key : K) : Prop :=
  ∀ stack demands c w log, ∃ log', Point.Leads world ⟨.asked key, stack, demands, c, w, log⟩
    ⟨.answered (get world key (c, w)).1, stack, demands, (get world key (c, w)).2.1,
      (get world key (c, w)).2.2, log'⟩

theorem leads_run {world : Computing K V E W order.rel} {key : K}
    (ask : ∀ k, order.rel k key → Answers world k) (computation : Computation V E order.rel key)
    (stack : List (Waiting V E order.rel)) (demands : List (Demand K)) (c : Cache K V) (w : W)
    (log : List (Change K)) :
    let ran := computation.run world.notice (fun k _ => get world k) (c, w)
    ∃ log', Point.Leads world ⟨.running key computation, stack, demands, c, w, log⟩
      ⟨.closing key ran.1, stack, demands, ran.2.1, ran.2.2, log'⟩ := by
  induction computation generalizing c w log with
  | done r =>
    cases r with
    | ok v => exact ⟨_, .head (.refl _ _)⟩
    | error e => exact ⟨_, .head (.refl _ _)⟩
  | abort => exact ⟨_, .head (.refl _ _)⟩
  | query k h next ih =>
    -- The computation waits on the stack for the whole course of the request.
    obtain ⟨log', asked⟩ := ask k h (⟨key, next⟩ :: stack) demands c w (log ++ [])
    simp only [Computation.run, bind, StateT.bind]
    rcases answer : get world k (c, w) with ⟨outcome, c', w'⟩
    rw [answer] at asked
    cases outcome with
    | value v =>
      obtain ⟨log'', led⟩ := ih (.ok v) c' w' (log' ++ [])
      exact ⟨log'', .head (asked.trans (.head led))⟩
    | failed e =>
      obtain ⟨log'', led⟩ := ih (.error e) c' w' (log' ++ [])
      exact ⟨log'', .head (asked.trans (.head led))⟩
    | aborted => exact ⟨_, .head (asked.trans (.head (.refl _ _)))⟩
    | waiting => exact ⟨_, .head (asked.trans (.head (.refl _ _)))⟩
  | peek k next ih =>
    obtain ⟨log', led⟩ := ih (c.lookup k).1 (c.lookup k).2.2
      (told world.notice (c.lookup k).2.1 w) (log ++ (c.lookup k).2.1)
    exact ⟨log', .head led⟩
  | invalidate matching next ih =>
    obtain ⟨log', led⟩ := ih (c.invalidate matching).2
      (told world.notice (c.invalidate matching).1 w) (log ++ (c.invalidate matching).1)
    exact ⟨log', .head led⟩
  | clear next ih =>
    obtain ⟨log', led⟩ := ih c.clear.2 (told world.notice c.clear.1 w) (log ++ c.clear.1)
    exact ⟨log', .head led⟩
  | wait nanos next ih =>
    obtain ⟨log', led⟩ := ih (c.wait nanos) w (log ++ [])
    exact ⟨log', .head led⟩

theorem leads_get (world : Computing K V E W order.rel) (key : K) : Answers world key := by
  induction key using order.wf.induction with
  | _ key ask =>
    intro stack demands c w log
    have asked (q : Point V E W order.rel) :
        Point.Leads world (Point.step world ⟨.asked key, stack, demands, c, w, log⟩) q →
          Point.Leads world ⟨.asked key, stack, demands, c, w, log⟩ q := .head
    cases seen : (c.lookup key).1 with
    | some v =>
      rw [Point.step_asked_of_held seen] at asked
      rw [get_of_held seen]
      exact ⟨_, asked _ (.refl _ _)⟩
    | none =>
      by_cases flight : key ∈ c.inFlight
      · rw [Point.step_asked_of_inFlight seen flight] at asked
        rw [get_of_inFlight seen flight]
        exact ⟨_, asked _ (.refl _ _)⟩
      · rw [Point.step_asked_of_missed seen flight] at asked
        rcases computed : world.compute key (told world.notice (c.lookup key).2.1 w) with
          ⟨computation, w'⟩
        rw [get_of_computation seen flight computed]
        -- The key is claimed and missed again, so that its value is computed.
        obtain ⟨log', ran⟩ := leads_run ask computation stack demands (computing key c) w'
          (log ++ (c.lookup key).2.1 ++ [] ++ [])
        have absent : ((c.lookup key).2.2.claim key).find? key = none := lookup_missed seen
        have claimed : Point.step world ⟨.claimed key, stack, demands, (c.lookup key).2.2.claim key,
            told world.notice (c.lookup key).2.1 w, log ++ (c.lookup key).2.1 ++ []⟩ = _ :=
          Point.step_claimed_of_absent absent computed
        generalize computation.run world.notice (fun k _ => get world k) (computing key c, w') = ended
          at ran
        obtain ⟨outcome, c', w''⟩ := ended
        have settled : ∃ log'', Point.Leads world ⟨.closing key outcome, stack, demands, c', w'', log'⟩
            ⟨.answered (closed world.notice key (outcome, c', w'')).1, stack, demands,
              (closed world.notice key (outcome, c', w'')).2.1,
              (closed world.notice key (outcome, c', w'')).2.2, log''⟩ := by
          cases outcome <;> exact ⟨_, .head (.head (.refl _ _))⟩
        obtain ⟨log'', settled⟩ := settled
        exact ⟨log'', asked _ (.head (.head (claimed ▸ ran.trans settled)))⟩

theorem leads_serve (world : Computing K V E W order.rel) (demand : Demand K)
    (demands : List (Demand K)) (c : Cache K V) (w : W) (log : List (Change K)) :
    ∃ log', Point.Leads world ⟨.ready, [], demand :: demands, c, w, log⟩
      ⟨.ready, [], demands, (serve world demand (c, w)).2.1, (serve world demand (c, w)).2.2, log'⟩ := by
  cases demand with
  | get key =>
    obtain ⟨log', led⟩ := leads_get world key [] demands c w (log ++ [])
    exact ⟨_, .head (led.trans (.head (.refl _ _)))⟩
  | getIfPresent key => exact ⟨_, .head (.refl _ _)⟩
  | present => exact ⟨_, .head (.refl _ _)⟩
  | size => exact ⟨_, .head (.refl _ _)⟩
  | invalidate matching => exact ⟨_, .head (.refl _ _)⟩
  | clear => exact ⟨_, .head (.refl _ _)⟩
  | wait nanos => exact ⟨_, .head (.refl _ _)⟩

/-- The course of demands comes to where all of them are served. -/
theorem leads_serveAll (world : Computing K V E W order.rel) (demands : List (Demand K))
    (c : Cache K V) (w : W) (log : List (Change K)) :
    ∃ log', Point.Leads world ⟨.ready, [], demands, c, w, log⟩
      ⟨.ready, [], [], (serveAll world demands (c, w)).2.1, (serveAll world demands (c, w)).2.2,
        log'⟩ := by
  induction demands generalizing c w log with
  | nil => exact ⟨log, .refl _ _⟩
  | cons demand rest ih =>
    obtain ⟨log', served⟩ := leads_serve world demand rest c w log
    obtain ⟨log'', led⟩ := ih (serve world demand (c, w)).2.1 (serve world demand (c, w)).2.2 log'
    exact ⟨log'', served.trans led⟩

end Cache

end Logicless
