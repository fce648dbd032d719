import Logicless.Cache

/-!
# Computing caches

`Cache.get` computes the value of a key that is not held. A computation may use the same cache. Its
queries go down a well-founded relation on keys, so that no value is awaited by its own computation.
-/

namespace Logicless

/-- A computation for the key `k` over a cache. -/
inductive Computation {K : Type} (V E : Type) (below : K → K → Prop) (k : K) : Type where
  | done (result : Except E V)
  | abort
  | query (key : K) (h : below key k) (next : Except E V → Computation V E below k)
  | peek (key : K) (next : Option V → Computation V E below k)
  | invalidate (matching : K → Bool) (next : Computation V E below k)
  | clear (next : Computation V E below k)
  | wait (nanos : Nat) (next : Computation V E below k)

/-- What a request for a value comes to. An aborted computation gives neither value nor error, and
a request that waits for a computation it is part of never ends. -/
inductive Outcome (E V : Type) where
  | value (v : V)
  | failed (e : E)
  | aborted
  | waiting
deriving DecidableEq, Repr

/-- The world around a cache: the computing function, and who is told of changes. -/
structure Computing (K V E W : Type) (below : K → K → Prop) where
  compute : (k : K) → W → Computation V E below k × W
  notice : Change K → W → W

/-- A request to a cache in its world. -/
abbrev Cache.Request (K V W α : Type) : Type :=
  StateM (Cache K V × W) α

namespace Cache

variable {K V E W : Type} [DecidableEq K]

/-- Change the cache and tell of the changes. -/
def perform (notice : Change K → W → W) (op : Cache K V → α × List (Change K) × Cache K V) :
    Request K V W α := fun (c, w) =>
  let (a, changes, c) := op c
  (a, c, changes.foldl (fun w change => notice change w) w)

/-- Change the cache, tell of the changes, and give nothing back. -/
def perform' (notice : Change K → W → W) (op : Cache K V → List (Change K) × Cache K V) :
    Request K V W Unit :=
  perform notice fun c => ((), op c)

def onCache (f : Cache K V → Cache K V) : Request K V W Unit :=
  modify fun (c, w) => (f c, w)

end Cache

/-- Run a computation. Its queries are answered by `ask`. -/
def Computation.run {K V E W : Type} [DecidableEq K] {below : K → K → Prop} {k : K}
    (notice : Change K → W → W)
    (ask : (key : K) → below key k → Cache.Request K V W (Outcome E V)) :
    Computation V E below k → Cache.Request K V W (Outcome E V)
  | .done (.ok v) => pure (.value v)
  | .done (.error e) => pure (.failed e)
  | .abort => pure .aborted
  | .query key h next => do
    match ← ask key h with
    | .value v => (next (.ok v)).run notice ask
    | .failed e => (next (.error e)).run notice ask
    | .aborted => pure .aborted
    | .waiting => pure .waiting
  | .peek key next => do
    (next (← Cache.perform notice (Cache.lookup key))).run notice ask
  | .invalidate matching next => do
    Cache.perform' notice (Cache.invalidate matching)
    next.run notice ask
  | .clear next => do
    Cache.perform' notice Cache.clear
    next.run notice ask
  | .wait nanos next => do
    Cache.onCache (Cache.wait nanos)
    next.run notice ask

namespace Cache

variable {K V E W : Type} [DecidableEq K] [order : WellFoundedRelation K]

/-- The value of a key, computed and stored if it is not held. A failure is not stored. -/
def get (world : Computing K V E W order.rel) (key : K) : Request K V W (Outcome E V) := do
  match ← perform world.notice (lookup key) with
  | some v => return .value v
  | none =>
    if (← StateT.get).1.isInFlight key then return .waiting
    onCache (claim key)
    let outcome ← do
      match ← perform world.notice (lookup key) with
      | some v => pure (.value v)
      | none =>
        let computation ← modifyGet fun (c, w) =>
          let (computation, w) := world.compute key w
          (computation, c, w)
        let outcome ← computation.run world.notice fun k _ => get world k
        if let .value v := outcome then perform' world.notice (store key v)
        pure outcome
    onCache (settle key)
    return outcome
termination_by key

/-- The value of a key that is held. -/
def getIfPresent (notice : Change K → W → W) (key : K) : Request K V W (Option V) :=
  perform notice (lookup key)

end Cache

end Logicless
