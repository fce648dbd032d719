import Logicless.Attempt
import Logicless.Cache.Computation
import Logicless.Error

/-!
# Shelves

The cache of one consumer, as a cache factory allots it. The factory may listen to removals, and it
may back the cache by one that holds values of another type.
-/

namespace Logicless

/-- What a shared backing cache holds for a key. -/
inductive Held (V : Type) where
  | own (v : V)
  | foreign

/-- Told of the key, as text, and the cause of each removal. -/
abbrev Listener (σ : Type) := String → Cause → σ → σ

/-- What a factory allots to a consumer. -/
structure Allotment (σ : Type) where
  settings : CacheSettings
  listener : Option (Listener σ)
  foreign : Bool

/-- Where the caches of an engine come from. -/
structure CacheFactory (σ : Type) where
  label : String
  allot : (consumer : String) → CacheSettings → σ → Allotment σ × σ

/-- A factory that grants what is asked for. -/
def CacheFactory.standard : CacheFactory σ where
  label := "DefaultComputingCacheFactory"
  allot _ settings host := (⟨settings, none, false⟩, host)

structure Shelf (σ K V : Type) where
  consumer : String
  listener : Option (Listener σ)
  foreign : Bool
  label : K → String
  cache : Cache K (Held V)

namespace Shelf

variable {σ K V W : Type} [DecidableEq K]

/-- The shelf of an allotment, if the table of its cache can be addressed. -/
def ofAllotment (consumer : String) (label : K → String) (a : Allotment σ) :
    Except Error (Shelf σ K V) :=
  if a.settings.isAddressable then
    .ok { consumer, listener := a.listener, foreign := a.foreign, label
          cache := Cache.empty a.settings }
  else .error (.cacheCapacity consumer)

/-- Tell the listener of a removal. -/
def notice (shelf : Shelf σ K V) : Change K → σ → σ
  | .stored _, host => host
  | .removed key cause, host =>
    match shelf.listener with
    | none => host
    | some listener => listener (shelf.label key) cause host

/-- The world of a shelf: values come from `load`, and `onHost` reaches the host. -/
def world [order : WellFoundedRelation K] (shelf : Shelf σ K V) (load : K → Attempt W Error V)
    (onHost : (σ → σ) → W → W) : Computing K (Held V) Error W order.rel where
  compute key w :=
    if shelf.foreign then (.done (.ok .foreign), w)
    else
      let (r, w) := load key w
      (.done (r.map .own), w)
  notice change w := onHost (shelf.notice change) w

/-- The value that an outcome stands for. -/
def unwrap (shelf : Shelf σ K V) : Outcome Error (Held V) → Except Error V
  | .value (.own v) => .ok v
  | .value .foreign => .error (.cacheTypeMismatch shelf.consumer)
  | .failed e => .error e
  | .aborted | .waiting => .error (.cacheComputation "computing function panicked")

/-- The value of a key, loaded if it is not held. -/
def get [WellFoundedRelation K] (load : K → Attempt W Error V) (onHost : (σ → σ) → W → W) (key : K) :
    Attempt (Shelf σ K V × W) Error V := fun (shelf, w) =>
  let (outcome, cache, w) := Cache.get (shelf.world load onHost) key (shelf.cache, w)
  (shelf.unwrap outcome, { shelf with cache }, w)

/-- Change the cache and tell the listener. -/
def perform (op : Cache K (Held V) → α × List (Change K) × Cache K (Held V)) (shelf : Shelf σ K V)
    (host : σ) : α × Shelf σ K V × σ :=
  let (a, changes, cache) := op shelf.cache
  (a, { shelf with cache }, changes.foldl (fun host change => shelf.notice change host) host)

def invalidate (matching : K → Bool) (shelf : Shelf σ K V) (host : σ) : Shelf σ K V × σ :=
  (shelf.perform (fun c => ((), c.invalidate matching)) host).2

def size (shelf : Shelf σ K V) (host : σ) : Nat × Shelf σ K V × σ :=
  shelf.perform Cache.size host

def wait (nanos : Nat) (shelf : Shelf σ K V) : Shelf σ K V :=
  { shelf with cache := shelf.cache.wait nanos }

end Shelf

end Logicless
