/-!
# Caches

A cache holds computed values, the most recently used first. A bounded cache evicts the least
recently used entry, and entries that have been held for too long count as absent.
-/

namespace Logicless

/-- Why an entry left a cache: it was evicted for want of room, found expired, or removed by
request. -/
inductive Cause where
  | size
  | expired
  | explicit
deriving DecidableEq, Repr

inductive Change (K : Type) where
  | stored (key : K)
  | removed (key : K) (cause : Cause)
deriving DecidableEq, Repr

/-- Entries expire after `expiration` nanoseconds. A cache of maximum size 0 stores nothing. -/
structure CacheSettings where
  expiration : Option Nat
  maxSize : Option Nat
deriving DecidableEq, Repr

namespace CacheSettings

/-- The size of the table that a bounded cache is made with. The table has a power of two of places,
with an eighth of them to spare, and a place takes 17 bytes. -/
def tableBytes (s : CacheSettings) : Nat :=
  match s.maxSize with
  | none => 0
  | some n => 17 * (8 * n / 7).nextPowerOfTwo + 16

/-- Whether the table can be addressed. -/
def isAddressable (s : CacheSettings) : Bool :=
  s.tableBytes < Nat.pow 2 63

end CacheSettings

structure Entry (K V : Type) where
  key : K
  value : V
  storedAt : Nat

/-- The clock counts nanoseconds and moves on whenever it is read. A key is in flight while its
value is being computed. -/
structure Cache (K V : Type) where
  settings : CacheSettings
  clock : Nat
  entries : List (Entry K V)
  inFlight : List K

namespace Cache

variable {K V : Type} [DecidableEq K]

def empty (settings : CacheSettings) : Cache K V :=
  ⟨settings, 0, [], []⟩

def keys (c : Cache K V) : List K :=
  c.entries.map (·.key)

def tick (c : Cache K V) : Cache K V :=
  { c with clock := c.clock + 1 }

/-- Let time pass. -/
def wait (nanos : Nat) (c : Cache K V) : Cache K V :=
  { c with clock := c.clock + nanos }

def isExpired (c : Cache K V) (e : Entry K V) : Bool :=
  match c.settings.expiration with
  | none => false
  | some limit => limit < c.clock - e.storedAt

def find? (c : Cache K V) (key : K) : Option (Entry K V) :=
  c.entries.find? fun e => e.key = key

def erase (c : Cache K V) (key : K) : Cache K V :=
  { c with entries := c.entries.filter fun e => e.key ≠ key }

/-- The value of a live entry, which becomes the most recently used. -/
def lookup (key : K) (c : Cache K V) : Option V × List (Change K) × Cache K V :=
  let c := c.tick
  match c.find? key with
  | none => (none, [], c)
  | some e =>
    if c.isExpired e then (none, [.removed key .expired], c.erase key)
    else (some e.value, [], { c with entries := e :: (c.erase key).entries })

/-- The entries that remain, and the least recently used one if there are more than `maxSize`. -/
def evict (maxSize : Option Nat) (entries : List (Entry K V)) : List (Entry K V) × List (Change K) :=
  match maxSize with
  | none => (entries, [])
  | some n =>
    (entries.take n, (entries.drop n).map fun e => .removed e.key .size)

/-- The value becomes the most recently used one. -/
def store (key : K) (value : V) (c : Cache K V) : List (Change K) × Cache K V :=
  if c.settings.maxSize = some 0 then ([], c)
  else
    let c := c.tick
    let (entries, evicted) :=
      evict c.settings.maxSize (⟨key, value, c.clock⟩ :: (c.erase key).entries)
    (.stored key :: evicted, { c with entries })

/-- Remove the entries that satisfy `drop`. -/
def removeWhere (drop : Entry K V → Bool) (cause : Cause) (c : Cache K V) :
    List (Change K) × Cache K V :=
  ((c.entries.filter drop).map fun e => .removed e.key cause,
    { c with entries := c.entries.filter fun e => !drop e })

def purge (c : Cache K V) : List (Change K) × Cache K V :=
  let c := c.tick
  c.removeWhere c.isExpired .expired

/-- Remove the keys that match. -/
def invalidate (matching : K → Bool) (c : Cache K V) : List (Change K) × Cache K V :=
  c.removeWhere (fun e => matching e.key) .explicit

/-- Remove all keys, the least recently used first. -/
def clear (c : Cache K V) : List (Change K) × Cache K V :=
  (c.entries.reverse.map fun e => .removed e.key .explicit, { c with entries := [] })

/-- The live entries. -/
def present (c : Cache K V) : List (K × V) × List (Change K) × Cache K V :=
  let (changes, c) := c.purge
  (c.entries.map fun e => (e.key, e.value), changes, c)

/-- The number of live entries. -/
def size (c : Cache K V) : Nat × List (Change K) × Cache K V :=
  let (changes, c) := c.purge
  (c.entries.length, changes, c)

/-! ### Flight -/

def isInFlight (c : Cache K V) (key : K) : Bool :=
  key ∈ c.inFlight

def claim (key : K) (c : Cache K V) : Cache K V :=
  { c with inFlight := key :: c.inFlight }

def settle (key : K) (c : Cache K V) : Cache K V :=
  { c with inFlight := c.inFlight.filter fun k => k ≠ key }

end Cache

end Logicless
