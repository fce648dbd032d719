/-!
# Configuration

The values that an engine is built with, and the named sets of them.
-/

namespace Logicless

/-- A span of time in nanoseconds. -/
structure Duration where
  nanos : Nat
deriving DecidableEq, Repr

namespace Duration

def ofMillis (n : Nat) : Duration := ⟨n * 1000000⟩

def seconds (d : Duration) : Nat := d.nanos / 1000000000

def subsecNanos (d : Duration) : Nat := d.nanos % 1000000000

end Duration

structure Config where
  /-- Learn how single names are resolved. -/
  hintsEnabled : Bool
  /-- Cache compiled templates and sources. -/
  templateCacheEnabled : Bool
  templateCacheExpiration : Option Duration
  /-- How many positions of members are kept. -/
  memberCacheMaxSize : Option Nat
  /-- How often one template may be nested within itself. -/
  nestingLimit : Nat
  /-- Write values without escaping. -/
  skipEscaping : Bool
  /-- Compile all known templates when the engine is built. -/
  precompile : Bool
deriving DecidableEq, Repr

namespace Config

def standard : Config where
  hintsEnabled := true
  templateCacheEnabled := true
  templateCacheExpiration := none
  memberCacheMaxSize := some 10000
  nestingLimit := 10
  skipEscaping := false
  precompile := false

def highPerformance : Config :=
  { standard with memberCacheMaxSize := none, precompile := true }

def noCaching : Config :=
  { standard with
    hintsEnabled := false, templateCacheEnabled := false, memberCacheMaxSize := some 0 }

def testing : Config :=
  { standard with
    templateCacheExpiration := some (.ofMillis 100), memberCacheMaxSize := some 100
    nestingLimit := 5 }

end Config

end Logicless
