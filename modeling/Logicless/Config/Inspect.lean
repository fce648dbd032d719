import Logicless.Config
import Logicless.Text.Record

/-!
# Configurations in diagnostics
-/

namespace Logicless

open Text (field flag optional record)

namespace Duration

/-- The digits of a fraction of a unit of `10 ^ places`, without zeros at the end. -/
def fractionDigits (places n : Nat) : List Char :=
  let digits := Nat.toDigits 10 n
  let padded := List.replicate (places - digits.length) '0' ++ digits
  (padded.reverse.dropWhile (· = '0')).reverse

/-- A count of units of `10 ^ places` nanoseconds, with its fraction. -/
def inUnits (places : Nat) (unit : String) (nanos : Nat) : String :=
  let unitSize := Nat.pow 10 places
  let fraction := fractionDigits places (nanos % unitSize)
  toString (nanos / unitSize) ++
    (if fraction.isEmpty then "" else "." ++ String.ofList fraction) ++ unit

/-- The largest unit of which there is at least one. -/
def inspect (d : Duration) : String :=
  if 1000000000 ≤ d.nanos then inUnits 9 "s" d.nanos
  else if 1000000 ≤ d.nanos then inUnits 6 "ms" d.nanos
  else if 1000 ≤ d.nanos then inUnits 3 "µs" d.nanos
  else inUnits 0 "ns" d.nanos

end Duration

def Config.inspect (c : Config) : String :=
  record "EngineConfig"
    [field "resolver_hints_enabled" (flag c.hintsEnabled),
     field "template_cache_enabled" (flag c.templateCacheEnabled),
     field "template_cache_expiration" (optional (c.templateCacheExpiration.map (·.inspect))),
     field "reflection_cache_max_size" (optional (c.memberCacheMaxSize.map toString)),
     field "recursive_invocation_limit" (toString c.nestingLimit),
     field "skip_value_escaping" (flag c.skipEscaping),
     field "precompile_all_templates" (flag c.precompile)]

end Logicless
