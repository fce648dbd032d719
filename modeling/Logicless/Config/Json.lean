import Logicless.Config
import Logicless.Json.Number

/-!
# Configurations from JSON

A configuration text names what it changes. Its types are strict: a flag is a boolean and a count a
natural number. Members that name no setting are passed over. A configuration is written with all
its settings.
-/

namespace Logicless

namespace Duration

def ofParts? (seconds nanos : Nat) : Option Duration :=
  if nanos < UInt32.size ∧ seconds + nanos / 1000000000 < UInt64.size then
    some ⟨seconds * 1000000000 + nanos⟩
  else none

/-- A duration is an object of seconds and nanoseconds and nothing else, or a list of both. -/
def ofJson? : Json → Option Duration
  | .object [("secs", .number s), ("nanos", .number n)]
  | .object [("nanos", .number n), ("secs", .number s)]
  | .array [.number s, .number n] => do
    ofParts? (← Json.Number.natural? s) (← Json.Number.natural? n)
  | _ => none

def toJson (d : Duration) : Json :=
  .object [("secs", .number (toString d.seconds)), ("nanos", .number (toString d.subsecNanos))]

end Duration

namespace Config

def readBool? : Json → Option Bool
  | .bool b => some b
  | _ => none

def readNat? : Json → Option Nat
  | .number text => Json.Number.natural? text
  | _ => none

def readOptional? (read : Json → Option α) : Json → Option (Option α)
  | .null => some none
  | j => (read j).map some

/-- The names of the settings in their order, and how each changes a configuration. -/
def settings : List (String × (Config → Json → Option Config)) :=
  [("resolver_hints_enabled", fun c j => (readBool? j).map fun v => { c with hintsEnabled := v }),
   ("template_cache_enabled",
    fun c j => (readBool? j).map fun v => { c with templateCacheEnabled := v }),
   ("template_cache_expiration",
    fun c j => (readOptional? Duration.ofJson? j).map fun v =>
      { c with templateCacheExpiration := v }),
   ("reflection_cache_max_size",
    fun c j => (readOptional? readNat? j).map fun v => { c with memberCacheMaxSize := v }),
   ("recursive_invocation_limit", fun c j => (readNat? j).map fun v => { c with nestingLimit := v }),
   ("skip_value_escaping", fun c j => (readBool? j).map fun v => { c with skipEscaping := v }),
   ("precompile_all_templates", fun c j => (readBool? j).map fun v => { c with precompile := v })]

/-- Apply settings by name. Unknown names are passed over, and no setting may come twice. -/
def applyMembers (seen : List String) (c : Config) : List (String × Json) → Option Config
  | [] => some c
  | (name, j) :: rest =>
    match settings.lookup name with
    | none => applyMembers seen c rest
    | some change =>
      if name ∈ seen then none
      else (change c j).bind fun c => applyMembers (name :: seen) c rest

/-- Apply settings by position. -/
def applyItems : List (Config → Json → Option Config) → Config → List Json → Option Config
  | _, c, [] => some c
  | [], _, _ :: _ => none
  | change :: changes, c, j :: rest => (change c j).bind fun c => applyItems changes c rest

/-- The standard configuration with the settings of an object or a list. -/
def ofJson? : Json → Option Config
  | .object members => applyMembers [] standard members
  | .array items => applyItems (settings.map (·.2)) standard items
  | _ => none

/-- Read a configuration text. What it does not need to know it passes over. -/
def parse? (text : String) : Option Config :=
  (Json.parseFor? ⟨Json.usualLimit, fun name => (settings.lookup name).isNone⟩ text).bind ofJson?

def toJson (c : Config) : Json :=
  .object
    [("resolver_hints_enabled", .bool c.hintsEnabled),
     ("template_cache_enabled", .bool c.templateCacheEnabled),
     ("template_cache_expiration", (c.templateCacheExpiration.map (·.toJson)).getD .null),
     ("reflection_cache_max_size",
      (c.memberCacheMaxSize.map fun n => Json.number (toString n)).getD .null),
     ("recursive_invocation_limit", .number (toString c.nestingLimit)),
     ("skip_value_escaping", .bool c.skipEscaping),
     ("precompile_all_templates", .bool c.precompile)]

end Config

end Logicless
