import Logicless.Config.Inspect
import Logicless.Render

/-!
# Engines in diagnostics

To show a cache is to count its live entries, and that changes the store.
-/

namespace Logicless

open Text (field holding listing optional quote record)

variable {σ : Type}

namespace Shelf

def inspectSize (consumer : String) (size : Nat) : String :=
  record "TypedCache" [field "consumer_id" (quote consumer), field "size" (toString size)]

/-- The text of a shelf, whose entries are counted for it. -/
def inspect {K V : Type} [DecidableEq K] (shelf : Shelf σ K V) (host : σ) :
    String × Shelf σ K V × σ :=
  let (n, shelf, host) := shelf.size host
  (inspectSize shelf.consumer n, shelf, host)

end Shelf

namespace Resolver

/-- The text of a resolver of host objects. -/
def inspectMembers (r : Resolver σ) (store : Store σ) : String × Store σ :=
  let (cache, store) := r.onMembers Shelf.inspect store
  (record "ReflectionResolver"
    [field "priority" (toString r.priority), field "member_cache" (optional cache)], store)

end Resolver

namespace Engine

def inspectConfiguration (e : Engine σ) : String :=
  let resolvers := e.resolvers.map fun r =>
    "(" ++ quote r.name ++ ", " ++ toString r.priority ++ ")"
  record "EngineConfiguration"
    [field "config" e.config.inspect, field "resolvers" (listing resolvers),
     field "cache_factory" e.factoryLabel, ".."]

def inspect (e : Engine σ) (store : Store σ) : String × Store σ :=
  let (cache, store) := onShelf store.templates Store.putTemplates Shelf.inspect store
  (record "MustacheEngine"
    [field "configuration" e.inspectConfiguration,
     field "locators" (listing (store.locators.map (·.2.label))),
     field "template_cache" (optional cache)], store)

/-- The slot of a value tag and the hint learned for it. -/
def slotContent (e : Engine σ) (t : Template) (store : Store σ) (tag : ValueTag) :
    Option (Option (Hint σ)) :=
  (e.slot? t.instanceId tag).map fun slot => store.hint? slot

/-- The text of a template with the hints it has learned. -/
def inspectTemplate (e : Engine σ) (t : Template) (store : Store σ) : String :=
  t.inspect fun tag => (e.slotContent t store tag).map fun hint => hint.map (·.label)

end Engine

def Found.inspect (found : Found σ) : String :=
  record "ValueWrapper"
    [field "value" (optional (found.value.map (·.inspect))),
     field "hint" (optional (found.hint.map (·.label))),
     field "resolution" (record "ResolutionContext"
       [field "pending_callbacks" (toString found.leases.length)])]

def Context.inspect (c : Context σ) : String :=
  record "ExecutionContext"
    [field "scopes" (toString c.depth),
     field "templates" (listing (c.nesting.entries.map fun (name, k) =>
       holding "" (quote name ++ ", " ++ toString k)))]

def CacheSettings.inspect (s : CacheSettings) (listens : Bool) : String :=
  record "CacheSettings"
    [field "expiration" (optional (s.expiration.map fun n => (Duration.mk n).inspect)),
     field "max_size" (optional (s.maxSize.map toString)), field "listener" (Text.flag listens)]

/-- The text of a cache. Entries that are expired but still held count here. -/
def Cache.inspect {K V : Type} (c : Cache K V) : String :=
  record "ConcurrentComputingCache"
    [field "len" (toString c.entries.length), field "in_flight" (toString c.inFlight.length),
     field "expiration" (optional (c.settings.expiration.map fun n => (Duration.mk n).inspect)),
     field "max_size" (optional (c.settings.maxSize.map toString))]

end Logicless
