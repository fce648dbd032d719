import Logicless.Engine

/-!
# Building engines

`Blueprint.build` makes an engine and its first store.
-/

namespace Logicless

/-- What an engine is to be made of. -/
structure Blueprint (σ : Type) where
  config : Config
  /-- Asked before the built-in resolvers of equal priority. -/
  resolvers : List (Resolver σ)
  builtIn : Bool
  globals : List (String × Value)
  /-- In order of registration. -/
  locators : List Locator
  missing : MissingHandler
  support : TextSupport
  split : KeySplitter
  factory : CacheFactory σ

namespace Blueprint

variable {σ : Type}

def standard : Blueprint σ where
  config := .standard
  resolvers := []
  builtIn := true
  globals := []
  locators := []
  missing := .ignore
  support := .html
  split := Key.dotted
  factory := .standard

/-- The elements in ascending order of priority. Equal ones keep their order. -/
def byPriority {α : Type} (priority : α → Int) (xs : List α) : List α :=
  xs.mergeSort fun a b => priority a ≤ priority b

/-- Prepare resolvers one after another. -/
def initAll (b : Blueprint σ) : List (Resolver σ) → Attempt (Store σ) Error (List (Resolver σ))
  | [] => pure []
  | r :: rest => do
    let r ← r.init b.factory b.config
    return r :: (← initAll b rest)

def globalResolvers (b : Blueprint σ) : List (Resolver σ) :=
  if b.globals.isEmpty then [] else [.globals 100 b.globals]

/-- All resolvers, and the built-in one of host objects among them. -/
def initResolvers (b : Blueprint σ) :
    Attempt (Store σ) Error (List (Resolver σ) × Option (Resolver σ)) := do
  let added ← b.initAll b.resolvers
  let (builtIn, members) ←
    if b.builtIn then do
      let members ← (Resolver.members 40).init b.factory b.config
      pure ([.this 10, .listIndex 20, .map 30, members], some members)
    else pure ([], none)
  return (byPriority (·.priority) (added ++ builtIn ++ b.globalResolvers), members)

def emptyStore (b : Blueprint σ) (host : σ) : Store σ where
  host
  isOpen := true
  locators := byPriority (·.2.priority) (b.locators.mapIdx fun i l => (i, l))
  templates := none
  sources := none
  members := []
  hints := []
  compiled := 0
  oneOffs := 0
  leases := 0
  leaseLog := []
  consultations := []

/-- Have a shelf allotted for templates or sources. -/
def allotShelf {V : Type} (b : Blueprint σ) (settings : CacheSettings) :
    Attempt (Store σ) Error (Shelf σ String V) := fun store =>
  let (allotment, host) := b.factory.allot Engine.templatesConsumer settings store.host
  (Shelf.ofAllotment Engine.templatesConsumer Text.quote allotment, { store with host })

/-- Give the store its caches of templates and sources. -/
def allotCaches (b : Blueprint σ) : Attempt (Store σ) Error Unit :=
  if b.config.templateCacheEnabled then do
    let settings : CacheSettings := ⟨b.config.templateCacheExpiration.map (·.nanos), none⟩
    let templates ← b.allotShelf settings
    let sources ← b.allotShelf settings
    Attempt.update fun store => { store with templates := some templates, sources := some sources }
  else pure ()

/-- Compile the templates of all names. -/
def precompile (e : Engine σ) : List String → Attempt (Store σ) Error Unit
  | [] => pure ()
  | name :: rest => do
    let _ ← e.getTemplate name
    precompile e rest

def assemble (b : Blueprint σ) : Attempt (Store σ) Error (Engine σ) := do
  if b.config.nestingLimit = 0 then
    Attempt.fail (.invalidConfiguration "recursive_invocation_limit must be at least 1")
  else
    let (resolvers, members) ← b.initResolvers
    b.allotCaches
    let e : Engine σ :=
      { config := b.config, resolvers, missing := b.missing, support := b.support, split := b.split
        factoryLabel := b.factory.label, members }
    if b.config.precompile then
      precompile e ((← Attempt.state).locators.flatMap fun (_, l) => l.identifiers)
    return e

/-- Make the engine and its first store. -/
def build (b : Blueprint σ) (host : σ) : Except Error (Engine σ × Store σ) :=
  match b.assemble (b.emptyStore host) with
  | (.ok e, store) => .ok (e, store)
  | (.error err, _) => .error err

end Blueprint

end Logicless
