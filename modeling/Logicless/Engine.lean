import Logicless.Context
import Logicless.Resolver
import Logicless.Text.Escape

/-!
# Engines

An engine is what stays the same while templates are compiled and rendered. What changes is in its
store.
-/

namespace Logicless

/-- The tag whose value is missing. -/
structure TagInfo where
  text : String
  unescaped : Bool
  line : Nat
  template : String
deriving DecidableEq, Repr

/-- What is done about a missing value: fail, write nothing, or write another value. -/
abbrev MissingHandler := TagInfo → Except Error (Option Value)

namespace MissingHandler

def ignore : MissingHandler := fun _ => .ok none

def refuse : MissingHandler := fun tag => .error (.missingValue tag.text tag.template tag.line)

end MissingHandler

/-- How values are escaped. -/
abbrev TextSupport := String → Except Error String

def TextSupport.html : TextSupport := fun s => .ok (Text.escape s)

structure Engine (σ : Type) where
  config : Config
  /-- In the order they are asked. -/
  resolvers : List (Resolver σ)
  missing : MissingHandler
  support : TextSupport
  split : KeySplitter
  factoryLabel : String
  /-- The built-in resolver of host objects, if the engine has it. -/
  members : Option (Resolver σ)

/-- The result of looking up a key. The leases are those the lookup took, the latest first. -/
structure Found (σ : Type) where
  value : Option Value
  hint : Option (Hint σ)
  leases : List (Lease σ)

namespace Found

variable {σ : Type}

def isNull (found : Found σ) : Bool :=
  match found.value with
  | none => true
  | some v => v.isNull

def lend (release : σ → σ) (found : Found σ) (store : Store σ) : Found σ × Store σ :=
  let (lease, store) := store.lend release
  ({ found with leases := lease :: found.leases }, store)

def release (found : Found σ) (store : Store σ) : Store σ :=
  store.releaseAll found.leases

end Found

namespace Engine

variable {σ : Type}

/-- Look up a key in scopes, the innermost first. A lookup that fails releases its leases. -/
def find (e : Engine σ) (scopes : List Value) (parts : List String)
    (slot : Option (Option (Hint σ))) : Attempt (Store σ) Error (Found σ) := fun store =>
  let slot := if e.config.hintsEnabled then slot else none
  match Lookup.key e.resolvers scopes parts slot ⟨store, []⟩ with
  | (.ok (value, hint), s) => (.ok ⟨value, hint, s.leases⟩, s.store)
  | (.error err, s) => (.error err, s.store.releaseAll s.leases)

/-! ### Templates -/

/-- The consumer that templates and sources are cached for. -/
def templatesConsumer : String := "stencil::engine::MustacheEngine"

/-- Compile a source. The template is not cached. -/
def compile (e : Engine σ) (name source : String) : Attempt (Store σ) Error Template := fun store =>
  match Template.ofSource store.compiled name source e.split with
  | .ok t => (.ok t, { store with compiled := store.compiled + 1 })
  | .error err => (.error err, store)

/-- Ask the locators one after another. -/
def locateIn (name : String) : List (Nat × Locator) → Attempt (Store σ) Error (Option String)
  | [] => pure none
  | (number, locator) :: rest => do
    Attempt.update fun store =>
      { store with consultations := ⟨number, name⟩ :: store.consultations }
    match ← Attempt.ofExcept (locator.answer name) with
    | some source => pure (some source)
    | none => locateIn name rest

def locate (name : String) : Attempt (Store σ) Error (Option String) := do
  locateIn name (← Attempt.state).locators

/-- Locate and compile a template. -/
def load (e : Engine σ) (name : String) : Attempt (Store σ) Error (Option Template) := do
  match ← locate name with
  | none => pure none
  | some source => return some (← e.compile name source)

/-- The template of a name, from the cache if there is one. -/
def getTemplate (e : Engine σ) (name : String) : Attempt (Store σ) Error (Option Template) := do
  match (← Attempt.state).templates with
  | none => e.load name
  | some shelf => Store.fetch shelf Store.putTemplates e.load name

/-- The source of a template, from the cache if there is one. -/
def getSource (name : String) : Attempt (Store σ) Error (Option String) := do
  match (← Attempt.state).sources with
  | none => locate name
  | some shelf => Store.fetch shelf Store.putSources locate name

/-! ### Caches -/

/-- Change a shelf of the store, if it has it. -/
def onShelf {K V α : Type} (shelf : Option (Shelf σ K V)) (put : Shelf σ K V → Store σ → Store σ)
    (f : Shelf σ K V → σ → α × Shelf σ K V × σ) (store : Store σ) : Option α × Store σ :=
  match shelf with
  | none => (none, store)
  | some shelf =>
    let (a, shelf, host) := f shelf store.host
    (some a, { put shelf store with host })

/-- Forget the templates and sources whose names match. -/
def invalidateTemplates (matching : String → Bool) (store : Store σ) : Store σ :=
  let forget {V : Type} (shelf : Shelf σ String V) (host : σ) :=
    ((), shelf.invalidate matching host)
  let store := (onShelf store.templates Store.putTemplates forget store).2
  (onShelf store.sources Store.putSources forget store).2

/-- The number of entries in the template cache. -/
def templateCacheSize (store : Store σ) : Nat × Store σ :=
  let (n, store) := onShelf store.templates Store.putTemplates Shelf.size store
  (n.getD 0, store)

end Engine

namespace Resolver

variable {σ : Type}

/-- Change the shelf of a resolver of host objects, if it has one. -/
def onMembers {α : Type} (r : Resolver σ)
    (f : Shelf σ MemberKey (Option Nat) → σ → α × Shelf σ MemberKey (Option Nat) × σ)
    (store : Store σ) : Option α × Store σ :=
  match r.kind with
  | .members (some i) => Engine.onShelf store.members[i]? (Store.putMembers i) f store
  | _ => (none, store)

/-- Forget the members of the types that match. -/
def invalidateMembers (r : Resolver σ) (matching : String → Bool) (store : Store σ) : Store σ :=
  (r.onMembers (fun shelf host => ((), shelf.invalidate (fun k => matching k.typeName) host))
    store).2

/-- The number of members whose position is kept. -/
def memberCacheSize (r : Resolver σ) (store : Store σ) : Nat × Store σ :=
  let (n, store) := r.onMembers Shelf.size store
  (n.getD 0, store)

end Resolver

end Logicless
