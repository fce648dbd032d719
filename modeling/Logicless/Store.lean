import Logicless.Cache.Shelf
import Logicless.Hint
import Logicless.Locator
import Logicless.Template

/-!
# The store of an engine

All that an engine remembers from one operation to the next: its caches, the hints of its
templates, what its locators answer, and the state `host` of the program around it.
-/

namespace Logicless

/-- The right to a resource, taken by a lookup. `release` gives it back. -/
structure Lease (σ : Type) where
  id : Nat
  release : σ → σ

inductive LeaseEvent where
  | taken (id : Nat)
  | released (id : Nat)
deriving DecidableEq, Repr

/-- A member name of the objects of one type. -/
structure MemberKey where
  typeName : String
  name : String
deriving DecidableEq, Repr

def MemberKey.label (k : MemberKey) : String :=
  k.typeName ++ "#" ++ k.name

/-- The place of a hint: a value tag of a template instance. -/
structure Slot where
  instanceId : Nat
  index : Nat
deriving DecidableEq, Repr

/-- That a locator was asked for a name. -/
structure Consultation where
  locator : Nat
  name : String
deriving DecidableEq, Repr

structure Store (σ : Type) where
  host : σ
  /-- Templates can be rendered as long as their engine is open. -/
  isOpen : Bool
  /-- The locators in the order they are asked, each with its number in order of registration. -/
  locators : List (Nat × Locator)
  templates : Option (Shelf σ String (Option Template))
  sources : Option (Shelf σ String (Option String))
  /-- The positions of members, for each resolver of host objects. -/
  members : List (Shelf σ MemberKey (Option Nat))
  hints : List (Slot × Hint σ)
  /-- How many templates have been compiled. -/
  compiled : Nat
  /-- How many templates have been compiled from the output of lambdas. -/
  oneOffs : Nat
  /-- How many leases have been taken. -/
  leases : Nat
  /-- The latest first. -/
  leaseLog : List LeaseEvent
  /-- The latest first. -/
  consultations : List Consultation

namespace Store

variable {σ : Type}

def onHost (f : σ → σ) (store : Store σ) : Store σ :=
  { store with host := f store.host }

/-! ### Locators -/

/-- Put another locator in the place of one. -/
def replaceLocator (number : Nat) (locator : Locator) (store : Store σ) : Store σ :=
  { store with
    locators := store.locators.map fun (n, l) => if n = number then (n, locator) else (n, l) }

/-- How often a locator has been asked. -/
def consulted (number : Nat) (store : Store σ) : Nat :=
  store.consultations.countP fun c => c.locator == number

/-! ### Leases -/

/-- Take a lease. -/
def lend (release : σ → σ) (store : Store σ) : Lease σ × Store σ :=
  (⟨store.leases, release⟩,
    { store with leases := store.leases + 1, leaseLog := .taken store.leases :: store.leaseLog })

/-- Take leases one after another, on top of the `held` ones. The latest comes first. -/
def lendAll (releases : List (σ → σ)) (held : List (Lease σ)) (store : Store σ) :
    List (Lease σ) × Store σ :=
  match releases with
  | [] => (held, store)
  | release :: rest =>
    let (lease, store) := store.lend release
    lendAll rest (lease :: held) store

def release (lease : Lease σ) (store : Store σ) : Store σ :=
  { store with
    host := lease.release store.host, leaseLog := .released lease.id :: store.leaseLog }

/-- Release leases from the first to the last. -/
def releaseAll (leases : List (Lease σ)) (store : Store σ) : Store σ :=
  leases.foldl (fun store lease => store.release lease) store

/-! ### Hints -/

def hint? (slot : Slot) (store : Store σ) : Option (Hint σ) :=
  store.hints.lookup slot

/-- Remember a hint. The first hint of a slot stays. -/
def learn (slot : Slot) (hint : Hint σ) (store : Store σ) : Store σ :=
  match store.hint? slot with
  | some _ => store
  | none => { store with hints := (slot, hint) :: store.hints }

/-! ### Caches -/

/-- Load through a shelf of the store. `put` puts the shelf back. -/
def fetch {K V : Type} [DecidableEq K] [WellFoundedRelation K] (shelf : Shelf σ K V)
    (put : Shelf σ K V → Store σ → Store σ) (load : K → Attempt (Store σ) Error V) (key : K) :
    Attempt (Store σ) Error V := fun store =>
  let (r, shelf, store) := Shelf.get load Store.onHost key (shelf, store)
  (r, put shelf store)

def putTemplates (shelf : Shelf σ String (Option Template)) (store : Store σ) : Store σ :=
  { store with templates := some shelf }

def putSources (shelf : Shelf σ String (Option String)) (store : Store σ) : Store σ :=
  { store with sources := some shelf }

def putMembers (i : Nat) (shelf : Shelf σ MemberKey (Option Nat)) (store : Store σ) : Store σ :=
  { store with members := store.members.set i shelf }

/-- Let time pass for all caches. -/
def wait (nanos : Nat) (store : Store σ) : Store σ :=
  { store with
    templates := store.templates.map (·.wait nanos)
    sources := store.sources.map (·.wait nanos)
    members := store.members.map (·.wait nanos) }

end Store

end Logicless
