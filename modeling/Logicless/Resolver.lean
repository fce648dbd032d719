import Logicless.Config
import Logicless.Lookup

/-!
# Resolvers

A resolver finds the value of a name in a scope or, without a scope, in data of its own. The
resolvers of an engine are asked in ascending priority, and the first that knows the name wins.
-/

namespace Logicless

/-- A resolver of the host program. -/
structure CustomResolver (σ : Type) where
  name : String
  init : σ → Except Error Unit × σ
  resolve : Option Value → String → σ → Reply σ (Except Error (Option Value))
  /-- The hint for a name that was just resolved, if the resolver offers hints at all. -/
  hint : Option Value → String → σ → Reply σ (Option (Hint σ))

inductive ResolverKind (σ : Type) where
  /-- Both `this` and `.` name the scope itself. -/
  | this
  /-- Digits name an element of a list. -/
  | listIndex
  | map
  /-- The members of host objects. The positions of members are kept on a shelf of the store, once
  there is one. -/
  | members (shelf : Option Nat)
  /-- Values that are bound outside of every scope. -/
  | globals (data : List (String × Value))
  | custom (resolver : CustomResolver σ)

structure Resolver (σ : Type) where
  priority : Int
  kind : ResolverKind σ

namespace Resolver

variable {σ : Type}

def this (priority : Int) : Resolver σ := ⟨priority, .this⟩
def listIndex (priority : Int) : Resolver σ := ⟨priority, .listIndex⟩
def map (priority : Int) : Resolver σ := ⟨priority, .map⟩
def members (priority : Int) : Resolver σ := ⟨priority, .members none⟩
def globals (priority : Int) (data : List (String × Value)) : Resolver σ := ⟨priority, .globals data⟩

def name (r : Resolver σ) : String :=
  match r.kind with
  | .this => "ThisResolver"
  | .listIndex => "ListIndexResolver"
  | .map => "MapResolver"
  | .members _ => "ReflectionResolver"
  | .globals _ => "GlobalDataResolver"
  | .custom c => c.name

def namesThis (name : String) : Bool :=
  name = "this" || name = "."

/-- The consumer that member positions are cached for. -/
def membersConsumer : String := "stencil::resolver::ReflectionResolver"

/-- The position of a member, remembered for all objects of the type. -/
def memberIndex (shelf : Option Nat) (o : HostObject Value) (name : String) :
    Attempt (Store σ) Error (Option Nat) := do
  let store ← Attempt.state
  match shelf.bind fun i => store.members[i]?.map (i, ·) with
  | none => pure (o.indexOf? name)
  | some (i, shelf) =>
    Store.fetch shelf (Store.putMembers i) (fun _ => pure (o.indexOf? name)) ⟨o.typeName, name⟩

/-- The value of a name in a scope, or outside of all scopes. -/
def resolve (r : Resolver σ) (scope : Option Value) (name : String) : Lookup σ (Option Value) :=
  match r.kind with
  | .this => pure (if namesThis name then scope else none)
  | .listIndex => pure (scope.bind (·.item? name))
  | .map => pure (scope.bind (·.get? name))
  | .members shelf =>
    match scope with
    | some (.object o) => do
      let index ← Lookup.onStore (memberIndex shelf o name)
      pure (index.bind o.valueAt?)
    | _ => pure none
  | .globals data => pure (if scope.isSome then none else data.lookup name)
  | .custom c => Lookup.askFallible (c.resolve scope name)

/-- The hint for a name that was just resolved. -/
def hint (r : Resolver σ) (scope : Option Value) (name : String) : Lookup σ (Option (Hint σ)) :=
  match r.kind with
  | .this => pure (some (if namesThis name then .this else .inapplicable))
  | .listIndex => pure none
  | .map => pure (some .entry)
  | .members _ => pure <| some <|
    match scope with
    | some (.object o) =>
      match o.indexOf? name with
      | some index => .member o.typeName index
      | none => .inapplicable
    | _ => .inapplicable
  | .globals _ => pure (some .inapplicable)
  | .custom c => Lookup.ask (c.hint scope name)

/-- Prepare a resolver for an engine. A resolver of host objects gets its shelf here, once. -/
def init (factory : CacheFactory σ) (config : Config) (r : Resolver σ) :
    Attempt (Store σ) Error (Resolver σ) :=
  match r.kind with
  | .members shelf => fun store =>
    let settings : CacheSettings := ⟨none, config.memberCacheMaxSize⟩
    let (allotment, host) := factory.allot membersConsumer settings store.host
    let store := { store with host }
    match Shelf.ofAllotment membersConsumer MemberKey.label allotment, shelf with
    | .error err, _ => (.error err, store)
    | .ok _, some _ => (.ok r, store)
    | .ok added, none =>
      (.ok { r with kind := .members (some store.members.length) },
        { store with members := store.members ++ [added] })
  | .custom c => fun store =>
    let (result, host) := c.init store.host
    (result.map fun _ => r, { store with host })
  | _ => pure r

end Resolver

/-! ### The chain of resolvers -/

namespace Lookup

variable {σ : Type}

/-- The first match, with the hint of the winner if one is wanted. -/
def first (resolvers : List (Resolver σ)) (scope : Option Value) (name : String) (wanted : Bool) :
    Lookup σ (Option (Value × Option (Hint σ))) :=
  match resolvers with
  | [] => pure none
  | r :: rest => do
    match ← r.resolve scope name with
    | some v => do
      let hint ← if wanted then r.hint scope name else pure none
      pure (some (v, hint))
    | none => first rest scope name wanted

/-- The first match in the scopes from the first to the last, and then outside of all scopes. -/
def innermost (resolvers : List (Resolver σ)) (scopes : List Value) (name : String) (wanted : Bool) :
    Lookup σ (Option (Value × Option (Hint σ))) :=
  match scopes with
  | [] => first resolvers none name wanted
  | scope :: rest => do
    match ← first resolvers (some scope) name wanted with
    | some found => pure (some found)
    | none => innermost resolvers rest name wanted

/-- The value that names lead to from a value. -/
def descend (resolvers : List (Resolver σ)) (names : List String) (v : Value) :
    Lookup σ (Option Value) :=
  match names with
  | [] => pure (some v)
  | name :: rest => do
    match ← first resolvers (some v) name false with
    | some (next, _) => descend resolvers rest next
    | none => pure none

/-- Whether a hint may be learned: there is a slot, and it is empty. -/
def isVacant : Option (Option (Hint σ)) → Bool
  | some none => true
  | _ => false

/-- What a hint that may be used yields. -/
def hinted (hint : Option (Hint σ)) (scope : Option Value) (name : String) :
    Lookup σ (Option (Value × Option (Hint σ))) := do
  match hint.filter (·.isApplicable) with
  | none => pure none
  | some h => return (← h.resolve scope name).map (·, some h)

/-- The value of a key, and the hint that yielded it or that the winner of its name offers.

`slot` is there if the key may be hinted, and holds the hint learned before. A hint is tried on the
innermost scope only. If it yields nothing, the scopes are searched as if there were none. -/
def key (resolvers : List (Resolver σ)) (scopes : List Value) (parts : List String)
    (slot : Option (Option (Hint σ))) : Lookup σ (Option Value × Option (Hint σ)) :=
  match parts with
  | [] => pure (none, none)
  | [name] => do
    match ← hinted slot.join scopes.head? name with
    | some (v, hint) => pure (some v, hint)
    | none =>
      match ← innermost resolvers scopes name (isVacant slot) with
      | some (v, hint) => pure (some v, hint)
      | none => pure (none, none)
  | name :: rest => do
    match ← innermost resolvers scopes name false with
    | some (v, _) => return (← descend resolvers rest v, none)
    | none => pure (none, none)

end Lookup

end Logicless
