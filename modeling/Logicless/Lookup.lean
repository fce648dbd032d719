import Logicless.Store

/-!
# Lookups

Looking up a name changes the store and takes leases. Both stay with the lookup when it fails.
-/

namespace Logicless

/-- A lookup under way: the store, and the leases it has taken, the latest first. -/
structure Lookup.State (σ : Type) where
  store : Store σ
  leases : List (Lease σ)

abbrev Lookup (σ α : Type) : Type :=
  Attempt (Lookup.State σ) Error α

namespace Lookup

variable {σ α : Type}

/-- Ask code of the host program, and take the leases of its reply. -/
def ask (question : σ → Reply σ α) : Lookup σ α := fun s =>
  let reply := question s.store.host
  let store := { s.store with host := reply.host }
  let (leases, store) := store.lendAll reply.leases s.leases
  (.ok reply.result, ⟨store, leases⟩)

/-- Ask code of the host program that may fail. -/
def askFallible (question : σ → Reply σ (Except Error α)) : Lookup σ α := do
  Attempt.ofExcept (← ask question)

/-- An attempt on the store alone. -/
def onStore (x : Attempt (Store σ) Error α) : Lookup σ α := fun s =>
  let (r, store) := x s.store
  (r, { s with store })

end Lookup

/-- Try a hint on a scope. -/
def Hint.resolve (hint : Hint σ) (scope : Option Value) (name : String) : Lookup σ (Option Value) :=
  match hint with
  | .this => pure scope
  | .entry => pure (scope.bind (·.get? name))
  | .member typeName index => pure <|
    match scope with
    | some (.object o) => if o.typeName = typeName then o.valueAt? index else none
    | _ => none
  | .inapplicable => pure none
  | .custom h => Lookup.askFallible (h.resolve scope name)

end Logicless
