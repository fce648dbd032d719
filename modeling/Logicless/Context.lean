import Logicless.Context.Openings
import Logicless.Store

/-!
# Contexts

What one render carries along: the scopes that names are looked up in, the leases each of them
holds, and the templates that are being rendered.
-/

namespace Logicless

/-- A value in which names are looked up, and the leases to release with it, the latest first. -/
structure Scope (σ : Type) where
  value : Value
  leases : List (Lease σ)

/-- Scopes stand from the innermost to the outermost. `leases` are released when the context is
closed. -/
structure Context (σ : Type) where
  scopes : List (Scope σ)
  leases : List (Lease σ)
  nesting : Openings

namespace Context

variable {σ : Type}

def empty : Context σ := ⟨[], [], .empty⟩

def values (c : Context σ) : List Value :=
  c.scopes.map (·.value)

def top? (c : Context σ) : Option Value :=
  c.values.head?

def depth (c : Context σ) : Nat :=
  c.scopes.length

def push (value : Value) (leases : List (Lease σ)) (c : Context σ) : Context σ :=
  { c with scopes := ⟨value, leases⟩ :: c.scopes }

/-- Leave the innermost scope and release what it holds. -/
def pop (c : Context σ) (store : Store σ) : Option Value × Context σ × Store σ :=
  match c.scopes with
  | [] => (none, c, store)
  | scope :: scopes => (some scope.value, { c with scopes }, store.releaseAll scope.leases)

/-- Take a lease that the innermost scope holds, or the context if there is no scope. -/
def lend (release : σ → σ) (c : Context σ) (store : Store σ) : Context σ × Store σ :=
  let (lease, store) := store.lend release
  match c.scopes with
  | [] => ({ c with leases := lease :: c.leases }, store)
  | scope :: scopes =>
    ({ c with scopes := { scope with leases := lease :: scope.leases } :: scopes }, store)

/-- Leave all scopes, the innermost first, and release what the context holds. -/
def close (c : Context σ) (store : Store σ) : Store σ :=
  let store := c.scopes.foldl (fun store scope => store.releaseAll scope.leases) store
  store.releaseAll c.leases

/-! ### Nesting -/

/-- How many open templates have the name. -/
def openings (name : String) (c : Context σ) : Nat :=
  c.nesting.count name

def entered (name : String) (c : Context σ) : Context σ :=
  { c with nesting := c.nesting.enter name }

def leave (name : String) (c : Context σ) : Context σ :=
  { c with nesting := c.nesting.leave name }

/-- Enter a template. It is left at once and refused if more than `limit` of its name are open. -/
def enter (limit : Nat) (name : String) (c : Context σ) : Except (Context σ) (Context σ) :=
  let entered := c.entered name
  if limit < entered.openings name then .error (entered.leave name) else .ok entered

/-- Leaving a template restores the context it was entered in. -/
theorem leave_entered (c : Context σ) (name : String) : (c.entered name).leave name = c := by
  simp only [entered, leave, Openings.leave_enter]

theorem openings_entered (c : Context σ) (name other : String) :
    (c.entered name).openings other = c.openings other + if other = name then 1 else 0 :=
  Openings.count_enter name other c.nesting

/-- A template that is refused leaves the context as it was. -/
theorem enter_eq (c : Context σ) (limit : Nat) (name : String) :
    c.enter limit name = if limit ≤ c.openings name then .error c else .ok (c.entered name) := by
  have full : limit < (c.entered name).openings name ↔ limit ≤ c.openings name := by
    rw [openings_entered, if_pos rfl, Nat.lt_succ_iff]
  simp only [enter, full, leave_entered]

end Context

end Logicless
