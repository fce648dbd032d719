import Logicless.Render

/-!
# Steps of an execution

What the operations that executions are made of do to a state.
-/

namespace Logicless

theorem Attempt.state_bind {S E α : Type} (f : S → Attempt S E α) (s : S) :
    (Attempt.state >>= f) s = f s s := rfl

theorem Attempt.bind_ok {S E α β : Type} {x : Attempt S E α} {f : α → Attempt S E β} {s t : S} {b : β}
    (h : (x >>= f) s = (.ok b, t)) : ∃ a u, x s = (.ok a, u) ∧ f a u = (.ok b, t) := by
  rcases ran : x s with ⟨r, u⟩
  cases r with
  | ok a =>
    rw [Attempt.bind_of_ok ran] at h
    exact ⟨a, u, rfl, h⟩
  | error err =>
    rw [Attempt.bind_of_error ran] at h
    cases h

namespace Exec

variable {σ α β : Type}

theorem onStore_of_ok {x : Attempt (Store σ) Error α} {s : Render.State σ} {a : α} {store : Store σ}
    (h : x s.store = (.ok a, store)) (f : α → Exec σ β) :
    (onStore x >>= f) s = f a { s with store } := by
  simp only [onStore, Attempt.bind_apply, h]
  rfl

theorem onStore_of_error {x : Attempt (Store σ) Error α} {s : Render.State σ} {err : Error}
    {store : Store σ} (h : x s.store = (.error err, store)) (f : α → Exec σ β) :
    (onStore x >>= f) s = (.error (.failed err), { s with store }) := by
  simp only [onStore, Attempt.bind_apply, h]
  rfl

theorem withScope_apply (v : Value) (leases : List (Lease σ)) (x : Exec σ α) (s : Render.State σ) :
    withScope v leases x s =
      ((x { s with context := s.context.push v leases }).1,
        pop (x { s with context := s.context.push v leases }).2) := rfl

/-- Leaving a scope releases its leases. -/
theorem pop_push {context : Context σ} {v : Value} {leases : List (Lease σ)} {s : Render.State σ}
    (h : s.context = context.push v leases) :
    pop s = { s with context, store := s.store.releaseAll leases } := by
  simp only [pop, h, Context.push, Context.pop]

theorem captured_apply (x : Exec σ Unit) (s : Render.State σ) :
    captured x s =
      ((x { s with sink := Sink.empty none }).1.map
          fun _ => (x { s with sink := Sink.empty none }).2.sink.text,
        { (x { s with sink := Sink.empty none }).2 with sink := s.sink }) := rfl

theorem nested_of_full {limit : Nat} {name : String} {s : Render.State σ}
    (full : limit ≤ s.context.openings name) (x : Exec σ α) :
    nested limit name x s = (.error (.failed (.nestingLimit name limit)), s) := by
  simp only [nested, Attempt.state, Attempt.bind_apply, Context.enter_eq, full, if_true]
  rfl

/-- The context within one more template. -/
theorem nested_of_room {limit : Nat} {name : String} {s : Render.State σ}
    (room : ¬ limit ≤ s.context.openings name) (x : Exec σ α) :
    nested limit name x s =
      ((x { s with context := s.context.entered name }).1,
        leave name (x { s with context := s.context.entered name }).2) := by
  simp only [nested, Attempt.state, Attempt.bind_apply, Context.enter_eq, room, if_false]
  rfl

/-- Leaving a template restores the context it was entered in. -/
theorem leave_entered {context : Context σ} {name : String} {s : Render.State σ}
    (h : s.context = context.entered name) : leave name s = { s with context } := by
  simp only [leave, h, Context.leave_entered]

end Exec

namespace Engine

variable {σ α : Type} {e : Engine σ}

def filled (slot : Option Slot) (store : Store σ) : Option (Option (Hint σ)) :=
  slot.map fun slot => store.hint? slot

theorem findHere_of_ok {parts : List String} {slot : Option Slot} {s : Render.State σ}
    {found : Found σ} {store : Store σ}
    (h : e.find s.context.values parts (filled slot s.store) s.store = (.ok found, store))
    (k : Found σ → Exec σ α) : (e.findHere parts slot >>= k) s = k found { s with store } :=
  (congrFun (bind_assoc Attempt.state _ k) s).trans (Exec.onStore_of_ok h k)

theorem findHere_of_error {parts : List String} {slot : Option Slot} {s : Render.State σ}
    {err : Error} {store : Store σ}
    (h : e.find s.context.values parts (filled slot s.store) s.store = (.error err, store))
    (k : Found σ → Exec σ α) :
    (e.findHere parts slot >>= k) s = (.error (.failed err), { s with store }) :=
  (congrFun (bind_assoc Attempt.state _ k) s).trans (Exec.onStore_of_error h k)

theorem execute_apply (t : Template) (s : Render.State σ) :
    e.execute t s = e.executeWithin (e.depthBound t.name s.store) t s := by
  unfold execute
  rw [Attempt.state_bind]

/-- A hint is learned in an empty slot, or not at all. -/
theorem learnHint_cases (slot : Option Slot) (hint : Option (Hint σ)) (s : Render.State σ) :
    learnHint slot hint s = s ∨
      ∃ place h, slot = some place ∧ hint = some h ∧ s.store.hint? place = none ∧
        learnHint slot hint s =
          { s with store := { s.store with hints := (place, h) :: s.store.hints } } := by
  cases slot with
  | none => exact Or.inl rfl
  | some place =>
    cases hint with
    | none => exact Or.inl rfl
    | some h =>
      simp only [learnHint, Store.learn]
      cases known : s.store.hint? place with
      | some _ => exact Or.inl rfl
      | none => exact Or.inr ⟨place, h, rfl, rfl, known, rfl⟩

/-- An engine that can look nothing up. -/
def bare (missing : MissingHandler) : Engine Unit where
  config := .standard
  resolvers := []
  missing
  support := .html
  split := Key.dotted
  factoryLabel := "DefaultComputingCacheFactory"
  members := none

end Engine

end Logicless
