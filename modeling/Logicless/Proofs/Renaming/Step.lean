import Logicless.Proofs.Course
import Logicless.Proofs.Renaming.Store

/-!
# Steps under other names

What the operations that executions are made of do to two states that differ in the names of
templates. Both runs come to the same, or to errors that differ in names.
-/

namespace Logicless

variable {σ α β : Type} {ρ : String → String}

inductive Halt.Renames (ρ : String → String) : Halt → Halt → Prop where
  | failed {err err' : Error} (h : Error.Renames ρ err err') : Renames ρ (.failed err) (.failed err')
  | endless : Renames ρ .endless .endless

/-- The scopes are the same, and each template is open as often as under its other name. -/
structure Context.Renames (ρ : String → String) (c c' : Context σ) : Prop where
  scopes : c'.scopes = c.scopes
  leases : c'.leases = c.leases
  openings : ∀ name, c'.openings (ρ name) = c.openings name

structure Render.State.Renames (ρ : String → String) (s s' : Render.State σ) : Prop where
  store : s.store.Renames ρ s'.store
  context : s.context.Renames ρ s'.context
  sink : s'.sink = s.sink

theorem Context.Renames.entered {c c' : Context σ} (h : c.Renames ρ c') (injective : Function.Injective ρ)
    (name : String) : (c.entered name).Renames ρ (c'.entered (ρ name)) := by
  refine ⟨h.scopes, h.leases, fun other => ?_⟩
  rw [openings_entered, openings_entered, h.openings]
  simp only [injective.eq_iff]

theorem Context.Renames.push {c c' : Context σ} (h : c.Renames ρ c') (v : Value) (leases : List (Lease σ)) :
    (c.push v leases).Renames ρ (c'.push v leases) :=
  ⟨congrArg (_ :: ·) h.scopes, h.leases, h.openings⟩

theorem Context.Renames.values {c c' : Context σ} (h : c.Renames ρ c') : c'.values = c.values := by
  rw [Context.values, Context.values, h.scopes]

theorem Context.Renames.close {c c' : Context σ} (h : c.Renames ρ c') {s s' : Store σ} (stores : s.Renames ρ s') :
    (c.close s).Renames ρ (c'.close s') := by
  unfold Context.close
  rw [h.scopes, h.leases]
  refine Store.Renames.releaseAll ?_ c.leases
  generalize c.scopes = scopes
  induction scopes generalizing s s' with
  | nil => exact stores
  | cons scope rest ih => exact ih (stores.releaseAll scope.leases)

namespace Render.State.Renames

variable {s s' : Render.State σ} (h : s.Renames ρ s')

include h

theorem withStore {store store' : Store σ} (stores : store.Renames ρ store') :
    Renames ρ { s with store } { s' with store := store' } :=
  ⟨stores, h.context, h.sink⟩

theorem withContext {context context' : Context σ} (contexts : context.Renames ρ context') :
    Renames ρ { s with context } { s' with context := context' } :=
  ⟨h.store, contexts, h.sink⟩

theorem withSink (sink : Sink) : Renames ρ { s with sink } { s' with sink } :=
  ⟨h.store, h.context, rfl⟩

theorem release (found : Found σ) : Renames ρ (Exec.release found s) (Exec.release found s') :=
  h.withStore (h.store.releaseAll found.leases)

theorem pop : Renames ρ (Exec.pop s) (Exec.pop s') := by
  obtain ⟨store, ⟨scopes, leases, nesting⟩, sink⟩ := s
  obtain ⟨store', ⟨scopes', leases', nesting'⟩, sink'⟩ := s'
  obtain ⟨stores, ⟨rfl, rfl, openings⟩, rfl⟩ := h
  cases scopes' with
  | nil => exact ⟨stores, ⟨rfl, rfl, openings⟩, rfl⟩
  | cons scope rest => exact ⟨stores.releaseAll scope.leases, ⟨rfl, rfl, openings⟩, rfl⟩

theorem learnHint (slot : Option Slot) {hint : Option (Hint σ)}
    (offers : Resolver.Offers Error.Unnamed hint) :
    Renames ρ (Engine.learnHint slot hint s) (Engine.learnHint slot hint s') := by
  unfold Engine.learnHint
  split
  · exact h.withStore (h.store.learn _ (offers _ rfl))
  · exact h

end Render.State.Renames

namespace Exec

structure Ends (ρ : String → String) (out out' : Except Halt α × Render.State σ) : Prop where
  result : Correspond (Halt.Renames ρ) Eq out.1 out'.1
  state : out.2.Renames ρ out'.2

namespace Ends

variable {s s' : Render.State σ}

theorem pure (a : α) (h : s.Renames ρ s') : Ends ρ ((Pure.pure a : Exec σ α) s) ((Pure.pure a : Exec σ α) s') :=
  ⟨.ok rfl, h⟩

theorem fail {err err' : Error} (fails : Error.Renames ρ err err') (h : s.Renames ρ s') :
    Ends ρ ((Exec.fail err : Exec σ α) s) ((Exec.fail err' : Exec σ α) s') :=
  ⟨.error (.failed fails), h⟩

theorem endless (h : s.Renames ρ s') :
    Ends ρ ((Attempt.fail .endless : Exec σ α) s) ((Attempt.fail .endless : Exec σ α) s') :=
  ⟨.error .endless, h⟩

theorem bind {x x' : Exec σ α} {f f' : α → Exec σ β} (hx : Ends ρ (x s) (x' s'))
    (hf : ∀ a t t', x s = (.ok a, t) → t.Renames ρ t' → Ends ρ (f a t) (f' a t')) :
    Ends ρ ((x >>= f) s) ((x' >>= f') s') := by
  rcases ran : x s with ⟨r, t⟩
  rcases ran' : x' s' with ⟨r', t'⟩
  rw [ran, ran'] at hx
  obtain ⟨result, state⟩ := hx
  cases result with
  | error halts =>
    rw [Attempt.bind_of_error ran, Attempt.bind_of_error ran']
    exact ⟨.error halts, state⟩
  | @ok a a' same =>
    rw [Attempt.bind_of_ok ran, Attempt.bind_of_ok ran', ← same]
    exact hf a t t' ran state

theorem ensuring {x x' : Exec σ α} (hx : Ends ρ (x s) (x' s')) (found : Found σ) :
    Ends ρ (Attempt.ensuring x (release found) s) (Attempt.ensuring x' (release found) s') :=
  ⟨hx.result, hx.state.release found⟩

theorem write (text : String) (h : s.Renames ρ s') : Ends ρ (Exec.write text s) (Exec.write text s') := by
  unfold Exec.write
  rw [h.sink]
  cases s.sink.write? text with
  | none => exact ⟨.error (.failed (.unnamed trivial)), h⟩
  | some sink => exact ⟨.ok rfl, h.withSink sink⟩

theorem captured {x x' : Exec σ Unit} (h : s.Renames ρ s')
    (hx : Ends ρ (x { s with sink := Sink.empty none }) (x' { s' with sink := Sink.empty none })) :
    Ends ρ (Exec.captured x s) (Exec.captured x' s') := by
  rw [captured_apply, captured_apply]
  obtain ⟨result, state⟩ := hx
  refine ⟨?_, ⟨state.store, state.context, h.sink⟩⟩
  rw [state.sink]
  generalize (x { s with sink := Sink.empty none }).1 = r at result ⊢
  generalize (x' { s' with sink := Sink.empty none }).1 = r' at result ⊢
  cases result with
  | ok _ => exact .ok rfl
  | error halts => exact .error halts

theorem withScope {x x' : Exec σ α} (v : Value) (leases : List (Lease σ))
    (hx : Ends ρ (x { s with context := s.context.push v leases })
      (x' { s' with context := s'.context.push v leases })) :
    Ends ρ (Exec.withScope v leases x s) (Exec.withScope v leases x' s') := by
  rw [withScope_apply, withScope_apply]
  exact ⟨hx.result, hx.state.pop⟩

/-- A template is refused under both of its names, or it is entered. -/
theorem nested {x x' : Exec σ α} (limit : Nat) (name : String)
    (h : s.Renames ρ s') (keeps : x.Keeps) (keeps' : x'.Keeps)
    (hx : ¬ limit ≤ s.context.openings name →
      Ends ρ (x { s with context := s.context.entered name })
        (x' { s' with context := s'.context.entered (ρ name) })) :
    Ends ρ (Exec.nested limit name x s) (Exec.nested limit (ρ name) x' s') := by
  have openings := h.context.openings name
  by_cases full : limit ≤ s.context.openings name
  · rw [nested_of_full full, nested_of_full (openings ▸ full)]
    exact ⟨.error (.failed (.nestingLimit name limit)), h⟩
  · rw [nested_of_room full, nested_of_room (openings ▸ full), leave_entered (keeps _),
      leave_entered (keeps' _)]
    exact ⟨(hx full).result, ⟨(hx full).state.store, h.context, (hx full).state.sink⟩⟩

theorem onStore {x x' : Attempt (Store σ) Error α} {f f' : α → Exec σ β} {rel : α → α → Prop}
    (h : s.Renames ρ s') (ends : Store.Ends ρ rel (x s.store) (x' s'.store))
    (hf : ∀ a a' store store', x s.store = (.ok a, store) → rel a a' →
      Render.State.Renames ρ { s with store } { s' with store := store' } →
      Ends ρ (f a { s with store }) (f' a' { s' with store := store' })) :
    Ends ρ ((Exec.onStore x >>= f) s) ((Exec.onStore x' >>= f') s') := by
  rcases ran : x s.store with ⟨r, store⟩
  rcases ran' : x' s'.store with ⟨r', store'⟩
  rw [ran, ran'] at ends
  obtain ⟨results, stores⟩ := ends
  cases results with
  | error fails =>
    rw [Exec.onStore_of_error ran, Exec.onStore_of_error ran']
    exact ⟨.error (.failed fails), h.withStore stores⟩
  | ok same =>
    rw [Exec.onStore_of_ok ran, Exec.onStore_of_ok ran']
    exact hf _ _ store store' ran same (h.withStore stores)

end Ends

end Exec

namespace Engine

/-- Lookups fail with no errors about templates, if resolvers do not. -/
theorem find_unnamed {e : Engine σ} (resolvers : ∀ r ∈ e.resolvers, r.Admits Error.Unnamed)
    {store : Store σ} (hints : ∀ p ∈ store.hints, p.2.Admits Error.Unnamed) (scopes : List Value)
    (parts : List String) (slot : Option Slot) :
    (∀ err, (e.find scopes parts (filled slot store) store).1 = .error err → err.Unnamed) ∧
      ∀ found, (e.find scopes parts (filled slot store) store).1 = .ok found →
        Resolver.Offers Error.Unnamed found.hint := by
  have offers : Resolver.Offers Error.Unnamed (filled slot store).join := by
    intro h given
    cases slot with
    | none => cases given
    | some place => exact Store.hint_admits hints given
  -- Nothing but the resolvers of the engine has a part in its lookups.
  let plain : Engine σ := { e with missing := .ignore, support := .html }
  have admits : plain.Admits Error.Unnamed := ⟨resolvers, nofun, nofun, fun _ => trivial, fun _ => trivial⟩
  have kept : Engine.Finds store store [] Error.Unnamed (e.find scopes parts (filled slot store) store) :=
    Engine.find_kept admits scopes parts offers store.owes_self
  rcases ran : e.find scopes parts (filled slot store) store with ⟨err | found, after⟩
  · rw [ran] at kept
    exact ⟨fun _ same => Except.error.inj same ▸ kept.2.2, nofun⟩
  · rw [ran] at kept
    exact ⟨nofun, fun _ same => Except.ok.inj same ▸ kept.2.2⟩

variable (e : Engine σ) {s s' : Render.State σ} (h : s.Renames ρ s')

include h

/-- The same is found under the same keys. -/
theorem find_renames (parts : List String) (slot : Option Slot) :
    (e.find s'.context.values parts (filled slot s'.store) s'.store).1 =
        (e.find s.context.values parts (filled slot s.store) s.store).1 ∧
      (e.find s.context.values parts (filled slot s.store) s.store).2.Renames ρ
        (e.find s'.context.values parts (filled slot s'.store) s'.store).2 := by
  have slots : filled slot s'.store = filled slot s.store := by
    simp only [filled, Store.hint?, h.store.hints]
  rw [h.context.values, slots]
  obtain ⟨same, agrees⟩ := e.find_confined s.context.values parts (filled slot s.store) h.store.agrees
  exact ⟨same, h.store.undisturbed (e.find_undisturbed _ _ _ _) (e.find_undisturbed _ _ _ _) agrees⟩

end Engine

end Logicless
