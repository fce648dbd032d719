import Logicless.Proofs.Renaming.Execution
import Logicless.Proofs.Session

/-!
# Sessions under other names

Two engines that differ in the names of templates are used in the same way, each with its own names.
What is seen of the operations is the same, but for names (`Engine.observations_renames`).
-/

namespace Logicless

open Engine

variable {σ : Type} {ρ : String → String}

/-! ### Renders -/

namespace Engine

variable {e : Engine σ}

def Calls (e : Engine σ) (t : Template) (data : Value) (sink : Sink) (store : Store σ) (l : Lambda)
    (input : Option String) (inside : List Segment) : Prop :=
  ∃ depth p, e.Reaches true (entry depth t t.name ⟨store, startContext data, sink⟩) p ∧
    e.Invokes p l input inside

theorem startContext_renames (data : Value) :
    (startContext data : Context σ).Renames ρ (startContext data) := by
  refine ⟨rfl, rfl, fun name => ?_⟩
  simp only [Context.openings, startContext_nesting]
  rfl

theorem execute_ends (allows : e.Allows ρ) {s s' : Render.State σ} (h : s.Renames ρ s')
    (fresh : s.context.nesting = .empty) (fresh' : s'.context.nesting = .empty) {t t' : Template}
    (alike : t.Renames ρ t') (follows : ∀ depth, e.Follows ρ (entry depth t t.name s)) :
    Exec.Ends ρ (e.execute t s) (e.execute t' s') := by
  -- Both executions go as deep as the deeper one may have to.
  obtain ⟨depth, deep, deep'⟩ : ∃ depth, e.executeWithin depth t s = e.execute t s ∧
      e.executeWithin depth t' s' = e.execute t' s' :=
    ⟨max (e.depthBound t.name s.store) (e.depthBound t'.name s'.store),
      (executeWithin_agrees fresh (Nat.le_max_left _ _)).1,
      (executeWithin_agrees fresh' (Nat.le_max_right _ _)).1⟩
  rw [← deep, ← deep', executeWithin, executeWithin, alike.name]
  refine Exec.Ends.nested e.config.nestingLimit t.name h ((e.nestedIn_kept depth).template t)
    ((e.nestedIn_kept depth).template t') fun _ => ?_
  exact inner_ends (h.withContext (h.context.entered allows.injective t.name)) alike.toAlike
    fun depth _ => follows depth

/-- A template renders in the same way under another name. -/
theorem renderTo_renames (allows : e.Allows ρ) {store store' : Store σ} (h : store.Renames ρ store')
    {t t' : Template} (alike : t.Renames ρ t') {data : Value} {sink : Sink}
    (heedless : ∀ l input inside, e.Calls t data sink store l input inside → l.Heedless ρ input inside) :
    Correspond (Halt.Renames ρ) Eq (e.renderTo t data sink store).1 (e.renderTo t' data sink store').1 ∧
      (e.renderTo t' data sink store').2.1 = (e.renderTo t data sink store).2.1 ∧
      (e.renderTo t data sink store).2.2.Renames ρ (e.renderTo t' data sink store').2.2 := by
  unfold renderTo
  rw [h.isOpen, alike.name]
  split
  · have related : Render.State.Renames ρ ⟨store, startContext data, sink⟩ ⟨store', startContext data, sink⟩ :=
      ⟨h, startContext_renames data, rfl⟩
    have fresh : (startContext data : Context σ).nesting = .empty := startContext_nesting data
    have ends := execute_ends allows related fresh fresh alike fun depth =>
      finish_renames allows _ fun q l input inside reaches invokes =>
        heedless l input inside ⟨depth, q, reaches, invokes⟩
    exact ⟨ends.result, ends.state.sink, ends.state.context.close ends.state.store⟩
  · exact ⟨.error (.failed (.engineUnavailable t.name)), rfl, h⟩

end Engine

/-! ### Caches -/

namespace Store.Renames

variable {s s' : Store σ} (h : s.Renames ρ s')

include h

section

variable {matching matching' : String → Bool} (agree : ∀ name, matching' (ρ name) = matching name)

include agree

theorem forgetTemplates :
    Renames ρ
      (onShelf s.templates Store.putTemplates (fun shelf host => ((), shelf.invalidate matching host)) s).2
      (onShelf s'.templates Store.putTemplates (fun shelf host => ((), shelf.invalidate matching' host)) s').2 := by
  have shelves := h.templates
  unfold onShelf
  generalize s.templates = shelf, s'.templates = shelf' at shelves
  cases shelves with
  | none => exact h
  | @some shelf shelf' alike =>
    obtain ⟨kept, hosts⟩ := Shelf.invalidate_renames alike agree s.host
    simp only [h.agrees.host, hosts]
    exact (h.putTemplates kept).rehost _

theorem forgetSources :
    Renames ρ
      (onShelf s.sources Store.putSources (fun shelf host => ((), shelf.invalidate matching host)) s).2
      (onShelf s'.sources Store.putSources (fun shelf host => ((), shelf.invalidate matching' host)) s').2 := by
  have shelves := h.sources
  unfold onShelf
  generalize s.sources = shelf, s'.sources = shelf' at shelves
  cases shelves with
  | none => exact h
  | @some shelf shelf' alike =>
    obtain ⟨kept, hosts⟩ := Shelf.invalidate_renames alike agree s.host
    simp only [h.agrees.host, hosts]
    exact (h.putSources kept).rehost _

theorem invalidateTemplates :
    Renames ρ (Engine.invalidateTemplates matching s) (Engine.invalidateTemplates matching' s') :=
  (h.forgetTemplates agree).forgetSources agree

end

theorem invalidateMembers (r : Resolver σ) (matching : String → Bool) :
    Renames ρ (r.invalidateMembers matching s) (r.invalidateMembers matching s') := by
  unfold Resolver.invalidateMembers Resolver.onMembers
  split
  · next i _ =>
    rw [h.agrees.members]
    cases s.members[i]? with
    | none => exact h
    | some shelf =>
      simp only [onShelf, h.agrees.host]
      refine { h with agrees := ⟨rfl, ?_, h.agrees.leases, h.agrees.leaseLog⟩ }
      simp only [putMembers, h.agrees.members]
  · exact h

theorem wait (nanos : Nat) : Renames ρ (s.wait nanos) (s'.wait nanos) := by
  have later {V : Type} {same : V → V → Prop} {shelf shelf' : Option (Shelf σ String V)}
      (alike : Option.Rel (Shelf.Renames ρ same) shelf shelf') :
      Option.Rel (Shelf.Renames ρ same) (shelf.map (·.wait nanos)) (shelf'.map (·.wait nanos)) := by
    cases alike with
    | none => exact .none
    | some alike =>
      exact .some (alike.withCache ⟨alike.cache.settings, congrArg (· + nanos) alike.cache.clock,
        alike.cache.entries, alike.cache.inFlight⟩)
  exact { h with
    agrees := ⟨h.agrees.host, by simp only [Store.wait, h.agrees.members], h.agrees.leases,
      h.agrees.leaseLog⟩
    templates := later h.templates
    sources := later h.sources }

end Store.Renames

/-! ### Operations -/

inductive Operation.Renames (ρ : String → String) : Operation → Operation → Prop where
  | compile (name : String) {source source' : String} (sources : Source.Renames ρ source source') :
      Renames ρ (.compile name source) (.compile (ρ name) source')
  | get (name : String) : Renames ρ (.get name) (.get (ρ name))
  | render (index : Nat) (data : Value) (limit : Option Nat) :
      Renames ρ (.render index data limit) (.render index data limit)
  | forgetTemplates {matching matching' : String → Bool} (agree : ∀ name, matching' (ρ name) = matching name) :
      Renames ρ (.forgetTemplates matching) (.forgetTemplates matching')
  | forgetMembers (matching : String → Bool) : Renames ρ (.forgetMembers matching) (.forgetMembers matching)
  | wait (nanos : Nat) : Renames ρ (.wait nanos) (.wait nanos)

/-- The same is seen, but for the names of templates in errors. -/
inductive Observation.Renames (ρ : String → String) : Observation → Observation → Prop where
  | obtained {r r' : Except Error Bool} (h : Correspond (Error.Renames ρ) Eq r r') :
      Renames ρ (.obtained r) (.obtained r')
  | rendered {r r' : Except Halt Unit} (h : Correspond (Halt.Renames ρ) Eq r r') (written : List String) :
      Renames ρ (.rendered r written) (.rendered r' written)
  | none : Renames ρ .none .none

/-- What stands at the same place. -/
theorem related_getElem? {α : Type} {rel : α → α → Prop} {xs xs' : List α} (h : List.Forall₂ rel xs xs')
    (i : Nat) : Option.Rel rel xs[i]? xs'[i]? := by
  induction h generalizing i with
  | nil => exact .none
  | cons head _ ih =>
    cases i with
    | zero => exact .some head
    | succ i =>
      rw [List.getElem?_cons_succ, List.getElem?_cons_succ]
      exact ih i

structure Session.Renames (ρ : String → String) (s s' : Session σ) : Prop where
  store : s.store.Renames ρ s'.store
  templates : List.Forall₂ (Template.Renames ρ) s.templates s'.templates

namespace Engine

def HeedlessIn (e : Engine σ) (ρ : String → String) (s : Session σ) : Operation → Prop
  | .render index data limit => ∀ t, s.templates[index]? = some t →
    ∀ l input inside, e.Calls t data (Sink.empty limit) s.store l input inside → l.Heedless ρ input inside
  | _ => True

def Heedless (e : Engine σ) (ρ : String → String) : List Operation → Session σ → Prop
  | [], _ => True
  | operation :: rest, s => e.HeedlessIn ρ s operation ∧ e.Heedless ρ rest (e.perform s operation).2

variable {e : Engine σ} (allows : e.Allows ρ) {s s' : Session σ} (h : s.Renames ρ s')

include allows h

theorem perform_renames {operation operation' : Operation} (operations : operation.Renames ρ operation')
    (heedless : e.HeedlessIn ρ s operation) :
    (e.perform s operation).1.Renames ρ (e.perform s' operation').1 ∧
      (e.perform s operation).2.Renames ρ (e.perform s' operation').2 := by
  have add {store store' : Store σ} {t t' : Template} (stores : store.Renames ρ store')
      (alike : t.Renames ρ t') :
      Session.Renames ρ ⟨store, s.templates ++ [t]⟩ ⟨store', s'.templates ++ [t']⟩ :=
    ⟨stores, List.rel_append h.templates (.cons alike .nil)⟩
  cases operations with
  | @compile name source source' sources =>
    obtain ⟨result, stores⟩ := e.compile_renames h.store name sources
    simp only [perform]
    generalize e.compile name source s.store = out, e.compile (ρ name) source' s'.store = out' at result stores ⊢
    obtain ⟨r, store⟩ := out
    obtain ⟨r', store'⟩ := out'
    cases result with
    | ok alike => exact ⟨.obtained (.ok rfl), add stores alike⟩
    | error fails => exact ⟨.obtained (.error fails), stores, h.templates⟩
  | get name =>
    obtain ⟨result, stores⟩ := e.getTemplate_renames h.store allows.injective name
    simp only [perform]
    generalize e.getTemplate name s.store = out, e.getTemplate (ρ name) s'.store = out' at result stores ⊢
    obtain ⟨r, store⟩ := out
    obtain ⟨r', store'⟩ := out'
    cases result with
    | error fails => exact ⟨.obtained (.error fails), stores, h.templates⟩
    | ok found =>
      cases found with
      | none => exact ⟨.obtained (.ok rfl), stores, h.templates⟩
      | some alike => exact ⟨.obtained (.ok rfl), add stores alike⟩
  | render index data limit =>
    have found := related_getElem? h.templates index
    have heedless : ∀ t, s.templates[index]? = some t → ∀ l input inside,
      e.Calls t data (Sink.empty limit) s.store l input inside → l.Heedless ρ input inside := heedless
    simp only [perform]
    generalize s.templates[index]? = t, s'.templates[index]? = t' at found heedless ⊢
    cases found with
    | none => exact ⟨.none, h⟩
    | @some t t' alike =>
      obtain ⟨result, sinks, stores⟩ := renderTo_renames allows h.store alike (heedless t rfl)
      simp only [sinks]
      exact ⟨.rendered result _, stores, h.templates⟩
  | forgetTemplates agree => exact ⟨.none, h.store.invalidateTemplates agree, h.templates⟩
  | forgetMembers matching =>
    simp only [perform]
    cases e.members with
    | none => exact ⟨.none, h⟩
    | some r => exact ⟨.none, h.store.invalidateMembers r matching, h.templates⟩
  | wait nanos => exact ⟨.none, h.store.wait nanos, h.templates⟩

/-- All that is seen is the same but for names, whatever is done. -/
theorem observations_renames {operations operations' : List Operation}
    (renames : List.Forall₂ (Operation.Renames ρ) operations operations')
    (heedless : e.Heedless ρ operations s) :
    List.Forall₂ (Observation.Renames ρ) (e.observations operations s) (e.observations operations' s') := by
  -- That the sessions differ in names alone is the invariant.
  induction renames generalizing s s' with
  | nil => exact .nil
  | cons first _ ih =>
    obtain ⟨seen, related⟩ := perform_renames allows h first heedless.1
    exact .cons seen (ih related heedless.2)

end Engine

end Logicless
