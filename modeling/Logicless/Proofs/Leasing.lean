import Logicless.Proofs.Loading
import Logicless.Proofs.Lookup
import Logicless.Proofs.Pairing
import Logicless.Proofs.Step

/-!
# The leases of a render

Whatever is executed, and however it ends, it releases the leases it takes and leaves the context as
it was. So the log of a render is in order (`Engine.renderTo_nested`).
-/

namespace Logicless

variable {σ α β : Type}

def Exec.Balanced (start : Store σ) (x : Exec σ α) : Prop :=
  ∀ held s, start.Owes held s.store → (x s).2.context = s.context ∧ start.Owes held (x s).2.store

namespace Exec.Balanced

variable {start : Store σ} {x : Exec σ α}

theorem pure (a : α) : Balanced start (Pure.pure a) :=
  fun _ _ owes => ⟨rfl, owes⟩

theorem fail (halt : Halt) : Balanced start (Attempt.fail halt : Exec σ α) :=
  fun _ _ owes => ⟨rfl, owes⟩

theorem bind {f : α → Exec σ β} (hx : Balanced start x) (hf : ∀ a, Balanced start (f a)) :
    Balanced start (x >>= f) := by
  intro held s owes
  obtain ⟨context, owes⟩ := hx held s owes
  rcases ran : x s with ⟨r, s'⟩
  rw [ran] at context owes
  cases r with
  | error halt =>
    rw [Attempt.bind_of_error ran]
    exact ⟨context, owes⟩
  | ok a =>
    rw [Attempt.bind_of_ok ran, ← context]
    exact hf a held s' owes

/-- What takes no leases on the store is balanced. -/
theorem onStore {x : Attempt (Store σ) Error α}
    (carried : ∀ store : Store σ, store.Carried (x store).2) : Balanced start (Exec.onStore x) :=
  fun _ s owes => ⟨rfl, owes.of_eq (carried s.store).leases (carried s.store).leaseLog⟩

theorem write (text : String) : Balanced start (Exec.write text) := by
  intro held s owes
  unfold Exec.write
  split <;> exact ⟨rfl, owes⟩

theorem captured {x : Exec σ Unit} (hx : Balanced start x) : Balanced start (Exec.captured x) :=
  fun held s owes => hx held { s with sink := Sink.empty none } owes

theorem nested (limit : Nat) (name : String) (hx : Balanced start x) :
    Balanced start (Exec.nested limit name x) := by
  intro held s owes
  by_cases full : limit ≤ s.context.openings name
  · rw [nested_of_full full]
    exact ⟨rfl, owes⟩
  · rw [nested_of_room full]
    obtain ⟨context, owes⟩ := hx held { s with context := s.context.entered name } owes
    rw [leave_entered context]
    exact ⟨rfl, owes⟩

/-- A scope takes over leases that are pending, and they are released when it is left. -/
theorem withScope (v : Value) {leases : List (Lease σ)} (hx : Balanced start x) {held : List Nat}
    {s : Render.State σ} (owes : start.Owes (leases.map (·.id) ++ held) s.store) :
    (Exec.withScope v leases x s).2.context = s.context ∧
      start.Owes held (Exec.withScope v leases x s).2.store := by
  obtain ⟨context, owes⟩ := hx _ { s with context := s.context.push v leases } owes
  rw [withScope_apply, pop_push context]
  exact ⟨rfl, owes.releaseAll⟩

theorem ensuring {found : Found σ} (hx : Balanced start x) {held : List Nat}
    {s : Render.State σ} (owes : start.Owes (found.leases.map (·.id) ++ held) s.store) :
    (Attempt.ensuring x (release found) s).2.context = s.context ∧
      start.Owes held (Attempt.ensuring x (release found) s).2.store := by
  obtain ⟨context, owes⟩ := hx _ s owes
  exact ⟨context, owes.releaseAll⟩

theorem learnHint (slot : Option Slot) (hint : Option (Hint σ)) :
    Balanced start (Attempt.update (Engine.learnHint slot hint)) := by
  intro held s owes
  simp only [Attempt.update]
  rcases Engine.learnHint_cases slot hint s with same | ⟨place, h, _, _, _, learned⟩
  · rw [same]
    exact ⟨rfl, owes⟩
  · rw [learned]
    exact ⟨rfl, owes⟩

/-- A lookup is balanced together with what is done with its result. -/
theorem lookup (e : Engine σ) (parts : List String) (slot : Option Slot) {k k' : Found σ → Exec σ α}
    (consumed : ∀ found, Consumes (fun x _ => Balanced start x) found found (k found) (k' found)) :
    Balanced start (e.findHere parts slot >>= k) := by
  intro held s owes
  have hints : Resolver.Offers (fun _ => True) (Engine.filled slot s.store).join :=
    fun h _ => h.admits_all
  have kept := Engine.find_kept e.admits_all s.context.values parts hints owes
  rcases ran : e.find s.context.values parts (Engine.filled slot s.store) s.store with ⟨r, store⟩
  rw [ran] at kept
  cases r with
  | error err =>
    rw [Engine.findHere_of_error ran]
    exact ⟨rfl, kept.2.1⟩
  | ok found =>
    rw [Engine.findHere_of_ok ran]
    have owes := kept.2.1
    have consumed := consumed found
    generalize k found = y, k' found = y' at consumed
    cases consumed with
    | release hx => exact hx.ensuring owes
    | scope _ hx => exact hx.withScope _ owes

end Exec.Balanced

namespace Engine

variable (e : Engine σ) (start : Store σ)

def balance : Likeness σ where
  rel x _ := Exec.Balanced start x
  asked _ _ _ := True
  same _ found found' := found = found'
  fit _ := True

/-- Balance is kept by every step of the renderer. -/
theorem balance_kept : Pairing (balance start) e e where
  missing := rfl
  support := rfl
  skipEscaping := rfl
  same_value same := congrArg Found.value same.symm
  same_fit _ _ := trivial
  fit_item _ _ := trivial
  pure := Exec.Balanced.pure
  bind := Exec.Balanced.bind
  fail _ := Exec.Balanced.fail _
  endless _ := Exec.Balanced.fail _
  write := Exec.Balanced.write
  captured := Exec.Balanced.captured
  item _ hx _ _ owes := hx.withScope _ owes
  lookup _ consumed := Exec.Balanced.lookup e _ _ fun found => consumed found found rfl
  learn _ _ := Exec.Balanced.learnHint _ _

/-- Other templates and the output of lambdas are balanced, if the segments of templates are. -/
theorem nests_of_balanced {inner : Template → Exec σ Unit}
    (balanced : ∀ t, Exec.Balanced start (inner t)) :
    Pairing.Nests (balance start) e e inner inner := by
  constructor
  · exact fun _ => trivial
  · intro origin tag source
    exact .bind (.onStore fun store => (e.compileOneOff_carried origin tag source store).1)
      fun t => (balanced t).nested _ _
  · intro name origin
    refine .bind (.onStore fun store => (e.getTemplate_carried name store).1) fun found => ?_
    cases found with
    | none => exact .fail _
    | some t => exact (balanced t).nested _ _

theorem nestedIn_balanced (depth : Nat) (t : Template) : Exec.Balanced start (e.nestedIn depth t) := by
  -- What a template nests is executed with less depth. At depth 0 nothing is executed at all.
  induction depth generalizing t with
  | zero => exact .fail _
  | succ depth ih =>
    rw [nestedIn]
    exact (e.balance_kept start).runAll (e.nests_of_balanced start ih) t.instanceId t.instanceId
      t.segments fun _ _ => trivial

theorem nestedIn_nests (depth : Nat) :
    Pairing.Nests (balance start) e e (e.nestedIn depth) (e.nestedIn depth) :=
  e.nests_of_balanced start (e.nestedIn_balanced start depth)

theorem executeWithin_balanced (depth : Nat) (t : Template) :
    Exec.Balanced start (e.executeWithin depth t) :=
  (e.nestedIn_balanced start depth t).nested e.config.nestingLimit t.name

theorem execute_balanced (t : Template) : Exec.Balanced start (e.execute t) := by
  intro held s owes
  rw [execute_apply]
  exact e.executeWithin_balanced start _ t held s owes

end Engine

end Logicless
