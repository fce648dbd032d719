import Logicless.Proofs.Course
import Logicless.Proofs.Pairing
import Logicless.Proofs.Renaming.Lookup
import Logicless.Proofs.Renaming.Source

/-!
# Numbers of one-off templates

The number of a template that is made of the output of a lambda stands in its name and nowhere else. A
render that counts such templates from another number writes the same, and its error differs in such
names alone (`Engine.renderTo_renumbered`).
-/

namespace Logicless

variable {σ α β : Type}

/-- The names of templates are the same but for the numbers of one-off templates. -/
inductive Renumbered : String → String → Prop where
  | same (name : String) : Renumbered name name
  | oneOff {o o' : Origin} (within : Renumbered o.template o'.template) (line : o'.line = o.line)
      (number number' : Nat) : Renumbered (Engine.oneOffName o number) (Engine.oneOffName o' number')

inductive Error.Renumbered : Error → Error → Prop where
  | same (err : Error) : Renumbered err err
  | compilation {name name' : String} (names : Logicless.Renumbered name name') (line : Nat)
      (fault : Fault) : Renumbered (.compilation name line fault) (.compilation name' line fault)
  | lambda {err err' : Error} (tag : String) (reason : Renumbered err err') :
      Renumbered (.lambda tag err.message) (.lambda tag err'.message)
  | missingValue {name name' : String} (tag : String) (names : Logicless.Renumbered name name')
      (line : Nat) : Renumbered (.missingValue tag name line) (.missingValue tag name' line)
  | partialNotFound {template template' : String} (name : String)
      (names : Logicless.Renumbered template template') (line : Nat) :
      Renumbered (.partialNotFound name template line) (.partialNotFound name template' line)

inductive Halt.Renumbered : Halt → Halt → Prop where
  | failed {err err' : Error} (errors : err.Renumbered err') : Renumbered (.failed err) (.failed err')
  | endless : Renumbered .endless .endless

def Store.numberedFrom (number : Nat) (store : Store σ) : Store σ :=
  { store with oneOffs := number }

def Attempt.Uncounted (x : Attempt (Store σ) Error α) : Prop :=
  ∀ store number, x (store.numberedFrom number) = ((x store).1, (x store).2.numberedFrom number)

namespace Store

theorem releaseAll_numberedFrom (leases : List (Lease σ)) (number : Nat) (store : Store σ) :
    (store.numberedFrom number).releaseAll leases = (store.releaseAll leases).numberedFrom number := by
  induction leases generalizing store with
  | nil => rfl
  | cons lease rest ih => exact ih (store.release lease)

end Store

namespace Engine

variable (e : Engine σ)

end Engine

/-! ### Steps -/

def Render.State.numberedFrom (number : Nat) (s : Render.State σ) : Render.State σ :=
  { s with store := s.store.numberedFrom number }

/-- Where one-off templates are counted from another number, the second execution ends like the first:
with the same result, or with an error that differs in numbers. -/
def Exec.Renumbered (x x' : Exec σ α) : Prop :=
  ∀ s number, ∃ after, (x' (s.numberedFrom number)).2 = (x s).2.numberedFrom after ∧
    Correspond Halt.Renumbered Eq (x s).1 (x' (s.numberedFrom number)).1

theorem Halt.renumbered_self (r : Except Halt α) : Correspond Halt.Renumbered Eq r r := by
  cases r with
  | ok a => exact .ok rfl
  | error halt =>
    cases halt with
    | failed err => exact .error (.failed (.same err))
    | endless => exact .error .endless

namespace Exec.Renumbered

theorem of_unchanged {x : Exec σ α}
    (unchanged : ∀ s number, x (s.numberedFrom number) = ((x s).1, (x s).2.numberedFrom number)) :
    Renumbered x x := by
  intro s number
  rw [unchanged]
  exact ⟨number, rfl, Halt.renumbered_self _⟩

theorem fail {err err' : Error} (errors : err.Renumbered err') :
    Renumbered (Exec.fail err : Exec σ α) (Exec.fail err') :=
  fun _ number => ⟨number, rfl, .error (.failed errors)⟩

theorem bind {x x' : Exec σ α} {f f' : α → Exec σ β} (hx : Renumbered x x')
    (hf : ∀ a, Renumbered (f a) (f' a)) : Renumbered (x >>= f) (x' >>= f') := by
  intro s number
  obtain ⟨after, state, result⟩ := hx s number
  rcases ran : x s with ⟨r, t⟩
  rcases ran' : x' (s.numberedFrom number) with ⟨r', t'⟩
  rw [ran, ran'] at state result
  obtain rfl : t' = t.numberedFrom after := state
  cases result with
  | error halts =>
    rw [Attempt.bind_of_error ran, Attempt.bind_of_error ran']
    exact ⟨after, rfl, .error halts⟩
  | @ok a a' same =>
    obtain rfl : a = a' := same
    rw [Attempt.bind_of_ok ran, Attempt.bind_of_ok ran']
    exact hf a t after

theorem write (text : String) : Renumbered (Exec.write text : Exec σ Unit) (Exec.write text) := by
  refine of_unchanged fun s number => ?_
  have same : (s.numberedFrom number).sink = s.sink := rfl
  unfold Exec.write
  rw [same]
  cases s.sink.write? text <;> rfl

theorem captured {x x' : Exec σ Unit} (hx : Renumbered x x') :
    Renumbered (Exec.captured x) (Exec.captured x') := by
  intro s number
  obtain ⟨after, state, result⟩ := hx { s with sink := Sink.empty none } number
  have started : ({ s.numberedFrom number with sink := Sink.empty none } : Render.State σ) =
      Render.State.numberedFrom number { s with sink := Sink.empty none } := rfl
  rw [captured_apply, captured_apply, started, state]
  refine ⟨after, rfl, ?_⟩
  generalize (x { s with sink := Sink.empty none }).1 = r at result ⊢
  generalize (x' (Render.State.numberedFrom number { s with sink := Sink.empty none })).1 = r' at result ⊢
  cases result with
  | ok _ => exact .ok rfl
  | error halts => exact .error halts

theorem ensuring {x x' : Exec σ α} (hx : Renumbered x x') (found : Found σ) :
    Renumbered (Attempt.ensuring x (release found)) (Attempt.ensuring x' (release found)) := by
  intro s number
  obtain ⟨after, state, result⟩ := hx s number
  refine ⟨after, ?_, result⟩
  change release found (x' (s.numberedFrom number)).2 = _
  rw [state]
  exact congrArg (fun store => { (x s).2 with store })
    (Store.releaseAll_numberedFrom found.leases after (x s).2.store)

theorem withScope {x x' : Exec σ α} (hx : Renumbered x x') (v : Value) (leases : List (Lease σ)) :
    Renumbered (Exec.withScope v leases x) (Exec.withScope v leases x') := by
  intro s number
  obtain ⟨after, state, result⟩ := hx { s with context := s.context.push v leases } number
  rw [withScope_apply, withScope_apply]
  refine ⟨after, ?_, result⟩
  change pop (x' (Render.State.numberedFrom number { s with context := s.context.push v leases })).2 = _
  rw [state]
  generalize (x { s with context := s.context.push v leases }).2 = t
  obtain ⟨store, ⟨scopes, held, nesting⟩, sink⟩ := t
  cases scopes with
  | nil => rfl
  | cons scope rest =>
    exact congrArg (fun store => (⟨store, ⟨rest, held, nesting⟩, sink⟩ : Render.State σ))
      (Store.releaseAll_numberedFrom scope.leases after store)

theorem nested {x x' : Exec σ α} (hx : Renumbered x x') (limit : Nat) (name : String) :
    Renumbered (Exec.nested limit name x) (Exec.nested limit name x') := by
  intro s number
  by_cases full : limit ≤ s.context.openings name
  · rw [nested_of_full full, nested_of_full (s := s.numberedFrom number) full]
    exact ⟨number, rfl, Halt.renumbered_self _⟩
  · rw [nested_of_room full, nested_of_room (s := s.numberedFrom number) full]
    obtain ⟨after, state, result⟩ := hx { s with context := s.context.entered name } number
    refine ⟨after, ?_, result⟩
    exact congrArg (leave name) state

theorem onStore {x : Attempt (Store σ) Error α} (uncounted : x.Uncounted) :
    Renumbered (Exec.onStore x) (Exec.onStore x) := by
  refine of_unchanged fun s number => ?_
  simp only [Exec.onStore]
  rw [show (s.numberedFrom number).store = s.store.numberedFrom number from rfl, uncounted]
  rfl

end Exec.Renumbered

/-! ### Templates -/

structure Template.Renumbered (t t' : Template) : Prop where
  instanceId : t'.instanceId = t.instanceId
  segments : ∃ f, (∀ name, Logicless.Renumbered name (f name)) ∧
    t'.segments = Segment.retitleAll f t.segments

theorem Template.renumbered_self (t : Template) : t.Renumbered t :=
  ⟨rfl, fun name => name, .same, (Segment.retitleAll_same t.segments).symm⟩

namespace Engine

variable (e : Engine σ)

section

variable {e} {inner : Template → Exec σ Unit}
  (within : ∀ {t t'}, t.Renumbered t' → Exec.Renumbered (inner t) (inner t'))

include within

end

end Engine

end Logicless
