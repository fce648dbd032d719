import Logicless.Engine.Build
import Logicless.Proofs.Loading
import Logicless.Proofs.Lookup
import Logicless.Proofs.Pairing
import Logicless.Proofs.Step

/-!
# Errors of compilation

A template within a template may be compiled while the outer one is rendered. If its source does not
compile, the render fails with the error of the source, and there is no other way to such an error
(`Engine.renderTo_compilation_iff`).
-/

namespace Logicless

/-! ### Consultations -/

def Consultation.Faulty (split : KeySplitter) (locators : List (Nat × Locator)) (c : Consultation)
    (err : Error) : Prop :=
  ∃ l source fault, (c.locator, l) ∈ locators ∧ l.answer c.name = .ok (some source) ∧
    Tree.ofSource c.name source split = .error fault ∧ err = .ofSourceFault c.name fault

def Locator.Distinct (locators : List (Nat × Locator)) : Prop :=
  ∀ number l l', (number, l) ∈ locators → (number, l') ∈ locators → l = l'

abbrev Error.Foreign (err : Error) : Prop :=
  err.isCompilation = false

namespace Locator

def Honest (locators : List (Nat × Locator)) : Prop :=
  ∀ p ∈ locators, ∀ name err, p.2.answer name = .error err → err.Foreign

variable {split : KeySplitter} {locators asked : List (Nat × Locator)} {name : String} {err : Error}

theorem faulty_iff (distinct : Distinct locators) {number : Nat} {l : Locator}
    (member : (number, l) ∈ locators) :
    Consultation.Faulty split locators ⟨number, name⟩ err ↔
      ∃ source fault, l.answer name = .ok (some source) ∧
        Tree.ofSource name source split = .error fault ∧ err = .ofSourceFault name fault := by
  constructor
  · rintro ⟨l', source, fault, member', answer, tree, same⟩
    obtain rfl := distinct number l l' member member'
    exact ⟨source, fault, answer, tree, same⟩
  · rintro ⟨source, fault, answer, tree, same⟩
    exact ⟨l, source, fault, member, answer, tree, same⟩

/-- Of the consultations for a name, the one that is answered with a source counts. -/
theorem askedIn_faulty_iff (distinct : Distinct locators) (within : ∀ p ∈ asked, p ∈ locators) :
    (∃ c ∈ askedIn name asked, c.Faulty split locators err) ↔
      ∃ source fault, answerIn name asked = .ok (some source) ∧
        Tree.ofSource name source split = .error fault ∧ err = .ofSourceFault name fault := by
  induction asked with
  | nil =>
    constructor
    · rintro ⟨_, member, _⟩
      cases member
    · rintro ⟨_, _, answer, _⟩
      cases answer
  | cons first rest ih =>
    obtain ⟨number, l⟩ := first
    have member : (number, l) ∈ locators := within _ List.mem_cons_self
    have ih := ih fun p h => within p (List.mem_cons_of_mem _ h)
    unfold askedIn answerIn
    split
    · next passed =>
      rw [← ih]
      constructor
      · rintro ⟨c, h, faulty⟩
        rcases List.mem_append.mp h with h | h
        · exact ⟨c, h, faulty⟩
        · obtain rfl := List.mem_singleton.mp h
          obtain ⟨_, _, answer, _⟩ := (faulty_iff distinct member).mp faulty
          rw [passed] at answer
          cases answer
      · rintro ⟨c, h, faulty⟩
        exact ⟨c, List.mem_append_left _ h, faulty⟩
    · simp only [List.mem_singleton, exists_eq_left]
      exact faulty_iff distinct member

theorem answerIn_foreign (honest : Honest asked) (failed : answerIn name asked = .error err) :
    err.Foreign := by
  induction asked with
  | nil => cases failed
  | cons first rest ih =>
    unfold answerIn at failed
    split at failed
    · exact ih (fun p h => honest p (List.mem_cons_of_mem _ h)) failed
    · exact honest first List.mem_cons_self name err failed

end Locator

theorem Engine.content_error_iff {split : KeySplitter} {locators : List (Nat × Locator)}
    (distinct : Locator.Distinct locators) (honest : Locator.Honest locators) {name : String}
    {err : Error} (compilation : err.isCompilation = true) :
    content split locators name = .error err ↔
      ∃ c ∈ Locator.askedIn name locators, c.Faulty split locators err := by
  rw [Locator.askedIn_faulty_iff distinct fun _ h => h]
  unfold content
  constructor
  · intro failed
    split at failed
    · next err' answer =>
      cases failed
      exact absurd compilation (by rw [Locator.answerIn_foreign honest answer]; decide)
    · cases failed
    · next source answer =>
      split at failed
      · cases failed
      · next fault tree =>
        cases failed
        exact ⟨source, fault, answer, tree, rfl⟩
  · rintro ⟨source, fault, answer, tree, rfl⟩
    simp only [answer, tree]

/-! ### What executions leave on record -/

variable {σ α β : Type}

def Exec.halt? : Except Halt α → Option Halt
  | .ok _ => none
  | .error halt => some halt

namespace Engine

/-- The host program reports no errors of compilation, and its locators can be told apart. -/
structure Trusts (e : Engine σ) (store : Store σ) : Prop where
  host : e.Admits Error.Foreign
  hints : ∀ p ∈ store.hints, p.2.Admits Error.Foreign
  honest : Locator.Honest store.locators
  distinct : Locator.Distinct store.locators

/-- What has happened since `start`: the halt, if there is one, is an error of compilation just if
a consultation led to it. -/
structure Traced (e : Engine σ) (start : Store σ) (halt : Option Halt) (store : Store σ) : Prop where
  locators : store.locators = start.locators
  hints : ∀ p ∈ store.hints, p.2.Admits Error.Foreign
  told : ∃ asked, store.consultations = asked ++ start.consultations ∧
    ∀ err, err.isCompilation = true →
      (halt = some (.failed err) ↔ ∃ c ∈ asked, c.Faulty e.split start.locators err)

namespace Traced

variable {e : Engine σ} {start store store' : Store σ} {halt : Option Halt}

theorem initial (trusts : e.Trusts start) : e.Traced start none start := by
  refine ⟨rfl, trusts.hints, [], rfl, fun err _ => ?_⟩
  constructor
  · intro stopped
    cases stopped
  · rintro ⟨_, member, _⟩
    cases member

theorem of_eq (h : e.Traced start halt store) (locators : store'.locators = store.locators)
    (hints : store'.hints = store.hints) (consultations : store'.consultations = store.consultations) :
    e.Traced start halt store' := by
  refine ⟨locators.trans h.locators, ?_, ?_⟩
  · rw [hints]
    exact h.hints
  · rw [consultations]
    exact h.told

/-- A halt of another kind is no consultation's fault. -/
theorem halted (h : e.Traced start none store)
    (foreign : ∀ err, halt = some (.failed err) → err.Foreign) : e.Traced start halt store := by
  obtain ⟨asked, log, told⟩ := h.told
  refine ⟨h.locators, h.hints, asked, log, fun err compilation => ?_⟩
  rw [← told err compilation]
  constructor
  · intro stopped
    rw [foreign err stopped] at compilation
    cases compilation
  · intro stopped
    cases stopped

end Traced

end Engine

def Exec.Traces (e : Engine σ) (start : Store σ) (x : Exec σ α) : Prop :=
  ∀ s, e.Traced start none s.store → e.Traced start (Exec.halt? (x s).1) (x s).2.store

namespace Exec.Traces

variable {e : Engine σ} {start : Store σ} {x : Exec σ α}

theorem pure (a : α) : Traces e start (Pure.pure a) :=
  fun _ traced => traced

theorem fail {err : Error} (foreign : err.Foreign) : Traces e start (Exec.fail err : Exec σ α) := by
  intro s traced
  apply traced.halted
  rintro _ ⟨⟩
  exact foreign

theorem endless : Traces e start (Attempt.fail .endless : Exec σ α) := by
  intro s traced
  apply traced.halted
  rintro _ ⟨⟩

theorem bind {f : α → Exec σ β} (hx : Traces e start x) (hf : ∀ a, Traces e start (f a)) :
    Traces e start (x >>= f) := by
  intro s traced
  have traced := hx s traced
  rcases ran : x s with ⟨r, t⟩
  rw [ran] at traced
  cases r with
  | error halt =>
    rw [Attempt.bind_of_error ran]
    exact traced
  | ok a =>
    rw [Attempt.bind_of_ok ran]
    exact hf a t traced

theorem onStore {x : Attempt (Store σ) Error α}
    (hx : ∀ store, e.Traced start none store →
      e.Traced start (halt? ((x store).1.mapError Halt.failed)) (x store).2) :
    Traces e start (Exec.onStore x) :=
  fun s traced => hx s.store traced

theorem write (text : String) : Traces e start (Exec.write text) := by
  intro s traced
  unfold Exec.write
  split
  · exact traced
  · apply traced.halted
    rintro _ ⟨⟩
    rfl

theorem captured {x : Exec σ Unit} (hx : Traces e start x) : Traces e start (Exec.captured x) := by
  intro s traced
  have traced := hx { s with sink := Sink.empty none } traced
  rw [captured_apply]
  generalize (x { s with sink := Sink.empty none }).1 = r at traced ⊢
  cases r with
  | ok _ => exact traced
  | error _ => exact traced

/-- Leases are released without a trace. -/
theorem releaseAll (leases : List (Lease σ)) {halt : Option Halt} {store : Store σ}
    (traced : e.Traced start halt store) : e.Traced start halt (store.releaseAll leases) := by
  have same := Store.undisturbed_releaseAll leases store
  exact traced.of_eq same.locators same.hints same.consultations

theorem pop {halt : Option Halt} {s : Render.State σ} (traced : e.Traced start halt s.store) :
    e.Traced start halt (Exec.pop s).store := by
  simp only [Exec.pop, Context.pop]
  split
  · exact traced
  · exact releaseAll _ traced

theorem withScope (v : Value) (leases : List (Lease σ)) (hx : Traces e start x) :
    Traces e start (Exec.withScope v leases x) :=
  fun s traced => pop (hx { s with context := s.context.push v leases } traced)

theorem ensuring (found : Found σ) (hx : Traces e start x) :
    Traces e start (Attempt.ensuring x (release found)) :=
  fun s traced => releaseAll found.leases (hx s traced)

theorem nested {limit : Nat} {name : String} (hx : Traces e start x) :
    Traces e start (Exec.nested limit name x) := by
  intro s traced
  by_cases full : limit ≤ s.context.openings name
  · rw [nested_of_full full]
    apply traced.halted
    rintro _ ⟨⟩
    rfl
  · rw [nested_of_room full]
    exact hx { s with context := s.context.entered name } traced

/-- A hint that is looked up is on record. -/
theorem filled {store : Store σ} {slot : Option Slot} (traced : e.Traced start none store) :
    Resolver.Offers Error.Foreign (Engine.filled slot store).join := by
  intro h given
  cases slot with
  | none => cases given
  | some place => exact Store.hint_admits traced.hints given

theorem lookup (trusts : e.Trusts start) (parts : List String) (slot : Option Slot)
    {k k' : Found σ → Exec σ α}
    (consumed : ∀ found, Resolver.Offers Error.Foreign found.hint →
      Consumes (fun x _ => Traces e start x) found found (k found) (k' found)) :
    Traces e start (e.findHere parts slot >>= k) := by
  intro s traced
  have hints : Resolver.Offers Error.Foreign (Engine.filled slot s.store).join := filled traced
  have kept := Engine.find_kept trusts.host s.context.values parts hints s.store.owes_self
  rcases ran : e.find s.context.values parts (Engine.filled slot s.store) s.store with ⟨r, store⟩
  rw [ran] at kept
  cases r with
  | error err =>
    obtain ⟨same, _, foreign⟩ := kept
    have traced := traced.of_eq same.locators same.hints same.consultations
    rw [Engine.findHere_of_error ran]
    apply traced.halted
    rintro _ ⟨⟩
    exact foreign
  | ok found =>
    obtain ⟨same, _, offers⟩ := kept
    have traced := traced.of_eq same.locators same.hints same.consultations
    rw [Engine.findHere_of_ok ran]
    have consumed := consumed found offers
    generalize k found = y, k' found = y' at consumed
    cases consumed with
    | release hx => exact hx.ensuring found { s with store } traced
    | scope _ hx => exact hx.withScope _ _ { s with store } traced

theorem learnHint {slot : Option Slot} {hint : Option (Hint σ)}
    (offers : Resolver.Offers Error.Foreign hint) :
    Traces e start (Attempt.update (Engine.learnHint slot hint)) := by
  intro s traced
  simp only [Attempt.update]
  rcases Engine.learnHint_cases slot hint s with same | ⟨place, h, _, given, _, learned⟩
  · rw [same]
    exact traced
  · rw [learned]
    refine ⟨traced.locators, fun p member => ?_, traced.told⟩
    rcases List.mem_cons.mp member with rfl | member
    · exact offers h given
    · exact traced.hints p member

/-- That the output of a lambda does not compile is a failure of the lambda. -/
theorem compileOneOff (origin : Origin) (tag source : String) :
    Traces e start (Exec.onStore (e.compileOneOff origin tag source)) := by
  refine .onStore fun store traced => ?_
  obtain ⟨carried, _, consultations, errors⟩ := e.compileOneOff_carried origin tag source store
  have traced := traced.of_eq carried.locators carried.hints consultations
  apply traced.halted
  intro err stopped
  cases r : (e.compileOneOff origin tag source store).1 with
  | ok _ =>
    rw [r] at stopped
    cases stopped
  | error err' =>
    rw [r] at stopped
    obtain ⟨reason, rfl⟩ := errors err' r
    cases stopped
    rfl

/-- Loading fails with an error of compilation just if a locator was asked that is to blame. -/
theorem load (trusts : e.Trusts start) {name : String} {store store' : Store σ}
    {r : Except Error (Option Template)} (traced : e.Traced start none store)
    (ran : e.load name store = (r, store')) :
    e.Traced start (halt? (r.mapError Halt.failed)) store' := by
  obtain ⟨asked, log, told⟩ := traced.told
  have honest : Locator.Honest store.locators := traced.locators ▸ trusts.honest
  have distinct : Locator.Distinct store.locators := traced.locators ▸ trusts.distinct
  have recorded (halt : Option Halt)
      (same : ∀ err, err.isCompilation = true → (halt = some (.failed err) ↔
        Engine.content e.split store.locators name = .error err)) :
      e.Traced start halt (store.consult name) := by
    refine ⟨traced.locators, traced.hints, Locator.askedIn name store.locators ++ asked, ?_, ?_⟩
    · simp only [Store.consult, log, List.append_assoc]
    · intro err compilation
      have before : ¬ ∃ c ∈ asked, c.Faulty e.split start.locators err := by
        rw [← told err compilation]
        intro stopped
        cases stopped
      rw [same err compilation, Engine.content_error_iff distinct honest compilation, traced.locators]
      constructor
      · rintro ⟨c, member, faulty⟩
        exact ⟨c, List.mem_append_left _ member, faulty⟩
      · rintro ⟨c, member, faulty⟩
        rcases List.mem_append.mp member with member | member
        · exact ⟨c, member, faulty⟩
        · exact absurd ⟨c, member, faulty⟩ before
  cases h : Engine.content e.split store.locators name with
  | error err =>
    rw [e.load_of_error h] at ran
    cases ran
    apply recorded
    intro err' _
    rw [h]
    constructor
    · rintro ⟨⟩
      rfl
    · rintro ⟨⟩
      rfl
  | ok found =>
    have unharmed : e.Traced start none (store.consult name) := by
      apply recorded
      intro err' _
      rw [h]
      constructor <;> intro stopped <;> cases stopped
    cases found with
    | none =>
      rw [e.load_of_none h] at ran
      cases ran
      exact unharmed
    | some segments =>
      rw [e.load_of_some h] at ran
      cases ran
      exact unharmed.of_eq rfl rfl rfl

theorem getTemplate (trusts : e.Trusts start) (name : String) :
    Traces e start (Exec.onStore (e.getTemplate name)) := by
  refine .onStore fun store traced => ?_
  have gets := e.gets name store
  generalize e.getTemplate name store = out at gets ⊢
  cases gets with
  | loaded r store' _ ran => exact load trusts traced ran
  | stored r _ _ before after store' _ ran _ =>
    have traced : e.Traced start none { store with host := before } := traced.of_eq rfl rfl rfl
    exact (load trusts traced ran).of_eq rfl rfl rfl
  | answered r shelf _ host _ answers _ =>
    have foreign : ∀ err, halt? (r.mapError Halt.failed) = some (.failed err) → err.Foreign := by
      intro err stopped
      cases answers with
      | held _ _ _ _ _ => cases stopped
      | foreign _ =>
        cases stopped
        rfl
      | inFlight _ _ =>
        cases stopped
        rfl
    exact (traced.halted foreign).of_eq rfl rfl rfl

end Exec.Traces

namespace Engine

variable {e : Engine σ} {start : Store σ}

def tracing (e : Engine σ) (start : Store σ) : Likeness σ where
  rel x _ := Exec.Traces e start x
  asked _ _ _ := True
  same _ found found' := found = found' ∧ Resolver.Offers Error.Foreign found.hint
  fit _ := True

/-- Every step of the renderer keeps the record true. -/
theorem tracing_kept (trusts : e.Trusts start) : Pairing (e.tracing start) e e where
  missing := rfl
  support := rfl
  skipEscaping := rfl
  same_value same := congrArg Found.value same.1.symm
  same_fit _ _ := trivial
  fit_item _ _ := trivial
  pure := Exec.Traces.pure
  bind := Exec.Traces.bind
  fail raises := by
    apply Exec.Traces.fail
    cases raises with
    | lambda tag reason => rfl
    | missing raised => exact trusts.host.missing _ _ raised
    | support raised => exact trusts.host.support _ _ raised
  endless _ := Exec.Traces.endless
  write := Exec.Traces.write
  captured := Exec.Traces.captured
  item _ hx := hx.withScope _ _
  lookup _ consumed :=
    Exec.Traces.lookup trusts _ _ fun found offers => consumed found found ⟨rfl, offers⟩
  learn _ same := Exec.Traces.learnHint same.2

theorem nestedIn_traces (trusts : e.Trusts start) (depth : Nat) (t : Template) :
    Exec.Traces e start (e.nestedIn depth t) := by
  induction depth generalizing t with
  | zero => exact .endless
  | succ depth ih =>
    have nests : Pairing.Nests (e.tracing start) e e (e.nestedIn depth) (e.nestedIn depth) := by
      constructor
      · exact fun _ => trivial
      · intro origin tag source
        exact .bind (.compileOneOff origin tag source) fun t => (ih t).nested
      · intro name origin
        refine .bind (.getTemplate trusts name) fun found => ?_
        cases found with
        | none => exact .fail rfl
        | some t => exact (ih t).nested
    rw [nestedIn]
    exact (tracing_kept trusts).runAll nests t.instanceId t.instanceId t.segments fun _ _ => trivial

theorem execute_traces (trusts : e.Trusts start) (t : Template) :
    Exec.Traces e start (e.execute t) := by
  intro s traced
  rw [execute_apply, executeWithin]
  exact (nestedIn_traces trusts _ t).nested s traced

/-- A render fails with an error of compilation just if it has asked a locator for a template that
does not compile, and the error is that of the template. -/
theorem renderTo_compilation_iff (trusts : e.Trusts start) (t : Template) (data : Value) (sink : Sink) :
    ∃ asked, (e.renderTo t data sink start).2.2.consultations = asked ++ start.consultations ∧
      ∀ err, err.isCompilation = true →
        ((e.renderTo t data sink start).1 = .error (.failed err) ↔
          ∃ c ∈ asked, c.Faulty e.split start.locators err) := by
  have ended : e.Traced start (Exec.halt? (e.renderTo t data sink start).1)
      (e.renderTo t data sink start).2.2 := by
    unfold renderTo
    split
    · have traced := execute_traces trusts t ⟨start, startContext data, sink⟩ (.initial trusts)
      generalize e.execute t ⟨start, startContext data, sink⟩ = out at traced ⊢
      have closed := Store.undisturbed_close out.2.context out.2.store
      exact traced.of_eq closed.locators closed.hints closed.consultations
    · apply (Traced.initial trusts).halted
      rintro _ ⟨⟩
      rfl
  obtain ⟨asked, log, told⟩ := ended.told
  refine ⟨asked, log, fun err compilation => ?_⟩
  rw [← told err compilation]
  cases (e.renderTo t data sink start).1 with
  | ok _ =>
    constructor <;> intro stopped <;> cases stopped
  | error halt =>
    constructor
    · rintro ⟨⟩
      rfl
    · rintro ⟨⟩
      rfl

def unclosed : Store Unit :=
  { Blueprint.standard.emptyStore () with
    locators := [(0, Locator.ofTable 0 [("p", .ok "\x7b\x7b#a\x7d\x7d")] [] "table")] }

theorem trusts_bare_unclosed : (bare .ignore).Trusts unclosed := by
  refine ⟨⟨?_, ?_, ?_, ?_, ?_⟩, ?_, ?_, ?_⟩
  · intro r member
    cases member
  · intro info err raised
    cases raised
  · intro text err raised
    cases raised
  · exact fun _ => rfl
  · exact fun _ => rfl
  · intro p member
    cases member
  · intro p member name err failed
    obtain rfl := List.mem_singleton.mp member
    simp only [Locator.ofTable, Locator.tableAnswer, List.lookup_cons, List.lookup_nil] at failed
    cases same : name == "p" <;> rw [same] at failed <;> cases failed
  · intro number l l' member member'
    cases List.mem_singleton.mp member
    cases List.mem_singleton.mp member'
    rfl

theorem renderTo_compilation_iff_unclosed :
    (bare .ignore).Trusts unclosed ∧
      ∃ asked, ((bare .ignore).renderTo ⟨0, "main", [.inclusion "p" ⟨"main", 1, 1⟩]⟩ .null
          (Sink.empty none) unclosed).2.2.consultations = asked ++ unclosed.consultations ∧
        ∀ err, err.isCompilation = true →
          (((bare .ignore).renderTo ⟨0, "main", [.inclusion "p" ⟨"main", 1, 1⟩]⟩ .null
              (Sink.empty none) unclosed).1 = .error (.failed err) ↔
            ∃ c ∈ asked, c.Faulty (bare .ignore).split unclosed.locators err) :=
  ⟨trusts_bare_unclosed, renderTo_compilation_iff trusts_bare_unclosed _ _ _⟩

/-- The source of a template within a template is compiled late, and its error comes out. -/
theorem compilation_bare_unclosed :
    ∃ t, Template.ofSource 0 "main" "\x7b\x7b>p\x7d\x7d" Key.dotted = .ok t ∧
      ((bare .ignore).renderTo t .null (Sink.empty none) unclosed).1 =
        .error (.failed (.compilation "p" 1 (.unterminatedSection "a"))) := by
  refine ⟨⟨0, "main", [.inclusion "p" ⟨"main", 1, 1⟩]⟩, ?_, ?_⟩
  · with_unfolding_all rfl
  · with_unfolding_all rfl

end Engine

end Logicless
