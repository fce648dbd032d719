import Logicless.Proofs.Pairing
import Logicless.Proofs.Step

/-!
# What a render writes

The writes of an execution do not depend on its sink. A sink that refuses one of them holds those
before it, and the execution fails there (`Engine.renderTo_within`).
-/

namespace Logicless

variable {σ α β : Type}

/-! ### Sinks -/

namespace Sink

/-- Write texts from the first to the last, up to one that is refused. Whether none was refused is
given back with the sink. -/
def writeAll : List String → Sink → Sink × Bool
  | [], sink => (sink, true)
  | w :: ws, sink =>
    match sink.write? w with
    | some sink => writeAll ws sink
    | none => (sink, false)

theorem writeAll_append (ws ws' : List String) (sink : Sink) :
    sink.writeAll (ws ++ ws') =
      if (sink.writeAll ws).2 = true then (sink.writeAll ws).1.writeAll ws'
      else ((sink.writeAll ws).1, false) := by
  induction ws generalizing sink with
  | nil => rfl
  | cons w ws ih =>
    rw [List.cons_append, writeAll, writeAll]
    split
    · exact ih _
    · rfl

theorem write?_some {sink sink' : Sink} {w : String} (h : sink.write? w = some sink') :
    sink' = { sink with writes := w :: sink.writes } := by
  unfold write? at h
  split at h
  · exact (Option.some.inj h).symm
  · cases h

theorem writeAll_unlimited {sink : Sink} (unlimited : sink.limit = none) (ws : List String) :
    sink.writeAll ws = ({ sink with writes := ws.reverse ++ sink.writes }, true) := by
  induction ws generalizing sink with
  | nil => rfl
  | cons w ws ih =>
    have accepts : sink.write? w = some { sink with writes := w :: sink.writes } := by
      simp [write?, accepts, unlimited]
    have rest := @ih { sink with writes := w :: sink.writes } unlimited
    simp only [writeAll, accepts, rest, List.reverse_cons, List.append_assoc, List.singleton_append]

def bytes : List String → Nat
  | [] => 0
  | w :: ws => w.utf8ByteSize + bytes ws

theorem bytes_append (ws ws' : List String) : bytes (ws ++ ws') = bytes ws + bytes ws' := by
  induction ws with
  | nil => exact (Nat.zero_add _).symm
  | cons w ws ih => rw [List.cons_append, bytes, bytes, ih, Nat.add_assoc]

theorem bytes_reverse (ws : List String) : bytes ws.reverse = bytes ws := by
  induction ws with
  | nil => rfl
  | cons w ws ih => simp only [List.reverse_cons, bytes_append, ih, bytes, Nat.add_comm, Nat.zero_add]

theorem byteSize_eq (sink : Sink) : sink.byteSize = bytes sink.writes := by
  unfold byteSize
  induction sink.writes with
  | nil => rfl
  | cons w ws ih => simp [ih, bytes]

/-- A bounded sink takes all texts if there is room for them, and else those before the first one
that would pass the limit. -/
theorem writeAll_limited (sink : Sink) {limit : Nat} (limited : sink.limit = some limit)
    (within : sink.byteSize ≤ limit) (ws : List String) :
    (sink.byteSize + bytes ws ≤ limit ∧
      sink.writeAll ws = ({ sink with writes := ws.reverse ++ sink.writes }, true)) ∨
    ∃ before w after, ws = before ++ w :: after ∧ sink.byteSize + bytes before ≤ limit ∧
      limit < sink.byteSize + bytes (before ++ [w]) ∧
      sink.writeAll ws = ({ sink with writes := before.reverse ++ sink.writes }, false) := by
  induction ws generalizing sink with
  | nil => exact Or.inl ⟨within, rfl⟩
  | cons w ws ih =>
    have more : ({ sink with writes := w :: sink.writes } : Sink).byteSize =
        sink.byteSize + w.utf8ByteSize := by
      simp [byteSize_eq, bytes, Nat.add_comm]
    by_cases room : sink.byteSize + w.utf8ByteSize ≤ limit
    · have taken : sink.write? w = some { sink with writes := w :: sink.writes } := by
        simp [write?, accepts, limited, room]
      have rest := @ih { sink with writes := w :: sink.writes } limited (by omega)
      simp only [writeAll, taken, List.reverse_cons, List.append_assoc, List.singleton_append]
      rcases rest with ⟨fits, rest⟩ | ⟨before, w', after, rfl, fits, passes, rest⟩
      · refine Or.inl ⟨?_, rest⟩
        simp only [bytes] at fits ⊢
        omega
      · refine Or.inr ⟨w :: before, w', after, rfl, ?_, ?_, ?_⟩
        · simp only [bytes] at fits ⊢
          omega
        · simp only [bytes, List.cons_append] at passes ⊢
          omega
        · simpa using rest
    · have refused : sink.write? w = none := by
        simp [write?, accepts, limited, room]
      refine Or.inr ⟨[], w, ws, rfl, within, ?_, ?_⟩
      · simp only [bytes, List.nil_append]
        omega
      · simp only [writeAll, refused, List.reverse_nil, List.nil_append]

end Sink

/-! ### Executions -/

namespace Exec

/-- From the state, but for its sink, the execution makes the writes `ws` and ends with `r` in the
state `t`. With a sink that refuses one of the writes, it fails there. -/
structure Yields (x : Exec σ α) (s : Render.State σ) (ws : List String) (r : Except Halt α)
    (t : Render.State σ) : Prop where
  taken : ∀ sink : Sink, (sink.writeAll ws).2 = true →
    x { s with sink } = (r, { t with sink := (sink.writeAll ws).1 })
  refused : ∀ sink : Sink, (sink.writeAll ws).2 = false →
    (x { s with sink }).1 = .error (.failed .output) ∧
      (x { s with sink }).2.sink = (sink.writeAll ws).1

/-- The execution neither writes nor goes by what has been written. -/
def Quiet (x : Exec σ α) : Prop :=
  ∀ s sink, x { s with sink } = ((x s).1, { (x s).2 with sink })

def Aside (f : Render.State σ → Render.State σ) : Prop :=
  ∀ s sink, f { s with sink } = { f s with sink }

theorem Aside.sink_eq {f : Render.State σ → Render.State σ} (h : Aside f) (s : Render.State σ) :
    (f s).sink = s.sink := by
  have same : f s = { f s with sink := s.sink } := h s s.sink
  rw [same]

theorem aside_release (found : Found σ) : Aside (release found) :=
  fun _ _ => rfl

theorem aside_leave (name : String) : Aside (leave (σ := σ) name) :=
  fun _ _ => rfl

theorem aside_pop : Aside (pop (σ := σ)) :=
  fun _ _ => rfl

theorem aside_learnHint (slot : Option Slot) (hint : Option (Hint σ)) :
    Aside (Engine.learnHint slot hint) := by
  intro s sink
  unfold Engine.learnHint
  split <;> rfl

namespace Quiet

variable {x : Exec σ α}

theorem yields (h : Quiet x) (s : Render.State σ) : Yields x s [] (x s).1 (x s).2 := by
  refine ⟨fun sink _ => h s sink, fun sink refused => ?_⟩
  cases refused

theorem pure (a : α) : Quiet (Pure.pure a : Exec σ α) :=
  fun _ _ => rfl

theorem fail (halt : Halt) : Quiet (Attempt.fail halt : Exec σ α) :=
  fun _ _ => rfl

theorem onStore (x : Attempt (Store σ) Error α) : Quiet (Exec.onStore x) :=
  fun _ _ => rfl

theorem ofExcept (r : Except Error α) : Quiet (Exec.ofExcept r : Exec σ α) :=
  fun _ _ => rfl

theorem update {f : Render.State σ → Render.State σ} (h : Aside f) : Quiet (Attempt.update f) := by
  intro s sink
  simp only [Attempt.update, h s sink]

/-- What is kept from the sink is no write. -/
theorem captured (x : Exec σ Unit) : Quiet (Exec.captured x) :=
  fun _ _ => rfl

theorem invoke (l : Lambda) (tag : String) (input : Option String) :
    Quiet (Engine.invoke l tag input : Exec σ (Option String)) := by
  unfold Engine.invoke
  cases l.invoke input with
  | ok output => exact pure output
  | error reason => exact fail _

theorem findHere (e : Engine σ) (parts : List String) (slot : Option Slot) :
    Quiet (e.findHere parts slot) :=
  fun _ _ => rfl

end Quiet

namespace Yields

variable {x : Exec σ α} {s t u : Render.State σ} {ws ws' : List String} {r : Except Halt α}

theorem write (text : String) (s : Render.State σ) : Yields (Exec.write text) s [text] (.ok ()) s := by
  constructor
  · intro sink taken
    simp only [Sink.writeAll, Exec.write] at taken ⊢
    cases written : sink.write? text with
    | none => simp [written] at taken
    | some sink' => rfl
  · intro sink refused
    simp only [Sink.writeAll, Exec.write] at refused ⊢
    cases written : sink.write? text with
    | none => exact ⟨rfl, rfl⟩
    | some sink' => simp [written] at refused

/-- A write that is refused ends the execution. -/
theorem refused_bind (hx : Yields x s ws r t) (f : α → Exec σ β) {sink : Sink}
    (h : (sink.writeAll ws).2 = false) :
    ((x >>= f) { s with sink }).1 = .error (.failed .output) ∧
      ((x >>= f) { s with sink }).2.sink = (sink.writeAll ws).1 := by
  obtain ⟨output, held⟩ := hx.refused sink h
  rcases ran : x { s with sink } with ⟨r', s'⟩
  rw [ran] at output held
  simp only at output
  rw [output] at ran
  rw [Attempt.bind_of_error ran]
  exact ⟨rfl, held⟩

theorem bind {f : α → Exec σ β} {a : α} {r : Except Halt β} (hx : Yields x s ws (.ok a) t)
    (hf : Yields (f a) t ws' r u) : Yields (x >>= f) s (ws ++ ws') r u := by
  constructor
  · intro sink taken
    rw [Sink.writeAll_append] at taken ⊢
    by_cases first : (sink.writeAll ws).2 = true
    · rw [if_pos first] at taken ⊢
      rw [Attempt.bind_of_ok (hx.taken sink first)]
      exact hf.taken _ taken
    · rw [if_neg first] at taken
      cases taken
  · intro sink refused
    rw [Sink.writeAll_append] at refused ⊢
    by_cases first : (sink.writeAll ws).2 = true
    · rw [if_pos first] at refused ⊢
      rw [Attempt.bind_of_ok (hx.taken sink first)]
      exact hf.refused _ refused
    · rw [if_neg first]
      exact hx.refused_bind f (Bool.eq_false_iff.mpr first)

theorem bind_error {f : α → Exec σ β} {halt : Halt} (hx : Yields x s ws (.error halt) t) :
    Yields (x >>= f) s ws (.error halt) t :=
  ⟨fun sink h => Attempt.bind_of_error (hx.taken sink h), fun _ h => hx.refused_bind f h⟩

theorem ensuring {after : Render.State σ → Render.State σ} (aside : Aside after)
    (hx : Yields x s ws r t) : Yields (Attempt.ensuring x after) s ws r (after t) := by
  constructor
  · intro sink taken
    rw [Attempt.ensuring_apply, hx.taken sink taken, aside]
  · intro sink refused
    obtain ⟨output, held⟩ := hx.refused sink refused
    rw [Attempt.ensuring_apply]
    exact ⟨output, (aside.sink_eq _).trans held⟩

theorem withScope (v : Value) (leases : List (Lease σ))
    (hx : Yields x { s with context := s.context.push v leases } ws r t) :
    Yields (Exec.withScope v leases x) s ws r (pop t) := by
  have left := hx.ensuring aside_pop
  exact ⟨left.taken, left.refused⟩

theorem nested_of_full {limit : Nat} {name : String} (full : limit ≤ s.context.openings name)
    (x : Exec σ α) :
    Yields (Exec.nested limit name x) s [] (.error (.failed (.nestingLimit name limit))) s := by
  refine ⟨fun sink _ => ?_, fun sink refused => by cases refused⟩
  exact Exec.nested_of_full (s := { s with sink }) full x

theorem nested_of_room {limit : Nat} {name : String} (room : ¬ limit ≤ s.context.openings name)
    (hx : Yields x { s with context := s.context.entered name } ws r t) :
    Yields (Exec.nested limit name x) s ws r (leave name t) := by
  have left := hx.ensuring (aside_leave name)
  have apply (sink : Sink) := Exec.nested_of_room (s := { s with sink }) room x
  exact ⟨fun sink taken => (apply sink).trans (left.taken sink taken),
    fun sink refused => by rw [apply sink]; exact left.refused sink refused⟩

end Yields

def Writes (few : List String → Prop) (x : Exec σ α) : Prop :=
  ∀ s, ∃ ws r t, Yields x s ws r t ∧ few ws

theorem Quiet.writes {few : List String → Prop} {x : Exec σ α} (h : Quiet x) (none : few []) :
    Writes few x :=
  fun s => ⟨[], (x s).1, (x s).2, h.yields s, none⟩

namespace Writes

variable {few : List String → Prop} {x : Exec σ α}

theorem write {text : String} (fits : few [text]) : Writes few (Exec.write text : Exec σ Unit) :=
  fun s => ⟨[text], .ok (), s, .write text s, fits⟩

/-- What comes after an execution that does not write has all the writes to itself. -/
theorem after_quiet {f : α → Exec σ β} (hx : Quiet x) (none : few [])
    (hf : ∀ a, Writes few (f a)) : Writes few (x >>= f) := by
  intro s
  have first := hx.yields s
  rcases ended : (x s).1 with halt | a
  · rw [ended] at first
    exact ⟨[], _, _, first.bind_error, none⟩
  · rw [ended] at first
    obtain ⟨ws, r, t, rest, fits⟩ := hf a (x s).2
    exact ⟨ws, r, t, first.bind rest, fits⟩

theorem bind {f : α → Exec σ β} (hx : Writes (fun _ => True) x)
    (hf : ∀ a, Writes (fun _ => True) (f a)) : Writes (fun _ => True) (x >>= f) := by
  intro s
  obtain ⟨ws, r, t, first, _⟩ := hx s
  cases r with
  | error halt => exact ⟨ws, _, t, first.bind_error, trivial⟩
  | ok a =>
    obtain ⟨ws', r, u, rest, _⟩ := hf a t
    exact ⟨ws ++ ws', r, u, first.bind rest, trivial⟩

theorem ensuring {after : Render.State σ → Render.State σ} (aside : Aside after)
    (hx : Writes few x) : Writes few (Attempt.ensuring x after) := by
  intro s
  obtain ⟨ws, r, t, yields, fits⟩ := hx s
  exact ⟨ws, r, after t, yields.ensuring aside, fits⟩

theorem withScope (v : Value) (leases : List (Lease σ)) (hx : Writes few x) :
    Writes few (Exec.withScope v leases x) := by
  intro s
  obtain ⟨ws, r, t, yields, fits⟩ := hx { s with context := s.context.push v leases }
  exact ⟨ws, r, pop t, yields.withScope v leases, fits⟩

theorem nested (none : few []) (limit : Nat) (name : String) (hx : Writes few x) :
    Writes few (Exec.nested limit name x) := by
  intro s
  by_cases full : limit ≤ s.context.openings name
  · exact ⟨[], _, s, .nested_of_full full x, none⟩
  · obtain ⟨ws, r, t, yields, fits⟩ := hx { s with context := s.context.entered name }
    exact ⟨ws, r, leave name t, yields.nested_of_room full, fits⟩

theorem consumed {found found' : Found σ} {y y' : Exec σ α}
    (h : Consumes (fun x _ => Writes few x) found found' y y') : Writes few y := by
  cases h with
  | release hx => exact hx.ensuring (aside_release found)
  | scope _ hx => exact hx.withScope _ _

end Writes

end Exec

/-! ### Value tags -/

namespace Engine

variable (e : Engine σ)

/-- What the tag writes for a value may read so. -/
def Shows (tag : ValueTag) (shown : String) : Prop :=
  (tag.unescaped || e.config.skipEscaping) = true ∨ ∃ text, e.support text = .ok shown

def ShowsOnce (tag : ValueTag) (ws : List String) : Prop :=
  ws = [] ∨ ∃ shown, ws = [shown] ∧ e.Shows tag shown

theorem writeValue_once (tag : ValueTag) (text : String) :
    (e.writeValue tag text).Writes (e.ShowsOnce tag) := by
  unfold writeValue
  by_cases raw : (tag.unescaped || e.config.skipEscaping) = true
  · rw [if_pos raw]
    exact .write (Or.inr ⟨text, rfl, Or.inl raw⟩)
  · rw [if_neg raw]
    intro s
    cases escaped : e.support text with
    | error err => exact ⟨[], _, s, (Exec.Quiet.fail (.failed err)).yields s, Or.inl rfl⟩
    | ok shown =>
      exact ⟨[shown], _, s, .write shown s, Or.inr ⟨shown, rfl, Or.inr ⟨text, escaped⟩⟩⟩

variable (inner : Template → Exec σ Unit) (tag : ValueTag) {missing : Exec σ Unit}

theorem writeLambda_once (hmissing : missing.Writes (e.ShowsOnce tag)) (l : Lambda) :
    (e.writeLambda inner tag missing l).Writes (e.ShowsOnce tag) := by
  refine .after_quiet (.invoke l tag.text none) (Or.inl rfl) fun output => ?_
  cases output with
  | none => exact hmissing
  | some output =>
    simp only
    split
    · exact (Exec.Quiet.pure ()).writes (Or.inl rfl)
    · split
      · exact .after_quiet (.captured _) (Or.inl rfl) fun text => e.writeValue_once tag text
      · exact e.writeValue_once tag output

theorem writeFound_once (hmissing : missing.Writes (e.ShowsOnce tag)) (v : Value) :
    (e.writeFound inner tag missing v).Writes (e.ShowsOnce tag) := by
  cases v with
  | lambda l => exact e.writeLambda_once inner tag hmissing l
  | _ => exact e.writeValue_once tag _

theorem writeMissing_once : (e.writeMissing inner tag).Writes (e.ShowsOnce tag) := by
  refine .after_quiet (.ofExcept _) (Or.inl rfl) fun answer => ?_
  have nothing : (pure () : Exec σ Unit).Writes (e.ShowsOnce tag) :=
    (Exec.Quiet.pure ()).writes (Or.inl rfl)
  cases answer with
  | none => exact nothing
  | some v =>
    simp only
    split
    · exact nothing
    · exact e.writeFound_once inner tag ((Exec.Quiet.fail .endless).writes (Or.inl rfl)) v

theorem runValue_once (instanceId : Nat) :
    (e.runValue inner instanceId tag).Writes (e.ShowsOnce tag) := by
  refine .after_quiet (.findHere e _ _) (Or.inl rfl) fun found => ?_
  refine .ensuring (Exec.aside_release found) ?_
  cases found.value with
  | none => exact e.writeMissing_once inner tag
  | some v =>
    simp only
    split
    · exact e.writeMissing_once inner tag
    · refine .after_quiet (.update (Exec.aside_learnHint _ _)) (Or.inl rfl) fun _ => ?_
      exact e.writeFound_once inner tag (e.writeMissing_once inner tag) v

/-! ### Renders -/

def writing : Likeness σ where
  rel x _ := x.Writes fun _ => True
  asked _ _ _ := True
  same _ found found' := found = found'
  fit _ := True

theorem writing_kept : Pairing (writing (σ := σ)) e e where
  missing := rfl
  support := rfl
  skipEscaping := rfl
  same_value same := congrArg Found.value same.symm
  same_fit _ _ := trivial
  fit_item _ _ := trivial
  pure a := (Exec.Quiet.pure a).writes trivial
  bind := Exec.Writes.bind
  fail _ := (Exec.Quiet.fail _).writes trivial
  endless _ := (Exec.Quiet.fail _).writes trivial
  write _ := Exec.Writes.write trivial
  captured _ := (Exec.Quiet.captured _).writes trivial
  item _ hx := hx.withScope _ _
  lookup _ consumed := by
    refine .after_quiet (.findHere e _ _) trivial fun found => ?_
    exact .consumed (consumed found found rfl)
  learn _ _ := (Exec.Quiet.update (Exec.aside_learnHint _ _)).writes trivial

theorem nestedIn_writes (depth : Nat) (t : Template) :
    (e.nestedIn depth t).Writes fun _ => True := by
  induction depth generalizing t with
  | zero => exact (Exec.Quiet.fail .endless).writes trivial
  | succ depth ih =>
    have nests : Pairing.Nests writing e e (e.nestedIn depth) (e.nestedIn depth) := by
      constructor
      · exact fun _ => trivial
      · intro origin tag source
        refine .after_quiet (.onStore _) trivial fun t => ?_
        exact (ih t).nested trivial _ _
      · intro name origin
        refine .after_quiet (.onStore _) trivial fun found => ?_
        cases found with
        | none => exact (Exec.Quiet.fail _).writes trivial
        | some t => exact (ih t).nested trivial _ _
    rw [nestedIn]
    exact e.writing_kept.runAll nests t.instanceId t.instanceId t.segments fun _ _ => trivial

theorem execute_yields (t : Template) (s : Render.State σ) :
    ∃ ws r u, (e.execute t).Yields s ws r u := by
  obtain ⟨ws, r, u, yields, _⟩ :=
    (e.nestedIn_writes (e.depthBound t.name s.store) t).nested trivial e.config.nestingLimit t.name s
  refine ⟨ws, r, u, fun sink taken => ?_, fun sink refused => ?_⟩ <;> rw [execute_apply]
  · exact yields.taken sink taken
  · exact yields.refused sink refused

theorem renderTo_yields (t : Template) (data : Value) (store : Store σ) :
    ∃ ws r store', ∀ sink : Sink,
      ((sink.writeAll ws).2 = true →
        e.renderTo t data sink store = (r, (sink.writeAll ws).1, store')) ∧
      ((sink.writeAll ws).2 = false →
        (e.renderTo t data sink store).1 = .error (.failed .output) ∧
          (e.renderTo t data sink store).2.1 = (sink.writeAll ws).1) := by
  unfold renderTo
  by_cases isOpen : store.isOpen = true
  · simp only [isOpen, if_true]
    obtain ⟨ws, r, u, yields⟩ :=
      e.execute_yields t ⟨store, startContext data, Sink.empty none⟩
    refine ⟨ws, r, u.context.close u.store, fun sink => ⟨fun taken => ?_, fun refused => ?_⟩⟩
    · have ran : e.execute t ⟨store, startContext data, sink⟩ = _ := yields.taken sink taken
      rw [ran]
    · exact yields.refused sink refused
  · simp only [isOpen, if_false, Bool.false_eq_true]
    refine ⟨[], _, store, fun sink => ⟨fun _ => rfl, fun refused => ?_⟩⟩
    cases refused

/-- Of what a value tag writes, a sink holds all or nothing. -/
theorem run_value_whole (depth instanceId : Nat) (tag : ValueTag) (s : Render.State σ) :
    ∃ ws : List String, ws.length ≤ 1 ∧ ∀ sink : Sink,
      let held := (e.run (e.nestedIn depth) instanceId (.value tag) { s with sink }).2.sink
      (sink.limit = none → held.writes = ws ++ sink.writes) ∧
        (held.writes = ws ++ sink.writes ∨ held.writes = sink.writes) := by
  obtain ⟨ws, r, t, yields, once⟩ := e.runValue_once (e.nestedIn depth) tag instanceId s
  rcases once with rfl | ⟨shown, rfl, _⟩
  · refine ⟨[], Nat.zero_le 1, fun sink => ?_⟩
    have ran := yields.taken sink rfl
    simp only [run, ran]
    exact ⟨fun _ => rfl, Or.inl rfl⟩
  · refine ⟨[shown], Nat.le_refl 1, fun sink => ?_⟩
    simp only [run]
    cases written : sink.write? shown with
    | some sink' =>
      have all : sink.writeAll [shown] = (sink', true) := by simp only [Sink.writeAll, written]
      have ran := yields.taken sink (by rw [all])
      rw [ran, all, Sink.write?_some written]
      exact ⟨fun _ => rfl, Or.inl rfl⟩
    | none =>
      have nothing : sink.writeAll [shown] = (sink, false) := by simp only [Sink.writeAll, written]
      have held := (yields.refused sink (by rw [nothing])).2
      rw [held, nothing]
      refine ⟨fun unlimited => ?_, Or.inr rfl⟩
      simp [Sink.write?, Sink.accepts, unlimited] at written

/-- A bounded sink holds what an unlimited one would, up to the first write that would pass the
limit. If there is one, the render fails with that, and else it ends in the same way. Of a value tag,
a sink holds all or nothing. -/
theorem renderTo_within (t : Template) (data : Value) (limit : Nat) (store : Store σ) :
    let full := e.renderTo t data (Sink.empty none) store
    let cut := e.renderTo t data (Sink.empty (some limit)) store
    (full.2.1.byteSize ≤ limit → cut.1 = full.1 ∧ cut.2.1.writes = full.2.1.writes) ∧
      (limit < full.2.1.byteSize → cut.1 = .error (.failed .output) ∧
        ∃ before w after, full.2.1.writes.reverse = before ++ w :: after ∧
          cut.2.1.writes.reverse = before ∧ Sink.bytes before ≤ limit ∧
          limit < Sink.bytes (before ++ [w])) ∧
      cut.2.1.writes <:+ full.2.1.writes ∧
      ∀ depth instanceId tag, ∀ s : Render.State σ, ∃ ws : List String, ws.length ≤ 1 ∧
        ∀ sink : Sink,
          let held := (e.run (e.nestedIn depth) instanceId (.value tag) { s with sink }).2.sink
          (sink.limit = none → held.writes = ws ++ sink.writes) ∧
            (held.writes = ws ++ sink.writes ∨ held.writes = sink.writes) := by
  intro full cut
  obtain ⟨ws, r, store', yields⟩ := e.renderTo_yields t data store
  have unlimited : (Sink.empty none).writeAll ws = (⟨none, ws.reverse ++ []⟩, true) :=
    Sink.writeAll_unlimited rfl ws
  have all : full = (r, ⟨none, ws.reverse⟩, store') := by
    have ran := (yields (Sink.empty none)).1 (by rw [unlimited])
    rw [unlimited, List.append_nil] at ran
    exact ran
  have size : full.2.1.byteSize = Sink.bytes ws := by
    rw [all, Sink.byteSize_eq, Sink.bytes_reverse]
  have empty : (Sink.empty (some limit)).byteSize = 0 := rfl
  rw [size]
  rcases Sink.writeAll_limited (.empty (some limit)) rfl (Nat.zero_le limit) ws with
    ⟨fits, taken⟩ | ⟨before, w, after, split, fits, passes, taken⟩
  · have same : cut = (r, ⟨some limit, ws.reverse ++ []⟩, store') := by
      have ran := (yields (Sink.empty (some limit))).1 (by rw [taken])
      rw [taken] at ran
      exact ran
    rw [empty, Nat.zero_add] at fits
    rw [all, same, List.append_nil]
    refine ⟨fun _ => ⟨rfl, rfl⟩, fun beyond => ?_, List.suffix_refl _, e.run_value_whole⟩
    omega
  · have refused := (yields (Sink.empty (some limit))).2 (by rw [taken])
    rw [taken] at refused
    obtain ⟨output, held⟩ := refused
    have writes : cut.2.1.writes = before.reverse := by
      rw [show cut.2.1 = _ from held]
      exact List.append_nil _
    rw [empty, Nat.zero_add] at fits passes
    have beyond : limit < Sink.bytes ws := by
      rw [split, Sink.bytes_append]
      rw [Sink.bytes_append] at passes
      simp only [Sink.bytes] at passes ⊢
      omega
    rw [writes, all]
    refine ⟨fun within => ?_, fun _ => ⟨output, before, w, after, ?_, ?_, fits, passes⟩, ?_,
      e.run_value_whole⟩
    · omega
    · exact (List.reverse_reverse ws).trans split
    · exact List.reverse_reverse before
    · rw [split, List.reverse_append]
      exact List.suffix_append _ _

end Engine

end Logicless
