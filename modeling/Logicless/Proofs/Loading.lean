import Logicless.Proofs.Fetch
import Logicless.Render

/-!
# Loading templates

What the locators say of a name, and what becomes of the source, depends on no state. Loading adds
to the record of consultations and takes the number of the next template.
-/

namespace Logicless

/-! ### Locators -/

namespace Locator

def answerIn (name : String) : List (Nat × Locator) → Except Error (Option String)
  | [] => .ok none
  | (_, l) :: rest =>
    match l.answer name with
    | .ok none => answerIn name rest
    | answer => answer

def askedIn (name : String) : List (Nat × Locator) → List Consultation
  | [] => []
  | (number, l) :: rest =>
    match l.answer name with
    | .ok none => askedIn name rest ++ [⟨number, name⟩]
    | _ => [⟨number, name⟩]

theorem answerIn_known {name source : String} {locators : List (Nat × Locator)}
    (h : answerIn name locators = .ok (some source)) :
    ∃ l ∈ locators.map (·.2), l.answer name = .ok (some source) := by
  induction locators with
  | nil => cases h
  | cons first rest ih =>
    obtain ⟨number, l⟩ := first
    unfold answerIn at h
    split at h
    · obtain ⟨l', member, answer⟩ := ih h
      exact ⟨l', List.mem_cons_of_mem _ member, answer⟩
    · exact ⟨l, List.mem_cons_self, h⟩

end Locator

namespace Store

variable {σ : Type}

def consult (name : String) (store : Store σ) : Store σ :=
  { store with consultations := Locator.askedIn name store.locators ++ store.consultations }

/-- What loading a template changes is the caches of templates, the host, and two records. -/
structure Carried (s t : Store σ) : Prop where
  isOpen : t.isOpen = s.isOpen
  locators : t.locators = s.locators
  members : t.members = s.members
  hints : t.hints = s.hints
  leases : t.leases = s.leases
  leaseLog : t.leaseLog = s.leaseLog

theorem Carried.trans {s t u : Store σ} (h : s.Carried t) (h' : t.Carried u) : s.Carried u :=
  ⟨h'.isOpen.trans h.isOpen, h'.locators.trans h.locators, h'.members.trans h.members,
    h'.hints.trans h.hints, h'.leases.trans h.leases, h'.leaseLog.trans h.leaseLog⟩

theorem carried_host (s : Store σ) (host : σ) : s.Carried { s with host } :=
  ⟨rfl, rfl, rfl, rfl, rfl, rfl⟩

def Holds (P : String → Template → Prop) (store : Store σ) : Prop :=
  ∀ shelf, store.templates = some shelf → ∀ entry ∈ shelf.cache.entries,
    ∀ t, entry.value = .own (some t) → P entry.key t

end Store

namespace Engine

variable {σ : Type} (e : Engine σ)

theorem locateIn_apply (name : String) (locators : List (Nat × Locator)) (store : Store σ) :
    locateIn name locators store = (Locator.answerIn name locators,
      { store with consultations := Locator.askedIn name locators ++ store.consultations }) := by
  induction locators generalizing store with
  | nil => rfl
  | cons first rest ih =>
    obtain ⟨number, l⟩ := first
    unfold locateIn Locator.answerIn Locator.askedIn
    simp only [Attempt.update, Attempt.ofExcept, Attempt.bind_apply]
    cases l.answer name with
    | error err => rfl
    | ok source =>
      cases source with
      | none =>
        simp only [ih, List.append_assoc]
        rfl
      | some source => rfl

theorem locate_apply (name : String) (store : Store σ) :
    locate name store = (Locator.answerIn name store.locators, store.consult name) :=
  locateIn_apply name store.locators store

/-! ### Compilation -/

theorem compile_of_ok {name source : String} {segments : List Segment}
    (tree : Tree.ofSource name source e.split = .ok segments) (store : Store σ) :
    e.compile name source store =
      (.ok ⟨store.compiled, name, segments⟩, { store with compiled := store.compiled + 1 }) := by
  simp only [compile, Template.ofSource, tree]

theorem compile_of_fault {name source : String} {fault : SourceFault}
    (tree : Tree.ofSource name source e.split = .error fault) (store : Store σ) :
    e.compile name source store = (.error (.ofSourceFault name fault), store) := by
  simp only [compile, Template.ofSource, tree]

theorem compileOneOff_of_ok {origin : Origin} {source : String} {store : Store σ}
    {segments : List Segment}
    (tree : Tree.ofSource (oneOffName origin store.oneOffs) source e.split = .ok segments)
    (tag : String) : e.compileOneOff origin tag source store =
      (.ok ⟨store.compiled, oneOffName origin store.oneOffs, segments⟩,
        { store with oneOffs := store.oneOffs + 1, compiled := store.compiled + 1 }) := by
  simp only [compileOneOff, Attempt.state, Attempt.bind_apply, e.compile_of_ok tree]
  rfl

theorem compileOneOff_of_fault {origin : Origin} {source : String} {store : Store σ}
    {fault : SourceFault}
    (tree : Tree.ofSource (oneOffName origin store.oneOffs) source e.split = .error fault)
    (tag : String) : e.compileOneOff origin tag source store =
      (.error (.lambda tag (Error.ofSourceFault (oneOffName origin store.oneOffs) fault).message),
        { store with oneOffs := store.oneOffs + 1 }) := by
  simp only [compileOneOff, Attempt.state, Attempt.bind_apply, e.compile_of_fault tree]
  rfl

/-- Whether it succeeds or not, compiling the output of a lambda counts, and changes little else. -/
theorem compileOneOff_carried (origin : Origin) (tag source : String) (store : Store σ) :
    store.Carried (e.compileOneOff origin tag source store).2 ∧
      (e.compileOneOff origin tag source store).2.templates = store.templates ∧
      (e.compileOneOff origin tag source store).2.consultations = store.consultations ∧
      ∀ err, (e.compileOneOff origin tag source store).1 = .error err →
        ∃ reason, err = .lambda tag reason := by
  cases tree : Tree.ofSource (oneOffName origin store.oneOffs) source e.split with
  | ok segments =>
    rw [e.compileOneOff_of_ok tree]
    exact ⟨⟨rfl, rfl, rfl, rfl, rfl, rfl⟩, rfl, rfl, fun _ fails => by cases fails⟩
  | error fault =>
    rw [e.compileOneOff_of_fault tree]
    refine ⟨⟨rfl, rfl, rfl, rfl, rfl, rfl⟩, rfl, rfl, ?_⟩
    rintro err ⟨⟩
    exact ⟨_, rfl⟩

/-! ### Loading -/

/-- The segments of the template of a name, as far as locators and compiler know it. -/
def content (split : KeySplitter) (locators : List (Nat × Locator)) (name : String) :
    Except Error (Option (List Segment)) :=
  match Locator.answerIn name locators with
  | .error err => .error err
  | .ok none => .ok none
  | .ok (some source) =>
    match Tree.ofSource name source split with
    | .ok segments => .ok (some segments)
    | .error fault => .error (.ofSourceFault name fault)

theorem ofSource_of_content {split : KeySplitter} {locators : List (Nat × Locator)} {name source : String}
    {segments : List Segment} (answer : Locator.answerIn name locators = .ok (some source))
    (h : content split locators name = .ok (some segments)) :
    Tree.ofSource name source split = .ok segments := by
  simp only [content, answer] at h
  split at h
  · next tree =>
    cases h
    exact tree
  · cases h

theorem load_of_error {name : String} {store : Store σ} {err : Error}
    (h : content e.split store.locators name = .error err) :
    e.load name store = (.error err, store.consult name) := by
  unfold content at h
  simp only [load, Attempt.bind_apply, locate_apply]
  split at h
  · next answer =>
    cases h
    rw [answer]
  · cases h
  · next source answer =>
    split at h
    · cases h
    · next fault tree =>
      cases h
      simp only [answer, Attempt.bind_apply, e.compile_of_fault tree]

theorem load_of_none {name : String} {store : Store σ}
    (h : content e.split store.locators name = .ok none) :
    e.load name store = (.ok none, store.consult name) := by
  unfold content at h
  simp only [load, Attempt.bind_apply, locate_apply]
  split at h
  · cases h
  · next answer =>
    rw [answer]
    rfl
  · split at h <;> cases h

theorem load_of_some {name : String} {store : Store σ} {segments : List Segment}
    (h : content e.split store.locators name = .ok (some segments)) :
    e.load name store = (.ok (some ⟨store.compiled, name, segments⟩),
      { store.consult name with compiled := store.compiled + 1 }) := by
  unfold content at h
  simp only [load, Attempt.bind_apply, locate_apply]
  split at h
  · cases h
  · cases h
  · next source answer =>
    split at h
    · next segments' tree =>
      cases h
      simp only [answer, Attempt.bind_apply, e.compile_of_ok tree]
      rfl
    · cases h

theorem load_carried (name : String) (store : Store σ) :
    store.Carried (e.load name store).2 ∧ (e.load name store).2.templates = store.templates ∧
      (e.load name store).2.oneOffs = store.oneOffs := by
  cases h : content e.split store.locators name with
  | error err =>
    rw [e.load_of_error h]
    exact ⟨⟨rfl, rfl, rfl, rfl, rfl, rfl⟩, rfl, rfl⟩
  | ok found =>
    cases found with
    | none =>
      rw [e.load_of_none h]
      exact ⟨⟨rfl, rfl, rfl, rfl, rfl, rfl⟩, rfl, rfl⟩
    | some segments =>
      rw [e.load_of_some h]
      exact ⟨⟨rfl, rfl, rfl, rfl, rfl, rfl⟩, rfl, rfl⟩

theorem getTemplate_of_none {store : Store σ} (off : store.templates = none) (name : String) :
    e.getTemplate name store = e.load name store := by
  simp only [getTemplate, Attempt.state, Attempt.bind_apply, off]

theorem getTemplate_of_some {store : Store σ} {shelf : Shelf σ String (Option Template)}
    (on : store.templates = some shelf) (name : String) :
    e.getTemplate name store = Store.fetch shelf Store.putTemplates e.load name store := by
  simp only [getTemplate, Attempt.state, Attempt.bind_apply, on]

/-- How a request for a template ends: it is loaded, perhaps for the cache, or the cache answers. -/
inductive Gets (name : String) (store : Store σ) : Except Error (Option Template) × Store σ → Prop where
  | loaded (r : Except Error (Option Template)) (store' : Store σ) (off : store.templates = none)
      (ran : e.load name store = (r, store')) : Gets name store (r, store')
  | stored (r : Except Error (Option Template)) (shelf shelf' : Shelf σ String (Option Template))
      (before after : σ) (store' : Store σ) (on : store.templates = some shelf)
      (ran : e.load name { store with host := before } = (r, store'))
      (updated : shelf.Updated shelf' fun e => e.key = name ∧ ∃ v, r = .ok v ∧ e.value = .own v) :
      Gets name store (r, Store.putTemplates shelf' { store' with host := after })
  | answered (r : Except Error (Option Template)) (shelf shelf' : Shelf σ String (Option Template))
      (host : σ) (on : store.templates = some shelf) (answers : shelf.Answers name r)
      (updated : shelf.Updated shelf' fun e => shelf.foreign = true ∧ e.value = .foreign) :
      Gets name store (r, Store.putTemplates shelf' { store with host })

theorem gets (name : String) (store : Store σ) : e.Gets name store (e.getTemplate name store) := by
  cases templates : store.templates with
  | none =>
    rw [e.getTemplate_of_none templates]
    exact .loaded _ _ templates rfl
  | some shelf =>
    rw [e.getTemplate_of_some templates]
    have fetched := shelf.fetched Store.putTemplates e.load name store
    generalize Store.fetch shelf Store.putTemplates e.load name store = out at fetched
    cases fetched with
    | answered r shelf' host answers updated =>
      exact .answered r shelf shelf' host templates answers updated
    | loaded r shelf' before after store' ran updated =>
      exact .stored r shelf shelf' before after store' templates ran updated

theorem getTemplate_carried (name : String) (store : Store σ) :
    store.Carried (e.getTemplate name store).2 ∧
      (e.getTemplate name store).2.oneOffs = store.oneOffs := by
  have gets := e.gets name store
  generalize e.getTemplate name store = out at gets ⊢
  cases gets with
  | loaded r store' _ ran =>
    obtain ⟨carried, _, oneOffs⟩ := e.load_carried name store
    rw [ran] at carried oneOffs
    exact ⟨carried, oneOffs⟩
  | stored r _ shelf' before after store' _ ran _ =>
    obtain ⟨carried, _, oneOffs⟩ := e.load_carried name { store with host := before }
    rw [ran] at carried oneOffs
    have put : store'.Carried (Store.putTemplates shelf' { store' with host := after }) :=
      ⟨rfl, rfl, rfl, rfl, rfl, rfl⟩
    exact ⟨((store.carried_host before).trans carried).trans put, oneOffs⟩
  | answered r _ shelf' host _ _ _ => exact ⟨⟨rfl, rfl, rfl, rfl, rfl, rfl⟩, rfl⟩

/-- What holds of the templates that the locators give and of those that the cache holds, holds of
those that it holds after a request, and of the one that is given. -/
theorem getTemplate_holds {P : String → Template → Prop} {name : String} {store : Store σ}
    (holds : store.Holds P)
    (loads : ∀ id segments, content e.split store.locators name = .ok (some segments) →
      P name ⟨id, name, segments⟩) :
    (e.getTemplate name store).2.Holds P ∧
      ∀ t, (e.getTemplate name store).1 = .ok (some t) → P name t := by
  have loaded {store' store'' : Store σ} {t : Template}
      (ran : e.load name store' = (.ok (some t), store''))
      (locators : store'.locators = store.locators) : P name t := by
    cases given : content e.split store'.locators name with
    | error err =>
      rw [e.load_of_error given] at ran
      cases ran
    | ok found =>
      cases found with
      | none =>
        rw [e.load_of_none given] at ran
        cases ran
      | some segments =>
        rw [e.load_of_some given] at ran
        cases ran
        exact loads _ _ (locators ▸ given)
  have gets := e.gets name store
  generalize e.getTemplate name store = out at gets ⊢
  cases gets with
  | loaded r store' off ran =>
    refine ⟨fun shelf on => ?_, fun t got => ?_⟩
    · have templates := (e.load_carried name store).2.1
      rw [ran, off] at templates
      rw [templates] at on
      cases on
    · have got : r = .ok (some t) := got
      rw [got] at ran
      exact loaded ran rfl
  | stored r shelf shelf' before after store' on ran updated =>
    refine ⟨?_, fun t got => ?_⟩
    · rintro _ ⟨⟩ entry member t value
      rcases updated.entries entry member with old | ⟨same, v, got, own⟩
      · exact holds shelf on entry old t value
      · rw [value] at own
        cases own
        rw [same]
        rw [got] at ran
        exact loaded ran rfl
    · have got : r = .ok (some t) := got
      rw [got] at ran
      exact loaded ran rfl
  | answered r shelf shelf' host on answers updated =>
    refine ⟨?_, fun t got => ?_⟩
    · rintro _ ⟨⟩ entry member t value
      rcases updated.entries entry member with old | ⟨_, foreign⟩
      · exact holds shelf on entry old t value
      · rw [foreign] at value
        cases value
    · have got : r = .ok (some t) := got
      rw [got] at answers
      cases answers with
      | held entry _ member same value => exact same ▸ holds shelf on entry member t value

end Engine

end Logicless
