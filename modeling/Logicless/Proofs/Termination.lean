import Logicless.Engine.Build
import Logicless.Proofs.Loading
import Logicless.Proofs.Lookup
import Logicless.Proofs.Pairing
import Logicless.Proofs.Step

/-!
# The end of a render

Templates nest within one another up to a depth that the limit and the names of templates bound. Two
renderers that allow for this depth agree, so what remains without end is the handler of missing
values alone (`Engine.ends_iff`).
-/

namespace Logicless

/-- In a list over `names` that repeats no element more than `limit` times. -/
theorem length_le_of_count_le {K : Type} [BEq K] [LawfulBEq K] [DecidableEq K] {names l : List K}
    {limit : Nat} (within : ∀ a ∈ l, a ∈ names) (few : ∀ a, l.count a ≤ limit) :
    l.length ≤ limit * names.length := by
  induction names generalizing l with
  | nil =>
    have empty : l = [] := by
      rw [List.eq_nil_iff_forall_not_mem]
      intro a member
      cases within a member
    rw [empty]
    exact Nat.zero_le _
  | cons name rest ih =>
    -- The occurrences of the first name are set apart from the others.
    have others : (l.filter fun a => ¬ a = name).length ≤ limit * rest.length := by
      apply ih
      · intro a member
        obtain ⟨member, other⟩ := List.mem_filter.mp member
        rcases List.mem_cons.mp (within a member) with same | member
        · exact absurd same (of_decide_eq_true other)
        · exact member
      · intro a
        exact Nat.le_trans (List.filter_sublist.count_le a) (few a)
    have split := List.length_eq_countP_add_countP (fun a => a == name) (l := l)
    have first : l.countP (fun a => a == name) ≤ limit := few name
    rw [List.countP_eq_length_filter (p := fun a => ¬ (a == name) = true)] at split
    simp only [beq_iff_eq] at split others first
    rw [List.length_cons, Nat.mul_succ]
    omega

def Openings.names (t : Openings) : List String :=
  t.entries.flatMap fun (name, k) => List.replicate k name

theorem Openings.names_enter (name : String) (t : Openings) :
    (t.enter name).names.Perm (name :: t.names) := by
  obtain ⟨entries, sound⟩ := t
  simp only [enter, names]
  clear sound
  induction entries with
  | nil => exact .refl _
  | cons entry rest ih =>
    obtain ⟨n, k⟩ := entry
    rw [raise]
    split
    · next same =>
      subst same
      rw [List.flatMap_cons, List.flatMap_cons, List.replicate_succ, List.cons_append]
    · rw [List.flatMap_cons, List.flatMap_cons]
      exact (ih.append_left _).trans List.perm_middle

theorem Openings.count_names (name : String) (t : Openings) : t.names.count name = t.count name := by
  obtain ⟨entries, once, positive⟩ := t
  simp only [count, names]
  clear positive
  induction entries with
  | nil => rfl
  | cons entry rest ih =>
    obtain ⟨absent, once⟩ := List.nodup_cons.mp once
    rw [List.flatMap_cons, List.count_append, ih once, List.count_replicate]
    obtain ⟨n, k⟩ := entry
    by_cases same : name = n
    · subst same
      have none : rest.lookup name = none := by
        rw [List.lookup_eq_none_iff]
        exact fun entry member => bne_iff_ne.mpr fun same =>
          absent (List.mem_map.mpr ⟨entry, member, same.symm⟩)
      simp [none]
    · simp [List.lookup_cons, beq_false_of_ne same, beq_false_of_ne (Ne.symm same)]

namespace Engine

variable {σ α β : Type}

theorem templateNames_congr {s t : Store σ} (locators : t.locators = s.locators)
    (templates : t.templates = s.templates) : templateNames t = templateNames s := by
  simp only [templateNames, locators, templates]

theorem mem_templateNames_known {store : Store σ} {l : Locator} {name : String}
    (member : l ∈ store.locators.map (·.2)) (known : name ∈ l.known) :
    name ∈ templateNames store := by
  obtain ⟨numbered, within, rfl⟩ := List.mem_map.mp member
  exact List.mem_append_left _ (List.mem_flatMap.mpr ⟨numbered, within, known⟩)

theorem mem_templateNames_cached {store : Store σ} {shelf : Shelf σ String (Option Template)}
    (on : store.templates = some shelf) {entry : Entry String (Held (Option Template))}
    (member : entry ∈ shelf.cache.entries) {t : Template} (value : entry.value = .own (some t)) :
    t.name ∈ templateNames store := by
  refine List.mem_append_right _ ?_
  simp only [on]
  refine List.mem_filterMap.mpr ⟨entry, member, ?_⟩
  rw [value]

/-- The names of templates come from locators and from the cache. -/
theorem templateNames_within {store : Store σ} {names : List String}
    (known : ∀ l ∈ store.locators.map (·.2), ∀ name ∈ l.known, name ∈ names)
    (cached : ∀ shelf, store.templates = some shelf → ∀ entry ∈ shelf.cache.entries,
      ∀ t, entry.value = .own (some t) → t.name ∈ names) :
    ∀ name ∈ templateNames store, name ∈ names := by
  intro name member
  rcases List.mem_append.mp member with member | member
  · obtain ⟨numbered, within, member⟩ := List.mem_flatMap.mp member
    exact known numbered.2 (List.mem_map.mpr ⟨numbered, within, rfl⟩) name member
  · cases templates : store.templates with
    | none =>
      simp only [templates] at member
      cases member
    | some shelf =>
      simp only [templates] at member
      obtain ⟨entry, within, given⟩ := List.mem_filterMap.mp member
      split at given
      · next t value =>
        cases given
        exact cached shelf templates entry within t value
      · cases given

variable (e : Engine σ) {names : List String}

theorem load_named {name : String} {store store' : Store σ} {t : Template}
    (known : ∀ name ∈ templateNames store, name ∈ names)
    (ran : e.load name store = (.ok (some t), store')) : t.name ∈ names := by
  cases h : content e.split store.locators name with
  | error err =>
    rw [e.load_of_error h] at ran
    cases ran
  | ok found =>
    cases found with
    | none =>
      rw [e.load_of_none h] at ran
      cases ran
    | some segments =>
      rw [e.load_of_some h] at ran
      cases ran
      unfold content at h
      split at h
      · cases h
      · cases h
      · next source answer =>
        obtain ⟨l, member, answer⟩ := Locator.answerIn_known answer
        exact known name (mem_templateNames_known member (l.complete name source answer))

/-- Requests for templates bring no new names up. -/
theorem getTemplate_named (name : String) {store : Store σ}
    (known : ∀ name ∈ templateNames store, name ∈ names) :
    (∀ known ∈ templateNames (e.getTemplate name store).2, known ∈ names) ∧
      ∀ t, (e.getTemplate name store).1 = .ok (some t) → t.name ∈ names := by
  have gets := e.gets name store
  have located (l : Locator) (member : l ∈ store.locators.map (·.2)) (name : String)
      (h : name ∈ l.known) : name ∈ names := known name (mem_templateNames_known member h)
  generalize e.getTemplate name store = out at gets ⊢
  cases gets with
  | loaded r store' off ran =>
    obtain ⟨carried, templates, _⟩ := e.load_carried name store
    rw [ran] at carried templates
    refine ⟨?_, ?_⟩
    · rw [templateNames_congr carried.locators templates]
      exact known
    · rintro t rfl
      exact e.load_named known ran
  | stored r shelf shelf' before after store' on ran updated =>
    obtain ⟨carried, templates, _⟩ := e.load_carried name { store with host := before }
    rw [ran] at carried templates
    have found (t : Template) (ok : r = .ok (some t)) : t.name ∈ names := by
      subst ok
      have before_known : ∀ name ∈ templateNames { store with host := before }, name ∈ names := known
      exact e.load_named before_known ran
    refine ⟨templateNames_within ?_ ?_, found⟩
    · intro l member
      rw [show (Store.putTemplates shelf' { store' with host := after }).locators = store.locators
        from carried.locators] at member
      exact located l member
    · rintro _ ⟨⟩ entry member t value
      rcases updated.entries entry member with member | ⟨_, v, ok, held⟩
      · exact known _ (mem_templateNames_cached on member value)
      · rw [value] at held
        cases held
        exact found t ok
  | answered r shelf shelf' host on answers updated =>
    refine ⟨templateNames_within located ?_, ?_⟩
    · rintro _ ⟨⟩ entry member t value
      rcases updated.entries entry member with member | ⟨_, foreign⟩
      · exact known _ (mem_templateNames_cached on member value)
      · rw [value] at foreign
        cases foreign
    · rintro t rfl
      cases answers with
      | held entry v member same value => exact known _ (mem_templateNames_cached on member value)

/-! ### Executions at a level -/

/-- `level` templates are open within one another, none more often than the limit allows, and all
names of templates are among `names`. -/
structure Bounded (e : Engine σ) (names : List String) (level : Nat) (s : Render.State σ) : Prop where
  known : ∀ name ∈ templateNames s.store, name ∈ names
  level : s.context.nesting.names.length = level
  within : ∀ name ∈ s.context.nesting.names, name ∈ names
  limited : ∀ name, s.context.openings name ≤ e.config.nestingLimit

variable {e} {level : Nat}

theorem Bounded.level_le {s : Render.State σ} (h : e.Bounded names level s) :
    level ≤ e.config.nestingLimit * names.length := by
  rw [← h.level]
  refine length_le_of_count_le h.within fun name => ?_
  rw [Openings.count_names]
  exact h.limited name

/-- How two executions end from one state: in the same way, in the context they began in, with no
new names of templates, and without an end only if the handler circles. -/
structure Agreement (e : Engine σ) (names : List String) (s : Render.State σ)
    (out out' : Except Halt α × Render.State σ) : Prop where
  same : out = out'
  context : out.2.context = s.context
  known : ∀ name ∈ templateNames out.2.store, name ∈ names
  endless : out.1 = .error .endless → e.missing.Circles

theorem Bounded.after {s : Render.State σ} {out out' : Except Halt α × Render.State σ}
    (h : e.Bounded names level s) (agreement : e.Agreement names s out out') :
    e.Bounded names level out.2 := by
  obtain ⟨_, context, known, _⟩ := agreement
  refine ⟨known, ?_, ?_, ?_⟩ <;> rw [context]
  · exact h.level
  · exact h.within
  · exact h.limited

end Engine

open Engine

def Exec.Agrees (e : Engine σ) (names : List String) (level : Nat) (x x' : Exec σ α) : Prop :=
  ∀ s, e.Bounded names level s → e.Agreement names s (x s) (x' s)

namespace Exec.Agrees

variable {e : Engine σ} {names : List String} {level : Nat} {x x' : Exec σ α}

theorem pure (a : α) : Agrees e names level (Pure.pure a) (Pure.pure a) :=
  fun _ bounded => ⟨rfl, rfl, bounded.known, fun endless => by cases endless⟩

theorem fail (err : Error) : Agrees e names level (Exec.fail err : Exec σ α) (Exec.fail err) :=
  fun _ bounded => ⟨rfl, rfl, bounded.known, fun endless => by cases endless⟩

theorem endless (circles : e.missing.Circles) :
    Agrees e names level (Attempt.fail .endless : Exec σ α) (Attempt.fail .endless) :=
  fun _ bounded => ⟨rfl, rfl, bounded.known, fun _ => circles⟩

theorem bind {f f' : α → Exec σ β} (hx : Agrees e names level x x')
    (hf : ∀ a, Agrees e names level (f a) (f' a)) : Agrees e names level (x >>= f) (x' >>= f') := by
  intro s bounded
  have agreement := hx s bounded
  have bounded' := bounded.after agreement
  obtain ⟨same, context, known, endless⟩ := agreement
  rcases ran : x s with ⟨r, t⟩
  rw [ran] at same context known endless bounded'
  cases r with
  | error halt =>
    rw [Attempt.bind_of_error ran, Attempt.bind_of_error same.symm]
    refine ⟨rfl, context, known, ?_⟩
    rintro ⟨⟩
    exact endless rfl
  | ok a =>
    rw [Attempt.bind_of_ok ran, Attempt.bind_of_ok same.symm]
    obtain ⟨same', context', known', endless'⟩ := hf a t bounded'
    exact ⟨same', context'.trans context, known', endless'⟩

theorem write (text : String) : Agrees e names level (Exec.write text) (Exec.write text) := by
  intro s bounded
  refine ⟨rfl, ?_, ?_, ?_⟩ <;> unfold Exec.write <;> split
  · rfl
  · rfl
  · exact bounded.known
  · exact bounded.known
  · intro endless
    cases endless
  · intro endless
    cases endless

theorem captured {x x' : Exec σ Unit} (hx : Agrees e names level x x') :
    Agrees e names level (Exec.captured x) (Exec.captured x') := by
  intro s bounded
  obtain ⟨same, context, known, endless⟩ := hx { s with sink := Sink.empty none }
    ⟨bounded.known, bounded.level, bounded.within, bounded.limited⟩
  rw [captured_apply, captured_apply, ← same]
  refine ⟨rfl, context, known, ?_⟩
  intro stopped
  apply endless
  generalize (x { s with sink := Sink.empty none }).1 = r at stopped
  cases r with
  | ok _ => cases stopped
  | error halt =>
    have halted : halt = .endless := Except.error.inj stopped
    rw [halted]

/-- Within a scope the level is the same. -/
theorem withScope (v : Value) (leases : List (Lease σ)) (hx : Agrees e names level x x') :
    Agrees e names level (Exec.withScope v leases x) (Exec.withScope v leases x') := by
  intro s bounded
  obtain ⟨same, context, known, endless⟩ := hx { s with context := s.context.push v leases }
    ⟨bounded.known, bounded.level, bounded.within, bounded.limited⟩
  have released := Store.undisturbed_releaseAll leases
    (x { s with context := s.context.push v leases }).2.store
  rw [withScope_apply, withScope_apply, ← same, pop_push context]
  refine ⟨rfl, rfl, ?_, endless⟩
  rw [templateNames_congr released.locators released.templates]
  exact known

theorem ensuring (found : Found σ) (hx : Agrees e names level x x') :
    Agrees e names level (Attempt.ensuring x (release found))
      (Attempt.ensuring x' (release found)) := by
  intro s bounded
  obtain ⟨same, context, known, endless⟩ := hx s bounded
  have released := Store.undisturbed_releaseAll found.leases (x s).2.store
  rw [Attempt.ensuring_apply, Attempt.ensuring_apply, ← same]
  refine ⟨rfl, context, ?_, endless⟩
  show ∀ name ∈ templateNames ((x s).2.store.releaseAll found.leases), name ∈ names
  rw [templateNames_congr released.locators released.templates]
  exact known

theorem lookup (parts : List String) (slot : Option Slot) {k k' : Found σ → Exec σ α}
    (consumed : ∀ found, Consumes (Agrees e names level) found found (k found) (k' found)) :
    Agrees e names level (e.findHere parts slot >>= k) (e.findHere parts slot >>= k') := by
  intro s bounded
  have hints : Resolver.Offers (fun _ => True) (Engine.filled slot s.store).join :=
    fun h _ => h.admits_all
  have kept := Engine.find_kept e.admits_all s.context.values parts hints s.store.owes_self
  rcases ran : e.find s.context.values parts (Engine.filled slot s.store) s.store with ⟨r, store⟩
  rw [ran] at kept
  cases r with
  | error err =>
    rw [Engine.findHere_of_error ran, Engine.findHere_of_error ran]
    refine ⟨rfl, rfl, ?_, fun endless => by cases endless⟩
    rw [templateNames_congr kept.1.locators kept.1.templates]
    exact bounded.known
  | ok found =>
    rw [Engine.findHere_of_ok ran, Engine.findHere_of_ok ran]
    have bounded' : e.Bounded names level { s with store } := by
      refine ⟨?_, bounded.level, bounded.within, bounded.limited⟩
      rw [templateNames_congr kept.1.locators kept.1.templates]
      exact bounded.known
    have agrees : Agrees e names level (k found) (k' found) := by
      have consumed := consumed found
      generalize k found = y, k' found = y' at consumed ⊢
      cases consumed with
      | release hx => exact hx.ensuring found
      | scope _ hx => exact hx.withScope _ _
    obtain ⟨same, context, known, endless⟩ := agrees _ bounded'
    exact ⟨same, context, known, endless⟩

theorem learnHint (slot : Option Slot) (hint : Option (Hint σ)) :
    Agrees e names level (Attempt.update (Engine.learnHint slot hint))
      (Attempt.update (Engine.learnHint slot hint)) := by
  intro s bounded
  refine ⟨rfl, ?_, ?_, fun endless => by cases endless⟩ <;> simp only [Attempt.update] <;>
    rcases Engine.learnHint_cases slot hint s with same | ⟨place, h, _, _, _, learned⟩
  · rw [same]
  · rw [learned]
  · rw [same]
    exact bounded.known
  · rw [learned]
    exact bounded.known

/-- A template within the templates of a level is executed at the next level. -/
theorem nested {name : String} (member : name ∈ names) (hx : Agrees e names (level + 1) x x') :
    Agrees e names level (Exec.nested e.config.nestingLimit name x)
      (Exec.nested e.config.nestingLimit name x') := by
  intro s bounded
  by_cases full : e.config.nestingLimit ≤ s.context.openings name
  · rw [nested_of_full full, nested_of_full full]
    exact ⟨rfl, rfl, bounded.known, fun endless => by cases endless⟩
  · have entered : e.Bounded names (level + 1)
        { s with context := s.context.entered name } := by
      have more := Openings.names_enter name s.context.nesting
      refine ⟨bounded.known, ?_, ?_, ?_⟩
      · exact more.length_eq.trans (congrArg (· + 1) bounded.level)
      · intro n opened
        rcases List.mem_cons.mp (more.mem_iff.mp opened) with rfl | opened
        · exact member
        · exact bounded.within n opened
      · intro n
        have before := bounded.limited n
        rw [Context.openings_entered]
        split
        · next same =>
          subst same
          omega
        · omega
    obtain ⟨same, context, known, endless⟩ := hx _ entered
    rw [nested_of_room full, nested_of_room full, ← same, leave_entered context]
    exact ⟨rfl, rfl, known, endless⟩

end Exec.Agrees

namespace Engine

variable {e : Engine σ} {names : List String} {level : Nat}

def agreement (e : Engine σ) (names : List String) (level : Nat) : Likeness σ where
  rel := Exec.Agrees e names level
  asked _ slot slot' := slot = slot'
  same _ found found' := found = found'
  fit _ := True

/-- Agreement is kept by every step of the renderer. -/
theorem agreement_kept (e : Engine σ) (names : List String) (level : Nat) :
    Pairing (e.agreement names level) e e where
  missing := rfl
  support := rfl
  skipEscaping := rfl
  same_value same := congrArg Found.value same.symm
  same_fit _ _ := trivial
  fit_item _ _ := trivial
  pure := Exec.Agrees.pure
  bind := Exec.Agrees.bind
  fail _ := Exec.Agrees.fail _
  endless := Exec.Agrees.endless
  write := Exec.Agrees.write
  captured := Exec.Agrees.captured
  item _ hx := hx.withScope _ _
  lookup asked consumed := by
    cases asked
    exact Exec.Agrees.lookup _ _ fun found => consumed found found rfl
  learn asked same := by
    cases asked
    cases same
    exact Exec.Agrees.learnHint _ _

theorem getTemplate_agrees {name : String} {f f' : Option Template → Exec σ α}
    (hf : ∀ found, (∀ t, found = some t → t.name ∈ names) → Exec.Agrees e names level (f found) (f' found)) :
    Exec.Agrees e names level (Exec.onStore (e.getTemplate name) >>= f)
      (Exec.onStore (e.getTemplate name) >>= f') := by
  intro s bounded
  obtain ⟨known, named⟩ := e.getTemplate_named name bounded.known
  rcases ran : e.getTemplate name s.store with ⟨r, store⟩
  rw [ran] at known named
  cases r with
  | error err =>
    rw [Exec.onStore_of_error ran, Exec.onStore_of_error ran]
    exact ⟨rfl, rfl, known, fun endless => by cases endless⟩
  | ok found =>
    rw [Exec.onStore_of_ok ran, Exec.onStore_of_ok ran]
    have given (t : Template) (some : found = some t) : t.name ∈ names := named t (some ▸ rfl)
    obtain ⟨same, context, known, endless⟩ := hf found given { s with store }
      ⟨known, bounded.level, bounded.within, bounded.limited⟩
    exact ⟨same, context, known, endless⟩

theorem compileOneOff_agrees {origin : Origin} {tag source : String} {f f' : Template → Exec σ α}
    (hf : ∀ t, Exec.Agrees e names level (f t) (f' t)) :
    Exec.Agrees e names level (Exec.onStore (e.compileOneOff origin tag source) >>= f)
      (Exec.onStore (e.compileOneOff origin tag source) >>= f') := by
  intro s bounded
  obtain ⟨carried, templates, _⟩ := e.compileOneOff_carried origin tag source s.store
  rcases ran : e.compileOneOff origin tag source s.store with ⟨r, store⟩
  rw [ran] at carried templates
  have known : ∀ name ∈ templateNames store, name ∈ names := by
    rw [templateNames_congr carried.locators templates]
    exact bounded.known
  cases r with
  | error err =>
    rw [Exec.onStore_of_error ran, Exec.onStore_of_error ran]
    exact ⟨rfl, rfl, known, fun endless => by cases endless⟩
  | ok t =>
    rw [Exec.onStore_of_ok ran, Exec.onStore_of_ok ran]
    obtain ⟨same, context, known, endless⟩ := hf t { s with store }
      ⟨known, bounded.level, bounded.within, bounded.limited⟩
    exact ⟨same, context, known, endless⟩

/-- Depths that reach down to the last level make no difference. -/
theorem nestedIn_agrees (oneOff : oneOffNesting ∈ names) {depth depth' : Nat}
    (enough : e.config.nestingLimit * names.length < level + depth)
    (enough' : e.config.nestingLimit * names.length < level + depth') (t : Template) :
    Exec.Agrees e names level (e.nestedIn depth t) (e.nestedIn depth' t) := by
  -- One level deeper, one less is left of both depths. There are no levels beyond the bound.
  induction depth generalizing depth' level t with
  | zero =>
    intro s bounded
    exact absurd bounded.level_le (Nat.not_le.mpr enough)
  | succ depth ih =>
    cases depth' with
    | zero =>
      intro s bounded
      exact absurd bounded.level_le (Nat.not_le.mpr enough')
    | succ depth' =>
      have deeper (t : Template) :
          Exec.Agrees e names (level + 1) (e.nestedIn depth t) (e.nestedIn depth' t) :=
        ih (by omega) (by omega) t
      have nests : Pairing.Nests (e.agreement names level) e e (e.nestedIn depth) (e.nestedIn depth') := by
        constructor
        · exact fun _ => rfl
        · intro origin tag source
          exact compileOneOff_agrees fun t => (deeper t).nested oneOff
        · intro name origin
          refine getTemplate_agrees fun found named => ?_
          cases found with
          | none => exact .fail _
          | some t => exact (deeper t).nested (named t rfl)
      rw [nestedIn, nestedIn]
      exact (e.agreement_kept names level).runAll nests t.instanceId t.instanceId t.segments
        fun _ _ => rfl

theorem executeWithin_agrees {depth : Nat} {t : Template} {s : Render.State σ}
    (fresh : s.context.nesting = .empty) (enough : e.depthBound t.name s.store ≤ depth) :
    e.executeWithin depth t s = e.execute t s ∧
      ((e.execute t s).1 = .error .endless → e.missing.Circles) := by
  let names := t.name :: oneOffNesting :: templateNames s.store
  have oneOff : oneOffNesting ∈ names := List.mem_cons_of_mem _ List.mem_cons_self
  have bound : e.depthBound t.name s.store = e.config.nestingLimit * names.length + 1 := rfl
  have bounded : e.Bounded names 0 s := by
    refine ⟨?_, ?_, ?_, ?_⟩
    · exact fun name member => List.mem_cons_of_mem _ (List.mem_cons_of_mem _ member)
    · rw [fresh]
      rfl
    · rw [fresh]
      intro name member
      cases member
    · intro name
      rw [Context.openings, fresh]
      exact Nat.zero_le _
  have deeper : Exec.Agrees e names 1 (e.nestedIn (e.depthBound t.name s.store) t)
      (e.nestedIn depth t) := nestedIn_agrees oneOff (by omega) (by omega) t
  obtain ⟨same, _, _, endless⟩ := deeper.nested List.mem_cons_self s bounded
  rw [execute_apply]
  exact ⟨same.symm, endless⟩

/-! ### Renders -/

/-- The render comes to an end, which is the same however many more templates it may nest. -/
def Ends (e : Engine σ) (t : Template) (data : Value) (sink : Sink) (store : Store σ) : Prop :=
  (e.renderTo t data sink store).1 ≠ .error .endless ∧
    ∀ depth, e.depthBound t.name store ≤ depth →
      e.executeWithin depth t ⟨store, startContext data, sink⟩ =
        e.execute t ⟨store, startContext data, sink⟩

theorem startContext_nesting (data : Value) : (startContext data : Context σ).nesting = .empty := by
  unfold startContext
  split <;> rfl

theorem ends_of_not_circles (settles : ¬ e.missing.Circles) (t : Template) (data : Value)
    (sink : Sink) (store : Store σ) : e.Ends t data sink store := by
  have fresh : (startContext data : Context σ).nesting = .empty := startContext_nesting data
  constructor
  · unfold renderTo
    split
    · intro endless
      exact settles ((executeWithin_agrees fresh (Nat.le_refl _)).2 endless)
    · intro endless
      cases endless
  · intro depth enough
    exact (executeWithin_agrees fresh enough).1

theorem writeMissing_of_circles {inner : Template → Exec σ Unit} {tag : ValueTag} {l : Lambda}
    (given : e.missing ⟨tag.text, tag.unescaped, tag.origin.line, tag.origin.template⟩ =
      .ok (some (.lambda l))) (silent : l.invoke none = .ok none) :
    e.writeMissing inner tag = Attempt.fail .endless := by
  simp only [writeMissing, given]
  show e.writeLambda inner tag (Attempt.fail .endless) l = _
  simp only [writeLambda, invoke, silent, pure_bind]

theorem findHere_nil (slot : Option Slot) (k : Found σ → Exec σ α) (s : Render.State σ) :
    (e.findHere [] slot >>= k) s = k ⟨none, none, []⟩ s := by
  have found : e.find s.context.values [] (filled slot s.store) s.store =
      (.ok ⟨none, none, []⟩, s.store) := by
    simp only [find, Lookup.key, Attempt.pure_apply]
  exact findHere_of_ok found k

/-- A tag without a name has no value, and a handler that circles gives it one for ever. -/
theorem renderTo_of_circles (limit : 1 ≤ e.config.nestingLimit) {store : Store σ}
    (isOpen : store.isOpen = true) {info : TagInfo} {l : Lambda}
    (given : e.missing info = .ok (some (.lambda l))) (silent : l.invoke none = .ok none) :
    (e.renderTo ⟨0, info.template, [.value ⟨info.text, ⟨info.template, info.line, 1⟩,
      info.unescaped, []⟩]⟩ .null (Sink.empty none) store).1 = .error .endless := by
  have room : ¬ e.config.nestingLimit ≤ (startContext .null : Context σ).openings info.template := by
    rw [Context.openings, startContext_nesting]
    exact Nat.not_le_of_lt limit
  have endless (inner : Template → Exec σ Unit) (s : Render.State σ) :
      e.writeMissing inner ⟨info.text, ⟨info.template, info.line, 1⟩, info.unescaped, []⟩ s =
        (.error .endless, s) := by
    refine congrFun (writeMissing_of_circles ?_ silent) s
    exact given
  simp only [renderTo, isOpen, if_true]
  rw [execute_apply, executeWithin, Exec.nested_of_room room, depthBound, nestedIn]
  simp only [runAll, run, runValue]
  rw [Attempt.bind_apply, findHere_nil, Attempt.ensuring_apply]
  simp only [endless]

/-- All renders end, unless the handler of missing values circles. -/
theorem ends_iff (limit : 1 ≤ e.config.nestingLimit) {store : Store σ} (isOpen : store.isOpen = true) :
    (∀ t data sink, e.Ends t data sink store) ↔ ¬ e.missing.Circles := by
  constructor
  · rintro ends ⟨info, l, given, silent⟩
    exact (ends _ .null (Sink.empty none)).1 (renderTo_of_circles limit isOpen given silent)
  · intro settles t data sink
    exact ends_of_not_circles settles t data sink store

theorem ends_bare_ignore :
    (bare .ignore).Ends ⟨0, "main", [.value ⟨"x", ⟨"main", 1, 1⟩, false, ["x"]⟩]⟩ .null
      (Sink.empty none) (Blueprint.standard.emptyStore ()) := by
  have settles : ¬ (bare .ignore).missing.Circles := by
    rintro ⟨info, l, given, _⟩
    simp only [bare, MissingHandler.ignore] at given
    cases given
  exact (ends_iff (by decide) rfl).mpr settles _ _ _

def silentLambda : Lambda := ⟨0, fun _ => .ok none, .literal, false⟩

/-- The template of a single tag renders without end if its value is missing for ever. -/
theorem endless_bare_silent :
    ∃ t, Template.ofSource 0 "main" "\x7b\x7bx\x7d\x7d" Key.dotted = .ok t ∧
      ((bare fun _ => .ok (some (.lambda silentLambda))).renderTo t .null (Sink.empty none)
        (Blueprint.standard.emptyStore ())).1 = .error .endless := by
  refine ⟨⟨0, "main", [.value ⟨"x", ⟨"main", 1, 1⟩, false, ["x"]⟩]⟩, ?_, ?_⟩
  · with_unfolding_all rfl
  · with_unfolding_all rfl

end Engine

end Logicless
