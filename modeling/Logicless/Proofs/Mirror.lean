import Logicless.Proofs.Pairing
import Logicless.Proofs.Recall
import Logicless.Proofs.Settling
import Logicless.Proofs.Step
import Logicless.Proofs.Termination

/-!
# Engines that remember differently

Two engines whose resolvers say the same may differ in what they remember. Where they start alike,
whatever one of them does the other does too (`Engine.renderTo_mirrors`).
-/

namespace Logicless

variable {σ α β : Type}

/-- Engines that differ in what they remember, but not in what they have to remember. -/
structure Engine.Alike (e e' : Engine σ) (globals : List (String × Value)) : Prop where
  builtIn : ∃ shelf, e.resolvers = Lookup.builtIns shelf globals
  builtIn' : ∃ shelf, e'.resolvers = Lookup.builtIns shelf globals
  missing : e'.missing = e.missing
  support : e'.support = e.support
  split : e'.split = e.split
  nestingLimit : e'.config.nestingLimit = e.config.nestingLimit
  skipEscaping : e'.config.skipEscaping = e.config.skipEscaping

structure Engine.Agree (e e' : Engine σ) (rules : Rules σ) : Prop where
  lawful : Lookup.Lawful rules e.resolvers
  lawful' : Lookup.Lawful rules e'.resolvers
  said : Lookup.said rules e'.resolvers = Lookup.said rules e.resolvers
  missing : e'.missing = e.missing
  support : e'.support = e.support
  split : e'.split = e.split
  nestingLimit : e'.config.nestingLimit = e.config.nestingLimit
  skipEscaping : e'.config.skipEscaping = e.config.skipEscaping

theorem Engine.Alike.agree {e e' : Engine σ} {globals : List (String × Value)} (h : e.Alike e' globals)
    {names : String → List String} (outside : ∀ entry ∈ globals, entry.2.Conforms names) :
    e.Agree e' names := by
  obtain ⟨shelf, resolvers⟩ := h.builtIn
  obtain ⟨shelf', resolvers'⟩ := h.builtIn'
  refine ⟨?_, ?_, ?_, h.missing, h.support, h.split, h.nestingLimit, h.skipEscaping⟩
  · rw [resolvers]
    exact Lookup.builtIns_lawful shelf outside
  · rw [resolvers']
    exact Lookup.builtIns_lawful shelf' outside
  · funext scopes parts
    rw [resolvers, resolvers', Lookup.said_builtIns (Rules.mixes_own names shelf),
      Lookup.said_builtIns (Rules.mixes_own names shelf')]

structure Template.Twins (t t' : Template) : Prop where
  name : t'.name = t.name
  segments : t'.segments = t.segments

/-- Stores that remember what is right, each with its own instances of the templates. -/
structure Store.Alike (split : KeySplitter) (rules : Rules σ)
    (ts : List (Template × Template)) (store store' : Store σ) : Prop where
  isOpen : store'.isOpen = store.isOpen
  locators : store'.locators = store.locators
  oneOffs : store'.oneOffs = store.oneOffs
  recalls : store.Recalls split rules (ts.map (·.1))
  recalls' : store'.Recalls split rules (ts.map (·.2))

def Template.alone (ts : List Template) : List (Template × Template) :=
  ts.map fun t => (t, t)

theorem Template.alone_fst (ts : List Template) : (alone ts).map (·.1) = ts := by
  simp [alone, Function.comp_def]

theorem Template.alone_snd (ts : List Template) : (alone ts).map (·.2) = ts := by
  simp [alone, Function.comp_def]

theorem Template.twins_alone {ts : List Template} {p : Template × Template} (member : p ∈ alone ts) :
    p.1.Twins p.2 := by
  obtain ⟨t, _, rfl⟩ := List.mem_map.mp member
  exact ⟨rfl, rfl⟩

theorem Template.mem_alone {ts : List Template} {t : Template} (member : t ∈ ts) : (t, t) ∈ alone ts :=
  List.mem_map.mpr ⟨t, member, rfl⟩

namespace Store.Alike

variable {split : KeySplitter} {rules : Rules σ} {ts : List (Template × Template)}
  {store store' after after' : Store σ}

theorem mono (h : store.Alike split rules ts store') {ts' : List (Template × Template)}
    (fewer : ∀ p ∈ ts', p ∈ ts) : store.Alike split rules ts' store' := by
  refine ⟨h.isOpen, h.locators, h.oneOffs, h.recalls.mono ?_, h.recalls'.mono ?_⟩
  · intro t member
    obtain ⟨p, within, rfl⟩ := List.mem_map.mp member
    exact List.mem_map.mpr ⟨p, fewer p within, rfl⟩
  · intro t member
    obtain ⟨p, within, rfl⟩ := List.mem_map.mp member
    exact List.mem_map.mpr ⟨p, fewer p within, rfl⟩

theorem itself {ts : List Template} (h : store.Recalls split rules ts) :
    store.Alike split rules (Template.alone ts) store := by
  refine ⟨rfl, rfl, rfl, ?_, ?_⟩
  · rwa [Template.alone_fst]
  · rwa [Template.alone_snd]

theorem undisturbed (h : store.Alike split rules ts store') (same : store.Undisturbed after)
    (same' : store'.Undisturbed after') (recalls : after.Recalls split rules (ts.map (·.1)))
    (recalls' : after'.Recalls split rules (ts.map (·.2))) : after.Alike split rules ts after' := by
  refine ⟨?_, ?_, ?_, recalls, recalls'⟩
  · rw [same'.isOpen, same.isOpen, h.isOpen]
  · rw [same'.locators, same.locators, h.locators]
  · rw [same'.oneOffs, same.oneOffs, h.oneOffs]

theorem members_releaseAll (leases : List (Lease σ)) (store : Store σ) :
    (store.releaseAll leases).members = store.members := by
  induction leases generalizing store with
  | nil => rfl
  | cons lease rest ih => exact ih (store.release lease)

theorem recalls_releaseAll {ts : List Template} (h : store.Recalls split rules ts)
    (leases : List (Lease σ)) : (store.releaseAll leases).Recalls split rules ts := by
  have same := undisturbed_releaseAll leases store
  exact h.of_eq same.compiled same.hints same.templates same.locators (members_releaseAll leases store)

theorem releaseAll (h : store.Alike split rules ts store') (leases : List (Lease σ)) :
    (store.releaseAll leases).Alike split rules ts (store'.releaseAll leases) :=
  h.undisturbed (undisturbed_releaseAll leases store) (undisturbed_releaseAll leases store')
    (recalls_releaseAll h.recalls leases) (recalls_releaseAll h.recalls' leases)

theorem close (h : store.Alike split rules ts store') (context : Context σ) :
    (context.close store).Alike split rules ts (context.close store') := by
  have left (scopes : List (Scope σ)) {store store' : Store σ}
      (h : store.Alike split rules ts store') :
      (scopes.foldl (fun store scope => store.releaseAll scope.leases) store).Alike split rules ts
        (scopes.foldl (fun store scope => store.releaseAll scope.leases) store') := by
    induction scopes generalizing store store' with
    | nil => exact h
    | cons scope rest ih => exact ih (h.releaseAll scope.leases)
  exact (left context.scopes h).releaseAll context.leases

end Store.Alike

inductive Engine.LoadsTwins (split : KeySplitter) (rules : Rules σ)
    (ts : List (Template × Template)) :
    Except Error (Option Template) × Store σ → Except Error (Option Template) × Store σ → Prop where
  | failed {store store' : Store σ} (err : Error) (alike : store.Alike split rules ts store') :
      LoadsTwins split rules ts (.error err, store) (.error err, store')
  | unknown {store store' : Store σ} (alike : store.Alike split rules ts store') :
      LoadsTwins split rules ts (.ok none, store) (.ok none, store')
  | known {t t' : Template} {store store' : Store σ} (twins : t.Twins t')
      (alike : store.Alike split rules ((t, t') :: ts) store') :
      LoadsTwins split rules ts (.ok (some t), store) (.ok (some t'), store')

/-- What stands for the same in both is loaded to twins. -/
theorem Engine.Loads.twins {e e' : Engine σ} {rules : Rules σ} {ts : List (Template × Template)}
    {name : String} {store store' : Store σ} {out out' : Except Error (Option Template) × Store σ}
    (loads : e.Loads rules (ts.map (·.1)) name store out)
    (loads' : e'.Loads rules (ts.map (·.2)) name store' out')
    (content : content e'.split store'.locators name = content e.split store.locators name)
    (after : ∀ {ts' : List (Template × Template)}, out.2.Recalls e.split rules (ts'.map (·.1)) →
      out'.2.Recalls e'.split rules (ts'.map (·.2)) → out.2.Alike e.split rules ts' out'.2) :
    LoadsTwins e.split rules ts out out' := by
  cases loads with
  | failed failed recalls =>
    rw [failed] at content
    cases loads' with
    | failed failed' recalls' =>
      rw [failed'] at content
      cases content
      exact .failed _ (after recalls recalls')
    | unknown unknown' _ =>
      rw [unknown'] at content
      cases content
    | known known' _ _ =>
      rw [known'] at content
      cases content
  | unknown unknown recalls =>
    rw [unknown] at content
    cases loads' with
    | failed failed' _ =>
      rw [failed'] at content
      cases content
    | unknown _ recalls' => exact .unknown (after recalls recalls')
    | known known' _ _ =>
      rw [known'] at content
      cases content
  | known known named recalls =>
    rw [known] at content
    cases loads' with
    | failed failed' _ =>
      rw [failed'] at content
      cases content
    | unknown unknown' _ =>
      rw [unknown'] at content
      cases content
    | known known' named' recalls' =>
      rw [known'] at content
      simp only [Except.ok.injEq, Option.some.injEq] at content
      exact .known ⟨named'.trans named.symm, content⟩ (after recalls recalls')

/-- Since both stores have the same locators, a name stands for the same in both. -/
theorem Engine.getTemplate_twins {e e' : Engine σ} {rules : Rules σ}
    {ts : List (Template × Template)} {store store' : Store σ} (splits : e'.split = e.split)
    (name : String) (alike : store.Alike e.split rules ts store') :
    LoadsTwins e.split rules ts (e.getTemplate name store) (e'.getTemplate name store') := by
  have recalls' : store'.Recalls e'.split rules (ts.map (·.2)) := splits ▸ alike.recalls'
  obtain ⟨carried, oneOffs⟩ := e.getTemplate_carried name store
  obtain ⟨carried', oneOffs'⟩ := e'.getTemplate_carried name store'
  have after {ts' : List (Template × Template)}
      (recalls : (e.getTemplate name store).2.Recalls e.split rules (ts'.map (·.1)))
      (recalls' : (e'.getTemplate name store').2.Recalls e'.split rules (ts'.map (·.2))) :
      (e.getTemplate name store).2.Alike e.split rules ts' (e'.getTemplate name store').2 := by
    refine ⟨?_, ?_, ?_, recalls, splits ▸ recalls'⟩
    · rw [carried'.isOpen, carried.isOpen, alike.isOpen]
    · rw [carried'.locators, carried.locators, alike.locators]
    · rw [oneOffs', oneOffs, alike.oneOffs]
  cases mixed : rules.mixedTemplates with
  | true =>
    obtain ⟨_, ran, recalls⟩ := e.getTemplate_refused mixed name alike.recalls
    obtain ⟨_, ran', recalls'⟩ := e'.getTemplate_refused mixed name recalls'
    rw [ran, ran'] at after ⊢
    exact .failed _ (after recalls recalls')
  | false =>
    refine (e.getTemplate_loads mixed name alike.recalls).twins
      (e'.getTemplate_loads mixed name recalls') ?_ after
    rw [splits, alike.locators]

/-! ### Lookups -/

/-- What two lookups of a key find: the same value, without leases, and right hints. -/
structure Found.Same (rules : Rules σ) (parts : List String) (found found' : Found σ) : Prop where
  value : found'.value = found.value
  leases : found.leases = []
  leases' : found'.leases = []
  hinted : Store.Hinted rules parts found.hint
  hinted' : Store.Hinted rules parts found'.hint
  conforms : ∀ v, found.value = some v → v.Conforms rules.names

theorem Found.Same.release {rules : Rules σ} {parts : List String} {found found' : Found σ}
    (same : Found.Same rules parts found found') :
    (Exec.release found : Render.State σ → Render.State σ) = id ∧
      (Exec.release found' : Render.State σ → Render.State σ) = id := by
  have unreleased {found : Found σ} (none : found.leases = []) :
      (Exec.release found : Render.State σ → Render.State σ) = id := by
    funext s
    simp only [Exec.release, Found.release, none, Store.releaseAll, List.foldl_nil, id_eq]
  exact ⟨unreleased same.leases, unreleased same.leases'⟩

structure Store.Looked (split : KeySplitter) (rules : Rules σ) (ts : List Template)
    (store store' : Store σ) : Prop where
  kept : store.Undisturbed store'
  recalls : store'.Recalls split rules ts

inductive Engine.FindsSame (split : KeySplitter) (rules : Rules σ)
    (ts : List (Template × Template)) (parts : List String) (store store' : Store σ) :
    Except Error (Option Value) → Except Error (Found σ) × Store σ → Except Error (Found σ) × Store σ →
      Prop where
  | failed {err : Error} {t t' : Store σ} (looked : store.Looked split rules (ts.map (·.1)) t)
      (looked' : store'.Looked split rules (ts.map (·.2)) t') :
      FindsSame split rules ts parts store store' (.error err) (.error err, t) (.error err, t')
  | found {found found' : Found σ} {t t' : Store σ} (same : Found.Same rules parts found found')
      (looked : store.Looked split rules (ts.map (·.1)) t)
      (looked' : store'.Looked split rules (ts.map (·.2)) t') :
      FindsSame split rules ts parts store store' (.ok found.value) (.ok found, t) (.ok found', t')

/-- A key is looked up alike in scopes of which the resolvers say the same. -/
theorem Engine.find_same {e e' : Engine σ} {rules : Rules σ} (engines : e.Agree e' rules)
    {split : KeySplitter} {ts : List (Template × Template)} {store store' : Store σ}
    (recalls : store.Recalls split rules (ts.map (·.1)))
    (recalls' : store'.Recalls split rules (ts.map (·.2))) {parts : List String}
    {slot slot' : Option Slot} (slotted : Store.Slotted (ts.map (·.1)) parts slot)
    (slotted' : Store.Slotted (ts.map (·.2)) parts slot') {scopes scopes' : List Value}
    (conforms : ∀ v ∈ scopes, v.Conforms rules.names) (conforms' : ∀ v ∈ scopes', v.Conforms rules.names)
    (said : Lookup.said rules e.resolvers scopes' parts = Lookup.said rules e.resolvers scopes parts) :
    FindsSame split rules ts parts store store' (Lookup.said rules e.resolvers scopes parts)
      (e.find scopes parts (filled slot store) store)
      (e'.find scopes' parts (filled slot' store') store') := by
  have indexed {store : Store σ} {ts : List Template} (recalls : store.Recalls split rules ts) :
      store.Indexed rules := by
    obtain ⟨_, faithful, _⟩ := recalls
    exact faithful.members
  have finds := find_lawful engines.lawful (recalls.filled slotted) conforms (indexed recalls)
  have finds' := find_lawful engines.lawful' (recalls'.filled slotted') conforms' (indexed recalls')
  rw [engines.said, said] at finds'
  have fits (v : Value) (known : Lookup.said rules e.resolvers scopes parts = .ok (some v)) :
      v.Conforms rules.names := engines.lawful.hereditary.said conforms known
  generalize Lookup.said rules e.resolvers scopes parts = outcome at finds finds' fits
  generalize e.find scopes parts (filled slot store) store = out at finds ⊢
  generalize e'.find scopes' parts (filled slot' store') store' = out' at finds' ⊢
  cases finds with
  | failed kept indexed =>
    cases finds' with
    | failed kept' indexed' =>
      exact .failed ⟨kept, recalls.looked kept indexed⟩ ⟨kept', recalls'.looked kept' indexed'⟩
  | @found v hint _ hinted kept indexed =>
    cases finds' with
    | @found _ hint' _ hinted' kept' indexed' =>
      have same : Found.Same rules parts ⟨v, hint, []⟩ ⟨v, hint', []⟩ :=
        ⟨rfl, rfl, rfl, hinted, hinted', fun u found => fits u (congrArg Except.ok found)⟩
      exact .found same ⟨kept, recalls.looked kept indexed⟩ ⟨kept', recalls'.looked kept' indexed'⟩

theorem Engine.learnHint_unchanged (slot : Option Slot) (hint : Option (Hint σ)) (s : Render.State σ) :
    (learnHint slot hint s).context = s.context ∧ (learnHint slot hint s).sink = s.sink ∧
      (learnHint slot hint s).store.isOpen = s.store.isOpen ∧
      (learnHint slot hint s).store.locators = s.store.locators ∧
      (learnHint slot hint s).store.oneOffs = s.store.oneOffs := by
  rcases learnHint_cases slot hint s with same | ⟨_, _, _, _, _, learned⟩
  · rw [same]
    exact ⟨rfl, rfl, rfl, rfl, rfl⟩
  · rw [learned]
    exact ⟨rfl, rfl, rfl, rfl, rfl⟩

theorem Store.Alike.learnHint {split : KeySplitter} {rules : Rules σ} {ts : List (Template × Template)}
    {s s' : Render.State σ} (h : s.store.Alike split rules ts s'.store) {parts : List String}
    {slot slot' : Option Slot} (slotted : Store.Slotted (ts.map (·.1)) parts slot)
    (slotted' : Store.Slotted (ts.map (·.2)) parts slot') {hint hint' : Option (Hint σ)}
    (hinted : Store.Hinted rules parts hint) (hinted' : Store.Hinted rules parts hint') :
    (Engine.learnHint slot hint s).store.Alike split rules ts (Engine.learnHint slot' hint' s').store := by
  obtain ⟨_, _, isOpen, locators, oneOffs⟩ := Engine.learnHint_unchanged slot hint s
  obtain ⟨_, _, isOpen', locators', oneOffs'⟩ := Engine.learnHint_unchanged slot' hint' s'
  refine ⟨?_, ?_, ?_, h.recalls.learnHint slotted hinted, h.recalls'.learnHint slotted' hinted'⟩
  · rw [isOpen', isOpen, h.isOpen]
  · rw [locators', locators, h.locators]
  · rw [oneOffs', oneOffs, h.oneOffs]

/-! ### Executions -/

/-- States that differ in what their stores remember alone. -/
structure Render.State.Alike (split : KeySplitter) (rules : Rules σ)
    (ts : List (Template × Template)) (s s' : Render.State σ) : Prop where
  context : s'.context = s.context
  sink : s'.sink = s.sink
  scopes : ∀ scope ∈ s.context.scopes, scope.value.Conforms rules.names
  store : s.store.Alike split rules ts s'.store

theorem Render.State.Alike.values {split : KeySplitter} {rules : Rules σ}
    {ts : List (Template × Template)} {s s' : Render.State σ} (h : s.Alike split rules ts s') :
    ∀ v ∈ s.context.values, v.Conforms rules.names := by
  intro v member
  obtain ⟨scope, within, rfl⟩ := List.mem_map.mp member
  exact h.scopes scope within

def Exec.Mirrors (split : KeySplitter) (rules : Rules σ)
    (ts : List (Template × Template)) (x x' : Exec σ α) : Prop :=
  ∀ s s', s.Alike split rules ts s' → (x' s').1 = (x s).1 ∧ (x s).2.Alike split rules ts (x' s').2

namespace Exec.Mirrors

variable {split : KeySplitter} {rules : Rules σ} {ts : List (Template × Template)}
  {x x' : Exec σ α}

theorem pure (a : α) : Mirrors split rules ts (Pure.pure a : Exec σ α) (Pure.pure a) :=
  fun _ _ alike => ⟨rfl, alike⟩

theorem fail (halt : Halt) : Mirrors split rules ts (Attempt.fail halt : Exec σ α) (Attempt.fail halt) :=
  fun _ _ alike => ⟨rfl, alike⟩

theorem bind {f f' : α → Exec σ β} (hx : Mirrors split rules ts x x')
    (hf : ∀ a, Mirrors split rules ts (f a) (f' a)) :
    Mirrors split rules ts (x >>= f) (x' >>= f') := by
  intro s s' alike
  obtain ⟨same, alike⟩ := hx s s' alike
  rcases ran : x s with ⟨r, t⟩
  rcases ran' : x' s' with ⟨r', t'⟩
  rw [ran, ran'] at same alike
  simp only at same
  subst same
  cases r' with
  | error halt =>
    rw [Attempt.bind_of_error ran, Attempt.bind_of_error ran']
    exact ⟨rfl, alike⟩
  | ok a =>
    rw [Attempt.bind_of_ok ran, Attempt.bind_of_ok ran']
    exact hf a t t' alike

theorem write (text : String) : Mirrors split rules ts (Exec.write text : Exec σ Unit) (Exec.write text) := by
  intro s s' alike
  unfold Exec.write
  rw [alike.sink]
  cases s.sink.write? text with
  | none => exact ⟨rfl, alike⟩
  | some sink => exact ⟨rfl, alike.context, rfl, alike.scopes, alike.store⟩

theorem captured {x x' : Exec σ Unit} (hx : Mirrors split rules ts x x') :
    Mirrors split rules ts (Exec.captured x) (Exec.captured x') := by
  intro s s' alike
  obtain ⟨same, context, sink, scopes, store⟩ := hx { s with sink := Sink.empty none }
    { s' with sink := Sink.empty none } ⟨alike.context, rfl, alike.scopes, alike.store⟩
  rw [captured_apply, captured_apply, same, sink]
  exact ⟨rfl, context, alike.sink, scopes, store⟩

theorem pop {s s' : Render.State σ} (alike : s.Alike split rules ts s') :
    (Exec.pop s).Alike split rules ts (Exec.pop s') := by
  obtain ⟨context, sink, conform, store⟩ := alike
  simp only [Exec.pop, Context.pop, context]
  cases scopes : s.context.scopes with
  | nil => exact ⟨rfl, sink, conform, store⟩
  | cons scope rest =>
    refine ⟨rfl, sink, fun v member => conform v ?_, store.releaseAll scope.leases⟩
    rw [scopes]
    exact List.mem_cons_of_mem scope member

theorem withScope {v : Value} (conforms : v.Conforms rules.names) (leases : List (Lease σ))
    (hx : Mirrors split rules ts x x') :
    Mirrors split rules ts (Exec.withScope v leases x) (Exec.withScope v leases x') := by
  intro s s' alike
  have pushed : Render.State.Alike split rules ts
      { s with context := s.context.push v leases } { s' with context := s'.context.push v leases } := by
    refine ⟨?_, alike.sink, ?_, alike.store⟩
    · rw [alike.context]
    · intro scope member
      rcases List.mem_cons.mp member with rfl | member
      · exact conforms
      · exact alike.scopes scope member
  obtain ⟨same, alike⟩ := hx _ _ pushed
  exact ⟨same, pop alike⟩

theorem nested {limit : Nat} {name : String} (hx : Mirrors split rules ts x x') :
    Mirrors split rules ts (Exec.nested limit name x) (Exec.nested limit name x') := by
  intro s s' alike
  by_cases full : limit ≤ s.context.openings name
  · have full' : limit ≤ s'.context.openings name := alike.context ▸ full
    rw [nested_of_full full, nested_of_full full']
    exact ⟨rfl, alike⟩
  · have full' : ¬ limit ≤ s'.context.openings name := alike.context ▸ full
    have entered : Render.State.Alike split rules ts
        { s with context := s.context.entered name } { s' with context := s'.context.entered name } := by
      refine ⟨?_, alike.sink, alike.scopes, alike.store⟩
      rw [alike.context]
    obtain ⟨same, context, sink, scopes, store⟩ := hx _ _ entered
    rw [nested_of_room full, nested_of_room full']
    refine ⟨same, ?_, sink, scopes, store⟩
    simp only [leave, context]

/-- Templates that have been made on the way are forgotten in the end. -/
theorem forget {ts' : List (Template × Template)} {s s' : Render.State σ}
    (h : (x' s').1 = (x s).1 ∧ (x s).2.Alike split rules ts' (x' s').2) (fewer : ∀ p ∈ ts, p ∈ ts') :
    (x' s').1 = (x s).1 ∧ (x s).2.Alike split rules ts (x' s').2 :=
  ⟨h.1, h.2.context, h.2.sink, h.2.scopes, h.2.store.mono fewer⟩

/-! ### Steps that go by what is remembered -/

variable {e e' : Engine σ}

theorem consumes {parts : List String} {found found' : Found σ} (same : Found.Same rules parts found found')
    {y y' : Exec σ α} (consumed : Consumes (Mirrors split rules ts) found found' y y') :
    Mirrors split rules ts y y' := by
  cases consumed with
  | release hx =>
    intro s s' alike
    rw [Attempt.ensuring_apply, Attempt.ensuring_apply, same.release.1, same.release.2]
    exact hx s s' alike
  | scope value hx =>
    rw [same.leases, same.leases']
    exact hx.withScope (same.conforms _ value) []

theorem lookup (engines : e.Agree e' rules)
    {parts : List String} {slot slot' : Option Slot}
    (slotted : Store.Slotted (ts.map (·.1)) parts slot)
    (slotted' : Store.Slotted (ts.map (·.2)) parts slot') {k k' : Found σ → Exec σ α}
    (consumed : ∀ found found', Found.Same rules parts found found' →
      Consumes (Mirrors split rules ts) found found' (k found) (k' found')) :
    Mirrors split rules ts (e.findHere parts slot >>= k) (e'.findHere parts slot' >>= k') := by
  intro s s' alike
  have finds := Engine.find_same engines alike.store.recalls alike.store.recalls' slotted slotted'
    alike.values alike.values rfl
  rcases ran : e.find s.context.values parts (Engine.filled slot s.store) s.store with ⟨r, store⟩
  rcases ran' : e'.find s.context.values parts (Engine.filled slot' s'.store) s'.store with ⟨r', store'⟩
  rw [ran, ran'] at finds
  rw [← alike.context] at ran'
  generalize Lookup.said rules e.resolvers s.context.values parts = said at finds
  have looked (h : s.store.Looked split rules (ts.map (·.1)) store)
      (h' : s'.store.Looked split rules (ts.map (·.2)) store') :
      Render.State.Alike split rules ts { s with store } { s' with store := store' } :=
    ⟨alike.context, alike.sink, alike.scopes,
      alike.store.undisturbed h.kept h'.kept h.recalls h'.recalls⟩
  cases finds with
  | failed here there =>
    rw [Engine.findHere_of_error ran, Engine.findHere_of_error ran']
    exact ⟨rfl, looked here there⟩
  | found same here there =>
    rw [Engine.findHere_of_ok ran, Engine.findHere_of_ok ran']
    exact consumes same (consumed _ _ same) _ _ (looked here there)

theorem learnHint {parts : List String} {slot slot' : Option Slot}
    (slotted : Store.Slotted (ts.map (·.1)) parts slot)
    (slotted' : Store.Slotted (ts.map (·.2)) parts slot') {hint hint' : Option (Hint σ)}
    (hinted : Store.Hinted rules parts hint) (hinted' : Store.Hinted rules parts hint') :
    Mirrors split rules ts (Attempt.update (Engine.learnHint slot hint))
      (Attempt.update (Engine.learnHint slot' hint')) := by
  intro s s' alike
  obtain ⟨context, sink, _⟩ := Engine.learnHint_unchanged slot hint s
  obtain ⟨context', sink', _⟩ := Engine.learnHint_unchanged slot' hint' s'
  refine ⟨rfl, ?_, ?_, ?_, alike.store.learnHint slotted slotted' hinted hinted'⟩ <;>
    simp only [Attempt.update]
  · rw [context', context, alike.context]
  · rw [sink', sink, alike.sink]
  · rw [context]
    exact alike.scopes

/-- The output of a lambda is compiled to twins. -/
theorem compileOneOff (engines : e.Agree e' rules) {origin : Origin} {tag source : String}
    {f f' : Template → Exec σ α}
    (hf : ∀ t t', Template.Twins t t' → Mirrors e.split rules ((t, t') :: ts) (f t) (f' t')) :
    Mirrors e.split rules ts (Exec.onStore (e.compileOneOff origin tag source) >>= f)
      (Exec.onStore (e'.compileOneOff origin tag source) >>= f') := by
  intro s s' alike
  have oneOffs := alike.store.oneOffs
  cases tree : Tree.ofSource (Engine.oneOffName origin s.store.oneOffs) source e.split with
  | error fault =>
    have tree' : Tree.ofSource (Engine.oneOffName origin s'.store.oneOffs) source e'.split =
        .error fault := by rw [oneOffs, engines.split, tree]
    rw [Exec.onStore_of_error (e.compileOneOff_of_fault tree tag),
      Exec.onStore_of_error (e'.compileOneOff_of_fault tree' tag), oneOffs]
    refine ⟨rfl, alike.context, alike.sink, alike.scopes, alike.store.isOpen, alike.store.locators,
      rfl, ?_, ?_⟩
    · exact alike.store.recalls.of_eq rfl rfl rfl rfl rfl
    · exact alike.store.recalls'.of_eq rfl rfl rfl rfl rfl
  | ok segments =>
    have tree' : Tree.ofSource (Engine.oneOffName origin s'.store.oneOffs) source e'.split =
        .ok segments := by rw [oneOffs, engines.split, tree]
    rw [Exec.onStore_of_ok (e.compileOneOff_of_ok tree tag),
      Exec.onStore_of_ok (e'.compileOneOff_of_ok tree' tag)]
    have twins : Template.Twins
        ⟨s.store.compiled, Engine.oneOffName origin s.store.oneOffs, segments⟩
        ⟨s'.store.compiled, Engine.oneOffName origin s'.store.oneOffs, segments⟩ :=
      ⟨by rw [oneOffs], rfl⟩
    refine forget (hf _ _ twins _ _ ⟨alike.context, alike.sink, alike.scopes, alike.store.isOpen,
      alike.store.locators, ?_, ?_, ?_⟩) fun p member => List.mem_cons_of_mem _ member
    · exact congrArg (· + 1) oneOffs
    · exact alike.store.recalls.compiled tree rfl rfl rfl rfl rfl
    · exact alike.store.recalls'.compiled (engines.split ▸ tree') rfl rfl rfl rfl rfl

theorem getTemplate (engines : e.Agree e' rules) {name : String}
    {f f' : Option Template → Exec σ α} (unknown : Mirrors e.split rules ts (f none) (f' none))
    (known : ∀ t t', Template.Twins t t' →
      Mirrors e.split rules ((t, t') :: ts) (f (some t)) (f' (some t'))) :
    Mirrors e.split rules ts (Exec.onStore (e.getTemplate name) >>= f)
      (Exec.onStore (e'.getTemplate name) >>= f') := by
  intro s s' alike
  have loads := Engine.getTemplate_twins engines.split name alike.store
  rcases ran : e.getTemplate name s.store with ⟨r, store⟩
  rcases ran' : e'.getTemplate name s'.store with ⟨r', store'⟩
  rw [ran, ran'] at loads
  cases loads with
  | failed err after =>
    rw [Exec.onStore_of_error ran, Exec.onStore_of_error ran']
    exact ⟨rfl, alike.context, alike.sink, alike.scopes, after⟩
  | unknown after =>
    rw [Exec.onStore_of_ok ran, Exec.onStore_of_ok ran']
    exact unknown { s with store } { s' with store := store' }
      ⟨alike.context, alike.sink, alike.scopes, after⟩
  | @known t t' _ _ twins after =>
    rw [Exec.onStore_of_ok ran, Exec.onStore_of_ok ran']
    exact forget (known t t' twins { s with store } { s' with store := store' }
      ⟨alike.context, alike.sink, alike.scopes, after⟩) fun p member => List.mem_cons_of_mem _ member

end Exec.Mirrors

namespace Engine

variable {e e' : Engine σ} {rules : Rules σ}
  {ts : List (Template × Template)}

def mirror (e : Engine σ) (rules : Rules σ) (ts : List (Template × Template)) :
    Likeness σ where
  rel := Exec.Mirrors e.split rules ts
  asked parts slot slot' :=
    Store.Slotted (ts.map (·.1)) parts slot ∧ Store.Slotted (ts.map (·.2)) parts slot'
  same := Found.Same rules
  fit v := v.Conforms rules.names

/-- Every step of the renderer does alike in both engines. -/
theorem mirror_kept (engines : e.Agree e' rules) (ts : List (Template × Template)) :
    Pairing (e.mirror rules ts) e e' where
  missing := engines.missing
  support := engines.support
  skipEscaping := engines.skipEscaping
  same_value same := same.value
  same_fit same value := same.conforms _ value
  fit_item fit member := by
    cases fit with
    | list h => exact h _ member
  pure := Exec.Mirrors.pure
  bind := Exec.Mirrors.bind
  fail _ := Exec.Mirrors.fail _
  endless _ := Exec.Mirrors.fail _
  write := Exec.Mirrors.write
  captured := Exec.Mirrors.captured
  item fit hx := hx.withScope fit []
  lookup asked consumed := Exec.Mirrors.lookup engines asked.1 asked.2 consumed
  learn asked same := Exec.Mirrors.learnHint asked.1 asked.2 same.hinted same.hinted'

/-- The slot of a value tag of a template is one of its slots. -/
theorem slotted_slot? {t : Template} {tag : ValueTag} {ts : List Template} (member : t ∈ ts)
    (within : tag ∈ t.valueTags) : Store.Slotted ts tag.parts (e.slot? t.instanceId tag) := by
  intro place given
  unfold slot? at given
  split at given
  · cases given
    exact ⟨t, member, tag, within, rfl, rfl⟩
  · cases given

/-- The templates that twins nest are twins as well, made on the way: `ts` grows. -/
theorem nests_mirrors (engines : e.Agree e' rules) {inner inner' : Template → Exec σ Unit}
    (within : ∀ {ts t t'}, t.Twins t' → (t, t') ∈ ts → Exec.Mirrors e.split rules ts (inner t) (inner' t')) :
    Pairing.Nests (e.mirror rules ts) e e' inner inner' where
  asked_none _ := by constructor <;> rintro place ⟨⟩
  oneOff origin tag source := by
    refine Exec.Mirrors.compileOneOff engines fun u u' twins => ?_
    rw [engines.nestingLimit]
    exact (within twins List.mem_cons_self).nested
  inclusion name origin := by
    refine Exec.Mirrors.getTemplate engines (.fail _) fun u u' twins => ?_
    show Exec.Mirrors _ _ _ (Exec.nested _ u.name _) (Exec.nested _ u'.name _)
    rw [engines.nestingLimit, twins.name]
    exact (within twins List.mem_cons_self).nested

theorem nestedIn_mirrors (engines : e.Agree e' rules) (depth : Nat) {ts : List (Template × Template)}
    {t t' : Template} (twins : t.Twins t') (member : (t, t') ∈ ts) :
    Exec.Mirrors e.split rules ts (e.nestedIn depth t) (e'.nestedIn depth t') := by
  induction depth generalizing t t' ts with
  | zero => exact .fail _
  | succ depth ih =>
    rw [nestedIn, nestedIn, twins.segments]
    refine (mirror_kept engines ts).runAll (nests_mirrors engines ih) t.instanceId t'.instanceId
      t.segments ?_
    intro tag within
    have within' : tag ∈ t'.valueTags := by
      rw [Template.valueTags, twins.segments]
      exact within
    exact ⟨slotted_slot? (List.mem_map.mpr ⟨_, member, rfl⟩) within,
      slotted_slot? (List.mem_map.mpr ⟨_, member, rfl⟩) within'⟩

theorem execute_mirrors (engines : e.Agree e' rules) {t t' : Template} (twins : t.Twins t')
    (member : (t, t') ∈ ts) {s s' : Render.State σ} (fresh : s.context.nesting = .empty)
    (alike : s.Alike e.split rules ts s') :
    (e'.execute t' s').1 = (e.execute t s).1 ∧
      (e.execute t s).2.Alike e.split rules ts (e'.execute t' s').2 := by
  have fresh' : s'.context.nesting = .empty := by
    rw [alike.context]
    exact fresh
  -- The engines may know different numbers of templates. A depth that does for both makes up for it.
  let depth := max (e.depthBound t.name s.store) (e'.depthBound t'.name s'.store)
  rw [← (executeWithin_agrees fresh (Nat.le_max_left _ _ : _ ≤ depth)).1,
    ← (executeWithin_agrees fresh' (Nat.le_max_right _ _ : _ ≤ depth)).1]
  unfold executeWithin
  rw [engines.nestingLimit, twins.name]
  exact (nestedIn_mirrors engines depth twins member).nested s s' alike

theorem startContext_conforms {data : Value} (conforms : data.Conforms rules.names) :
    ∀ scope ∈ (startContext data : Context σ).scopes, scope.value.Conforms rules.names := by
  intro scope within
  unfold startContext at within
  split at within
  · cases within
  · obtain rfl := List.mem_singleton.mp within
    exact conforms

theorem renderTo_mirrors (engines : e.Agree e' rules) {t t' : Template} (twins : t.Twins t')
    (member : (t, t') ∈ ts) {data : Value} (conforms : data.Conforms rules.names) (sink : Sink)
    {store store' : Store σ} (alike : store.Alike e.split rules ts store') :
    (e'.renderTo t' data sink store').1 = (e.renderTo t data sink store).1 ∧
      (e'.renderTo t' data sink store').2.1 = (e.renderTo t data sink store).2.1 ∧
      (e.renderTo t data sink store).2.2.Alike e.split rules ts (e'.renderTo t' data sink store').2.2 := by
  unfold renderTo
  rw [alike.isOpen]
  split
  · have started : Render.State.Alike e.split rules ts ⟨store, startContext data, sink⟩
        ⟨store', startContext data, sink⟩ :=
      ⟨rfl, rfl, startContext_conforms conforms, alike⟩
    obtain ⟨same, context, sink, _, stores⟩ :=
      execute_mirrors engines twins member (startContext_nesting data) started
    refine ⟨same, sink, ?_⟩
    simp only [context]
    exact stores.close _
  · rw [twins.name]
    exact ⟨rfl, rfl, alike⟩

end Engine

end Logicless
