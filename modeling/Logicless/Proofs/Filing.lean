import Logicless.Proofs.Memory

/-!
# What hints are filed under

A hint is filed under the template instance and the place of the value tag that it was learned for.
Whatever an engine does, hints are only filed for value tags that may be hinted
(`Engine.performAll_filed`).
-/

namespace Logicless

variable {σ : Type}

theorem Engine.slot?_some {e : Engine σ} {slot : Slot} {id : Nat} {tag : ValueTag}
    (place : e.slot? id tag = some slot) :
    e.config.hintsEnabled = true ∧ (∃ name, tag.parts = [name]) ∧ slot = ⟨id, tag.origin.index⟩ := by
  unfold slot? at place
  split at place
  · next hinted =>
    rw [Bool.and_eq_true, beq_iff_eq] at hinted
    obtain ⟨enabled, single⟩ := hinted
    exact ⟨enabled, List.length_eq_one_iff.mp single, (Option.some.inj place).symm⟩
  · cases place

/-- What has been compiled, in order, when the store has come to be. The cache holds no other templates,
and the hints are those of value tags that may be hinted. -/
structure Store.Filed (e : Engine σ) (made : List (List Segment)) (store : Store σ) : Prop where
  counted : store.compiled = made.length
  distinct : ∀ segments ∈ made, ∀ tag ∈ Segment.valueTagsOf segments,
    ∀ tag' ∈ Segment.valueTagsOf segments, tag.origin.index = tag'.origin.index → tag = tag'
  cached : store.Holds fun _ t => t.Made made
  hinted : ∀ slot h, store.hint? slot = some h → ∃ segments, made[slot.instanceId]? = some segments ∧
    ∃ tag ∈ Segment.valueTagsOf segments, e.slot? slot.instanceId tag = some slot

namespace Store

theorem hint?_of_eq {s t : Store σ} (same : t.hints = s.hints) (slot : Slot) :
    t.hint? slot = s.hint? slot := by
  simp only [hint?, same]

theorem hint?_learned {s : Store σ} {slot place : Slot} {h : Hint σ} :
    ({ s with hints := (place, h) :: s.hints } : Store σ).hint? slot =
      if slot = place then some h else s.hint? slot := by
  by_cases same : slot = place
  · simp [hint?, same]
  · simp [hint?, List.lookup_cons, same, beq_false_of_ne same]

namespace Filed

variable {e : Engine σ} {made : List (List Segment)} {store store' : Store σ}

theorem of_eq (h : store.Filed e made) (compiled : store'.compiled = store.compiled)
    (templates : store'.templates = store.templates) (hints : store'.hints = store.hints) :
    store'.Filed e made := by
  refine ⟨compiled.trans h.counted, h.distinct, fun shelf on => h.cached shelf (templates ▸ on), ?_⟩
  intro slot hint held
  rw [hint?_of_eq hints] at held
  exact h.hinted slot hint held

theorem undisturbed (h : store.Filed e made) (same : store.Undisturbed store') : store'.Filed e made :=
  h.of_eq same.compiled same.templates same.hints

theorem compiled (h : store.Filed e made) (store' : Store σ) {name source : String} {segments : List Segment}
    (tree : Tree.ofSource name source e.split = .ok segments)
    (counted : store'.compiled = store.compiled + 1) (templates : store'.templates = store.templates)
    (hints : store'.hints = store.hints) :
    store'.Filed e (made ++ [segments]) ∧
      Template.Made (made ++ [segments]) ⟨store.compiled, name, segments⟩ := by
  refine ⟨⟨?_, ?_, ?_, ?_⟩, ?_⟩
  · rw [counted, h.counted, List.length_append]
    rfl
  · intro other member
    rcases List.mem_append.mp member with member | member
    · exact h.distinct other member
    · obtain rfl := List.mem_singleton.mp member
      exact fun tag within tag' within' same => Tree.eq_of_index_eq tree within within' same
  · intro shelf on entry member t value
    exact (h.cached shelf (templates ▸ on) entry member t value).append [segments]
  · intro slot hint held
    rw [hint?_of_eq hints] at held
    obtain ⟨other, found, tagged⟩ := h.hinted slot hint held
    obtain ⟨bound, _⟩ := List.getElem?_eq_some_iff.mp found
    refine ⟨other, ?_, tagged⟩
    rw [List.getElem?_append_left bound]
    exact found
  · rw [h.counted]
    exact Template.made_last name segments

/-- The cache forgets templates, or takes up some of those that have been compiled. -/
theorem cache (h : store.Filed e made) {shelf shelf' : Shelf σ String (Option Template)}
    {added : Entry String (Held (Option Template)) → Prop} (on : store.templates = some shelf)
    (updated : shelf.Updated shelf' added)
    (right : ∀ entry, added entry → ∀ t, entry.value = .own (some t) → t.Made made) :
    (store.putTemplates shelf').Filed e made := by
  refine ⟨h.counted, h.distinct, ?_, h.hinted⟩
  rintro _ ⟨⟩ entry member t value
  rcases updated.entries entry member with old | new
  · exact h.cached shelf on entry old t value
  · exact right entry new t value

theorem emptied (h : store.Filed e made) (emptied : store.Emptied store') : store'.Filed e made := by
  refine ⟨emptied.compiled.trans h.counted, h.distinct, fun shelf' on entry member t value => ?_, ?_⟩
  · obtain ⟨shelf, held, updated⟩ := emptied.templates shelf' on
    rcases updated.entries entry member with old | new
    · exact h.cached shelf held entry old t value
    · exact new.elim
  · intro slot hint held
    rw [hint?_of_eq emptied.hints] at held
    exact h.hinted slot hint held

theorem learned (h : store.Filed e made) {t : Template} (known : t.Made made) {tag : ValueTag}
    (member : tag ∈ t.valueTags) {slot : Slot} (place : e.slot? t.instanceId tag = some slot)
    (hint : Hint σ) : ({ store with hints := (slot, hint) :: store.hints } : Store σ).Filed e made := by
  refine ⟨h.counted, h.distinct, h.cached, fun slot' hint' held => ?_⟩
  rw [hint?_learned] at held
  split at held
  · next same =>
    subst same
    obtain ⟨_, _, rfl⟩ := Engine.slot?_some place
    exact ⟨t.segments, known, tag, member, place⟩
  · exact h.hinted slot' hint' held

/-- No hint is filed for a tag that may not be hinted. -/
theorem unhinted (h : store.Filed e made) {t : Template} (known : t.Made made) {tag : ValueTag}
    (member : tag ∈ t.valueTags) (none : e.slot? t.instanceId tag = none) :
    store.hint? ⟨t.instanceId, tag.origin.index⟩ = .none := by
  cases held : store.hint? ⟨t.instanceId, tag.origin.index⟩ with
  | none => rfl
  | some hint =>
    obtain ⟨segments, found, tag', member', place⟩ := h.hinted _ hint held
    obtain rfl : t.segments = segments := Option.some.inj (known.symm.trans found)
    obtain ⟨_, _, same⟩ := Engine.slot?_some place
    have same : tag.origin.index = tag'.origin.index := congrArg Slot.index same
    obtain rfl := h.distinct t.segments (List.mem_of_getElem? known) tag member tag' member' same
    rw [none] at place
    cases place

end Filed

end Store

namespace Engine

open Render (Point)

variable (e : Engine σ) {made : List (List Segment)}

/-! ### Compilation -/

theorem compileOneOff_filed (origin : Origin) (tag source : String) {store : Store σ}
    (filed : store.Filed e made) : ∃ more,
      (e.compileOneOff origin tag source store).2.Filed e (made ++ more) ∧
        ∀ t, (e.compileOneOff origin tag source store).1 = .ok t → t.Made (made ++ more) := by
  cases tree : Tree.ofSource (oneOffName origin store.oneOffs) source e.split with
  | ok segments =>
    rw [e.compileOneOff_of_ok tree]
    obtain ⟨filed, last⟩ := filed.compiled
      { store with oneOffs := store.oneOffs + 1, compiled := store.compiled + 1 } tree rfl rfl rfl
    refine ⟨[segments], filed, ?_⟩
    rintro _ ⟨⟩
    exact last
  | error fault =>
    rw [e.compileOneOff_of_fault tree]
    refine ⟨[], ?_, nofun⟩
    rw [List.append_nil]
    exact filed.of_eq rfl rfl rfl

theorem load_filed (name : String) {store : Store σ} (filed : store.Filed e made) : ∃ more,
    (e.load name store).2.Filed e (made ++ more) ∧
      ∀ t, (e.load name store).1 = .ok (some t) → t.Made (made ++ more) := by
  have consulted : (store.consult name).Filed e (made ++ []) := by
    rw [List.append_nil]
    exact filed.of_eq rfl rfl rfl
  cases given : content e.split store.locators name with
  | error err =>
    rw [e.load_of_error given]
    exact ⟨[], consulted, nofun⟩
  | ok found =>
    cases found with
    | none =>
      rw [e.load_of_none given]
      exact ⟨[], consulted, nofun⟩
    | some segments =>
      obtain ⟨source, tree⟩ := content_tree given
      rw [e.load_of_some given]
      obtain ⟨filed, last⟩ := filed.compiled
        { store.consult name with compiled := store.compiled + 1 } tree rfl rfl rfl
      refine ⟨[segments], filed, ?_⟩
      rintro _ ⟨⟩
      exact last

theorem getTemplate_filed (name : String) {store : Store σ} (filed : store.Filed e made) : ∃ more,
    (e.getTemplate name store).2.Filed e (made ++ more) ∧
      ∀ t, (e.getTemplate name store).1 = .ok (some t) → t.Made (made ++ more) := by
  have gets := e.gets name store
  generalize e.getTemplate name store = out at gets ⊢
  cases gets with
  | loaded r store' _ ran =>
    have loaded := e.load_filed name filed
    rwa [ran] at loaded
  | stored r shelf shelf' before after store' on ran updated =>
    have hosted : ({ store with host := before } : Store σ).Filed e made := filed.of_eq rfl rfl rfl
    have templates := (e.load_carried name { store with host := before }).2.1
    obtain ⟨more, filed, known⟩ := e.load_filed name hosted
    rw [ran] at filed known templates
    have hosted : ({ store' with host := after } : Store σ).Filed e (made ++ more) :=
      filed.of_eq rfl rfl rfl
    refine ⟨more, hosted.cache (templates.trans on) updated ?_, known⟩
    rintro entry ⟨_, found, returned, value⟩ t own
    rw [value] at own
    cases own
    exact known t returned
  | answered r shelf shelf' host on answers updated =>
    have hosted : ({ store with host } : Store σ).Filed e made := filed.of_eq rfl rfl rfl
    refine ⟨[], ?_, fun t got => ?_⟩
    · rw [List.append_nil]
      refine hosted.cache on updated ?_
      rintro entry ⟨_, foreign⟩ t own
      rw [foreign] at own
      cases own
    · rw [List.append_nil]
      have got : r = .ok (some t) := got
      rw [got] at answers
      cases answers with
      | held entry _ member same value => exact filed.cached shelf on entry member t value

/-! ### Executions -/

/-- From a store that knows the template to one that has perhaps compiled more, and files hints right. -/
def Files (t : Template) (s s' : Store σ) : Prop :=
  ∀ made, s.Filed e made → t.Made made → ∃ more, s'.Filed e (made ++ more)

def Belongs (t : Template) (slot : Option Slot) : Prop :=
  ∀ place, slot = some place → ∃ tag ∈ t.valueTags, e.slot? t.instanceId tag = some place

theorem files_moves (t : Template) : e.Moves (e.Files t) where
  trans first second made filed known := by
    obtain ⟨more, filed⟩ := first made filed known
    obtain ⟨more', filed⟩ := second _ filed (known.append more)
    exact ⟨more ++ more', by rwa [← List.append_assoc]⟩
  looked same made filed _ := ⟨[], by rw [List.append_nil]; exact filed.undisturbed same⟩
  compiled origin tag source s made filed _ :=
    let ⟨more, filed, _⟩ := e.compileOneOff_filed origin tag source filed
    ⟨more, filed⟩

theorem learnHint_files {t : Template} {slot : Option Slot} (belongs : e.Belongs t slot)
    (hint : Option (Hint σ)) (s : Render.State σ) : e.Files t s.store (learnHint slot hint s).store := by
  intro made filed known
  refine ⟨[], ?_⟩
  rw [List.append_nil]
  rcases learnHint_cases slot hint s with same | ⟨place, h, at_place, _, _, learned⟩
  · rwa [same]
  · rw [learned]
    obtain ⟨tag, member, here⟩ := belongs place at_place
    exact filed.learned known member here h

theorem files_kept (t : Template) : Pairing (along (e.Files t) (e.Belongs t)) e e :=
  (e.files_moves t).kept fun _ hint s belongs => e.learnHint_files belongs hint s

variable {e}

theorem files_nests {inner : Template → Exec σ Unit} (within : ∀ u, (inner u).Along (e.Files u))
    (t : Template) : Pairing.Nests (along (e.Files t) (e.Belongs t)) e e inner inner where
  asked_none _ := nofun
  oneOff origin tag source s made filed known := by
    obtain ⟨more, filed', last⟩ := e.compileOneOff_filed origin tag source filed
    unfold renderOneOff
    rcases ran : e.compileOneOff origin tag source s.store with ⟨err | u, store⟩
    · rw [ran] at filed'
      rw [Exec.onStore_of_error ran]
      exact ⟨more, filed'⟩
    · rw [ran] at filed' last
      rw [Exec.onStore_of_ok ran]
      obtain ⟨more', filed⟩ := (e.files_moves u).nested e.config.nestingLimit oneOffNesting (within u)
        { s with store } _ filed' (last u rfl)
      exact ⟨more ++ more', by rwa [← List.append_assoc]⟩
  inclusion name origin s made filed known := by
    obtain ⟨more, filed', last⟩ := e.getTemplate_filed name filed
    unfold runInclusion
    rcases ran : e.getTemplate name s.store with ⟨err | _ | u, store⟩
    · rw [ran] at filed'
      rw [Exec.onStore_of_error ran]
      exact ⟨more, filed'⟩
    · rw [ran] at filed'
      rw [Exec.onStore_of_ok ran]
      exact ⟨more, filed'⟩
    · rw [ran] at filed' last
      rw [Exec.onStore_of_ok ran]
      obtain ⟨more', filed⟩ := (e.files_moves u).nested e.config.nestingLimit u.name (within u)
        { s with store } _ filed' (last u rfl)
      exact ⟨more ++ more', by rwa [← List.append_assoc]⟩

theorem belongs_of_mem {t : Template} {tag : ValueTag} (member : tag ∈ t.valueTags) :
    e.Belongs t (e.slot? t.instanceId tag) :=
  fun _ place => ⟨tag, member, place⟩

/-- By induction on how deep templates nest. -/
theorem nestedIn_files (depth : Nat) (t : Template) : (e.nestedIn depth t).Along (e.Files t) := by
  induction depth generalizing t with
  | zero => exact (e.files_moves t).still fun _ => rfl
  | succ depth ih =>
    exact (e.files_kept t).runAll (files_nests ih t) t.instanceId t.instanceId t.segments
      fun _ => belongs_of_mem

/-! ### Points -/

/-- What is executed at the point is part of a template that has been compiled. -/
structure FiledAt (e : Engine σ) (p : Point σ) (t : Template) (made : List (List Segment)) : Prop where
  filed : p.state.store.Filed e made
  known : t.Made made
  same : p.instanceId = t.instanceId
  part : ∀ tag ∈ Segment.valueTagsOf p.segments, tag ∈ t.valueTags

variable {p q : Point σ} {t : Template}

theorem runAll_files (depth : Nat) {segments : List Segment}
    (part : ∀ tag ∈ Segment.valueTagsOf segments, tag ∈ t.valueTags) :
    (e.runAll (e.nestedIn depth) t.instanceId segments).Along (e.Files t) :=
  (e.files_kept t).runAll (files_nests (nestedIn_files depth) t) t.instanceId t.instanceId segments
    fun tag member => belongs_of_mem (part tag member)

theorem run_files (depth : Nat) {segment : Segment}
    (part : ∀ tag ∈ segment.valueTags, tag ∈ t.valueTags) :
    (e.run (e.nestedIn depth) t.instanceId segment).Along (e.Files t) :=
  (e.files_kept t).run (files_nests (nestedIn_files depth) t) t.instanceId t.instanceId segment
    fun tag member => belongs_of_mem (part tag member)

theorem forEachItem_files (depth : Nat) {segments : List Segment} (items : List Value)
    (part : ∀ tag ∈ Segment.valueTagsOf segments, tag ∈ t.valueTags) :
    (forEachItem (e.runAll (e.nestedIn depth) t.instanceId segments) items).Along (e.Files t) := by
  have body : (along (e.Files t) (e.Belongs t)).rel (e.runAll (e.nestedIn depth) t.instanceId segments)
      (e.runAll (e.nestedIn depth) t.instanceId segments) := runAll_files depth part
  exact (e.files_kept t).forEachItem body fun _ _ => trivial

theorem FiledAt.on (here : e.FiledAt p t made) (same : q.instanceId = p.instanceId)
    (part : ∀ tag ∈ Segment.valueTagsOf q.segments, tag ∈ Segment.valueTagsOf p.segments)
    (files : e.Files t p.state.store q.state.store) : ∃ more, e.FiledAt q t (made ++ more) := by
  obtain ⟨more, filed⟩ := files made here.filed here.known
  exact ⟨more, filed, here.known.append more, same.trans here.same,
    fun tag member => here.part tag (part tag member)⟩

theorem FiledAt.output (here : e.FiledAt p t made) {origin : Origin} {tag output : String}
    {u : Render.State σ} {t' : Template} {store : Store σ} {depth : Nat} {sink : Sink}
    (enters : e.EntersOutput origin tag output u t' store) (files : e.Files t p.state.store u.store) :
    ∃ made, e.FiledAt (entry depth t' oneOffNesting { u with store, sink }) t' made := by
  obtain ⟨more, filed⟩ := files made here.filed here.known
  obtain ⟨more', filed, known⟩ := e.compileOneOff_filed origin tag output filed
  rw [enters.compiled] at filed known
  exact ⟨_, filed, known t' rfl, rfl, fun _ => id⟩

/-- Each step leads to a part of a template that has been compiled. -/
theorem FiledAt.step (here : e.FiledAt p t made) (step : e.Step true p q) :
    ∃ t made, e.FiledAt q t made := by
  have moves := e.files_moves t
  have stays (same : q.instanceId = p.instanceId)
      (part : ∀ tag ∈ Segment.valueTagsOf q.segments, tag ∈ Segment.valueTagsOf p.segments)
      (files : e.Files t p.state.store q.state.store) : ∃ t made, e.FiledAt q t made :=
    let ⟨more, there⟩ := here.on same part files
    ⟨t, made ++ more, there⟩
  have same := here.same
  cases step with
  | @next _ depth id segment rest s _ ran =>
    obtain rfl : id = t.instanceId := same
    have moved := run_files (e := e) depth (fun tag member => here.part tag (List.mem_append_left _ member)) s
    rw [ran] at moved
    exact stays rfl (fun _ member => List.mem_append_right _ member) moved
  | scope _ sees _ _ _ => exact stays rfl Segment.valueTagsOf_children (moves.sees sees)
  | @item _ depth id _ below _ s _ store before _ _ _ _ sees _ ran =>
    obtain rfl : id = t.instanceId := same
    have moved := forEachItem_files (e := e) depth before
      (fun tag member => here.part tag (Segment.valueTagsOf_children tag member)) { s with store }
    rw [ran] at moved
    exact stays rfl Segment.valueTagsOf_children (moves.trans (moves.sees sees) moved)
  | @inverted _ _ _ _ _ _ s found store _ sees _ =>
    have released := moves.silent (silent_release found { s with store })
    exact stays rfl Segment.valueTagsOf_children (moves.trans (moves.sees sees) released)
  | @inclusion _ depth _ name _ _ s u store got _ =>
    obtain ⟨more, filed, known⟩ := e.getTemplate_filed name here.filed
    rw [got] at filed known
    exact ⟨u, _, filed, known u rfl, rfl, fun _ => id⟩
  | @output _ depth id tag below _ s found store l input u output t' store' _ sees _ given _ enters =>
    obtain rfl : id = t.instanceId := same
    have body : (e.runAll (e.nestedIn (depth + 1)) t.instanceId below).Along (e.Files t) :=
      runAll_files (depth + 1) fun tag member => here.part tag (Segment.valueTagsOf_children tag member)
    obtain ⟨made, there⟩ := here.output enters (moves.trans (moves.sees sees) (moves.given body given))
    exact ⟨t', made, there⟩
  | input _ sees _ _ => exact stays rfl Segment.valueTagsOf_children (moves.sees sees)
  | @value depth id tag rest s found store l u output t' store' sees produces _ enters =>
    obtain rfl : id = t.instanceId := same
    have belongs : e.Belongs t (e.slot? t.instanceId tag) :=
      belongs_of_mem (here.part tag (List.mem_append_left _ (List.mem_singleton_self tag)))
    obtain ⟨made, there⟩ := here.output enters (moves.trans (moves.sees sees)
      (moves.produces (fun hint s => e.learnHint_files belongs hint s) produces))
    exact ⟨t', made, there⟩

theorem FiledAt.reaches (here : e.FiledAt p t made) (reaches : e.Reaches true p q) :
    ∃ t made, e.FiledAt q t made := by
  induction reaches with
  | refl => exact ⟨t, made, here⟩
  | tail _ step ih =>
    obtain ⟨_, _, there⟩ := ih
    exact there.step step

/-! ### Sessions -/

theorem renderTo_files (t : Template) (data : Value) (sink : Sink) (store : Store σ) :
    e.Files t store (e.renderTo t data sink store).2.2 :=
  (e.files_moves t).renderTo (fun depth => nestedIn_files depth t) data sink store

theorem startPoint_filedAt {store : Store σ} (filed : store.Filed e made) (known : t.Made made)
    (data : Value) (sink : Sink) : e.FiledAt (e.startPoint t data sink store) t made :=
  ⟨filed, known, rfl, fun _ => id⟩

def performAll (e : Engine σ) (operations : List Operation) (s : Session σ) : Session σ :=
  operations.foldl (fun s operation => (e.perform s operation).2) s

theorem observations_append (e : Engine σ) (before after : List Operation) (s : Session σ) :
    e.observations (before ++ after) s =
      e.observations before s ++ e.observations after (e.performAll before s) := by
  induction before generalizing s with
  | nil => rfl
  | cons operation rest ih => exact congrArg _ (ih _)

/-- What holds from a store to what the renderer makes of it, holds in a session, if compiling and
emptying caches keep it. -/
theorem Carries.perform {R : Store σ → Store σ → Prop} (c : e.Carries R)
    (compiled : ∀ s : Store σ, R s { s with compiled := s.compiled + 1 })
    (emptied : ∀ {s t : Store σ}, s.Emptied t → R s t) (s : Session σ) (operation : Operation) :
    R s.store (e.perform s operation).2.store := by
  cases operation with
  | compile name source =>
    simp only [Engine.perform]
    cases tree : Tree.ofSource name source e.split with
    | ok segments =>
      rw [e.compile_of_ok tree]
      exact compiled s.store
    | error fault =>
      rw [e.compile_of_fault tree]
      exact c.refl s.store
  | get name =>
    have got := c.got name s.store
    simp only [Engine.perform]
    generalize e.getTemplate name s.store = out at got ⊢
    obtain ⟨_ | _ | _, _⟩ := out <;> exact got
  | render index data limit =>
    simp only [Engine.perform]
    split
    · exact c.refl s.store
    · exact c.renderTo _ data (Sink.empty limit) s.store
  | forgetTemplates matching => exact emptied (Store.emptied_invalidateTemplates matching s.store)
  | forgetMembers matching =>
    simp only [Engine.perform]
    split
    · exact c.refl s.store
    · exact emptied (Store.emptied_invalidateMembers _ matching s.store)
  | wait nanos => exact emptied (Store.emptied_wait nanos s.store)

theorem Carries.performAll {R : Store σ → Store σ → Prop} (c : e.Carries R)
    (compiled : ∀ s : Store σ, R s { s with compiled := s.compiled + 1 })
    (emptied : ∀ {s t : Store σ}, s.Emptied t → R s t) (s : Session σ) (operations : List Operation) :
    R s.store (e.performAll operations s).store := by
  induction operations generalizing s with
  | nil => exact c.refl s.store
  | cons operation rest ih => exact c.trans (c.perform compiled emptied s operation) (ih _)

end Engine

def Session.Filed (e : Engine σ) (s : Session σ) : Prop :=
  ∃ made, s.store.Filed e made ∧ ∀ t ∈ s.templates, t.Made made

namespace Engine

variable {e : Engine σ} {s : Session σ}

theorem filed_obtained {made more : List (List Segment)} {store : Store σ} {t : Template}
    (filed : store.Filed e (made ++ more)) (known : ∀ t ∈ s.templates, t.Made made)
    (last : t.Made (made ++ more)) : Session.Filed e ⟨store, s.templates ++ [t]⟩ := by
  refine ⟨made ++ more, filed, fun t' member => ?_⟩
  rcases List.mem_append.mp member with member | member
  · exact (known t' member).append more
  · obtain rfl := List.mem_singleton.mp member
    exact last

theorem perform_filed (filed : s.Filed e) (operation : Operation) :
    (e.perform s operation).2.Filed e := by
  obtain ⟨made, filed, known⟩ := filed
  have kept {more : List (List Segment)} : ∀ t ∈ s.templates, t.Made (made ++ more) :=
    fun t member => (known t member).append more
  cases operation with
  | compile name source =>
    simp only [perform]
    cases tree : Tree.ofSource name source e.split with
    | ok segments =>
      rw [e.compile_of_ok tree]
      obtain ⟨filed, last⟩ := filed.compiled
        { s.store with compiled := s.store.compiled + 1 } tree rfl rfl rfl
      exact filed_obtained filed known last
    | error fault =>
      rw [e.compile_of_fault tree]
      exact ⟨made, filed, known⟩
  | get name =>
    obtain ⟨more, filed, last⟩ := e.getTemplate_filed name filed
    simp only [perform]
    generalize e.getTemplate name s.store = out at filed last ⊢
    obtain ⟨_ | _ | t, store⟩ := out
    · exact ⟨_, filed, kept⟩
    · exact ⟨_, filed, kept⟩
    · exact filed_obtained filed known (last t rfl)
  | render index data limit =>
    simp only [perform]
    cases at_index : s.templates[index]? with
    | none => exact ⟨made, filed, known⟩
    | some t =>
      have member : t ∈ s.templates := List.mem_of_getElem? at_index
      obtain ⟨more, filed⟩ :=
        renderTo_files t data (Sink.empty limit) s.store made filed (known t member)
      exact ⟨_, filed, kept⟩
  | forgetTemplates matching =>
    exact ⟨made, filed.emptied (Store.emptied_invalidateTemplates matching s.store), known⟩
  | forgetMembers matching =>
    simp only [perform]
    split
    · exact ⟨made, filed, known⟩
    · exact ⟨made, filed.emptied (Store.emptied_invalidateMembers _ matching s.store), known⟩
  | wait nanos => exact ⟨made, filed.emptied (Store.emptied_wait nanos s.store), known⟩

theorem performAll_filed (filed : s.Filed e) (operations : List Operation) :
    (e.performAll operations s).Filed e := by
  induction operations generalizing s with
  | nil => exact filed
  | cons operation rest ih => exact ih (perform_filed filed operation)

end Engine

namespace Blueprint

open Engine

theorem precompile_filed {e : Engine σ} {names : List String} {s t : Store σ} {r : Except Error Unit}
    (ran : precompile e names s = (r, t)) (made : List (List Segment)) (filed : s.Filed e made) :
    ∃ made, t.Filed e made := by
  induction names generalizing s made with
  | nil =>
    cases ran
    exact ⟨made, filed⟩
  | cons name rest ih =>
    obtain ⟨more, got, _⟩ := e.getTemplate_filed name filed
    rw [precompile] at ran
    rcases looked : e.getTemplate name s with ⟨err | found, u⟩
    · rw [looked] at got
      rw [Attempt.bind_of_error looked] at ran
      cases ran
      exact ⟨_, got⟩
    · rw [looked] at got
      rw [Attempt.bind_of_ok looked] at ran
      exact ih ran _ got

/-- From the beginning on, hints are filed right. -/
theorem build_filed {b : Blueprint σ} {host : σ} {e : Engine σ} {start : Store σ}
    (built : b.build host = .ok (e, start)) : Session.Filed e ⟨start, []⟩ := by
  obtain ⟨_, resolved, allotted, precompiled⟩ := build_staged built
  have untouched := initResolvers_untouched resolved
  obtain ⟨nothing, hints, compiled⟩ :=
    allotCaches_empty untouched.templates allotted fun _ t => t.Made []
  obtain ⟨made, filed⟩ := precompile_filed precompiled [] <| by
    refine ⟨compiled.trans untouched.compiled, nofun, nothing, fun slot h held => ?_⟩
    rw [Store.hint?_of_eq (hints.trans untouched.hints)] at held
    cases held
  exact ⟨made, filed, nofun⟩

end Blueprint

end Logicless
