import Logicless.Proofs.Binding
import Logicless.Proofs.Loading
import Logicless.Proofs.Numbering
import Logicless.Proofs.Step

/-!
# What a store remembers

A store is faithful if all that it remembers is what it would find out again: the templates of its
cache are what the locators say, each hint is right for the tag of its slot, and positions of members
are those of the lists of members. Every operation keeps a store faithful.
-/

namespace Logicless

variable {σ : Type} {split : KeySplitter} {rules : Rules σ}
  {locators : List (Nat × Locator)} {made : List (List Segment)}

/-! ### Templates -/

def Template.Made (made : List (List Segment)) (t : Template) : Prop :=
  made[t.instanceId]? = some t.segments

theorem Template.Made.append {t : Template} (h : t.Made made) (more : List (List Segment)) :
    t.Made (made ++ more) := by
  obtain ⟨bound, _⟩ := List.getElem?_eq_some_iff.mp h
  rw [Template.Made, List.getElem?_append_left bound]
  exact h

theorem Template.made_last (name : String) (segments : List Segment) :
    Template.Made (made ++ [segments]) ⟨made.length, name, segments⟩ := by
  simp [Template.Made]

structure Located (split : KeySplitter) (locators : List (Nat × Locator)) (made : List (List Segment))
    (name : String) (found : Option Template) : Prop where
  content : Engine.content split locators name = .ok (found.map (·.segments))
  named : ∀ t, found = some t → t.name = name ∧ t.Made made

theorem Located.append {name : String} {found : Option Template}
    (h : Located split locators made name found) (segments : List Segment) :
    Located split locators (made ++ [segments]) name found :=
  ⟨h.content, fun t some => ⟨(h.named t some).1, (h.named t some).2.append [segments]⟩⟩

def Shelf.Loaded (split : KeySplitter) (rules : Rules σ) (locators : List (Nat × Locator))
    (made : List (List Segment)) (shelf : Shelf σ String (Option Template)) : Prop :=
  shelf.Keeps rules.mixedTemplates Engine.templatesConsumer (Located split locators made)

/-! ### Stores -/

namespace Store

def HintRight (rules : Rules σ) (made : List (List Segment)) (slot : Slot)
    (h : Hint σ) : Prop :=
  ∃ segments, made[slot.instanceId]? = some segments ∧
    ∀ tag ∈ Segment.valueTagsOf segments, tag.origin.index = slot.index →
      ∀ name, tag.parts = [name] → rules.right name h

/-- All that the store remembers is right. `made` lists the segments of all templates so far. -/
structure Faithful (split : KeySplitter) (rules : Rules σ) (made : List (List Segment))
    (store : Store σ) : Prop where
  counted : store.compiled = made.length
  distinct : ∀ segments ∈ made, ∀ tag ∈ Segment.valueTagsOf segments,
    ∀ tag' ∈ Segment.valueTagsOf segments, tag.origin.index = tag'.origin.index → tag = tag'
  hints : ∀ p ∈ store.hints, HintRight rules made p.1 p.2
  cached : rules.mixedTemplates = true → store.templates.isSome = true
  templates : ∀ shelf, store.templates = some shelf → shelf.Loaded split rules store.locators made
  members : store.Indexed rules

namespace Faithful

variable {store store' : Store σ}

theorem of_eq (h : store.Faithful split rules made) (counted : store'.compiled = store.compiled)
    (hints : store'.hints = store.hints) (templates : store'.templates = store.templates)
    (locators : store'.locators = store.locators) (members : store'.members = store.members) :
    store'.Faithful split rules made := by
  refine ⟨counted.trans h.counted, h.distinct, ?_, ?_, ?_, h.members.of_eq members⟩
  · rw [hints]
    exact h.hints
  · rw [templates]
    exact h.cached
  · rw [templates, locators]
    exact h.templates

/-- Lookups change positions of members alone. -/
theorem looked (h : store.Faithful split rules made) (same : store.Undisturbed store')
    (indexed : store'.Indexed rules) : store'.Faithful split rules made := by
  refine ⟨same.compiled.trans h.counted, h.distinct, ?_, ?_, ?_, indexed⟩
  · rw [same.hints]
    exact h.hints
  · rw [same.templates]
    exact h.cached
  · rw [same.templates, same.locators]
    exact h.templates

/-- One more template is made. -/
theorem compiled (h : store.Faithful split rules made) {name source : String} {segments : List Segment}
    (tree : Tree.ofSource name source split = .ok segments)
    (counted : store'.compiled = store.compiled + 1) (hints : store'.hints = store.hints)
    (templates : store'.templates = store.templates) (locators : store'.locators = store.locators)
    (members : store'.members = store.members) :
    store'.Faithful split rules (made ++ [segments]) := by
  refine ⟨?_, ?_, ?_, ?_, ?_, h.members.of_eq members⟩
  · rw [counted, h.counted, List.length_append]
    rfl
  · intro other member
    rcases List.mem_append.mp member with member | member
    · exact h.distinct other member
    · obtain rfl := List.mem_singleton.mp member
      exact fun tag within tag' within' same => Tree.eq_of_index_eq tree within within' same
  · rw [hints]
    intro p member
    obtain ⟨at_slot, found, right⟩ := h.hints p member
    obtain ⟨bound, _⟩ := List.getElem?_eq_some_iff.mp found
    refine ⟨at_slot, ?_, right⟩
    rw [List.getElem?_append_left bound]
    exact found
  · rw [templates]
    exact h.cached
  · rw [templates, locators]
    exact fun shelf on => (h.templates shelf on).mono fun _ _ located => located.append segments

/-- A hint that is right for a tag may be learned at the slot of the tag. -/
theorem learned (h : store.Faithful split rules made) {t : Template} (known : t.Made made)
    {tag : ValueTag} (member : tag ∈ t.valueTags) {name : String} (single : tag.parts = [name])
    {hint : Hint σ} (right : rules.right name hint) :
    ({ store with hints := (⟨t.instanceId, tag.origin.index⟩, hint) :: store.hints } : Store σ).Faithful
      split rules made := by
  refine ⟨h.counted, h.distinct, ?_, h.cached, h.templates, h.members.of_eq rfl⟩
  intro p within
  rcases List.mem_cons.mp within with rfl | within
  · refine ⟨t.segments, known, fun tag' member' same name' single' => ?_⟩
    have segments : t.segments ∈ made := List.mem_of_getElem? known
    obtain rfl := h.distinct _ segments tag' member' tag member same
    rw [single] at single'
    cases single'
    exact right
  · exact h.hints p within

theorem putTemplates (h : store.Faithful split rules made)
    {shelf : Shelf σ String (Option Template)} (loaded : shelf.Loaded split rules store.locators made) :
    (store.putTemplates shelf).Faithful split rules made := by
  refine ⟨h.counted, h.distinct, h.hints, fun _ => rfl, ?_, h.members.of_eq rfl⟩
  rintro _ ⟨⟩
  exact loaded

end Faithful

def Recalls (split : KeySplitter) (rules : Rules σ) (ts : List Template)
    (store : Store σ) : Prop :=
  ∃ made, store.Faithful split rules made ∧ ∀ t ∈ ts, t.Made made

variable {ts : List Template} {store store' : Store σ}

theorem Recalls.mono (h : store.Recalls split rules ts) {ts' : List Template}
    (fewer : ∀ t ∈ ts', t ∈ ts) : store.Recalls split rules ts' := by
  obtain ⟨made, faithful, known⟩ := h
  exact ⟨made, faithful, fun t member => known t (fewer t member)⟩

theorem Recalls.of_eq (h : store.Recalls split rules ts) (counted : store'.compiled = store.compiled)
    (hints : store'.hints = store.hints) (templates : store'.templates = store.templates)
    (locators : store'.locators = store.locators) (members : store'.members = store.members) :
    store'.Recalls split rules ts := by
  obtain ⟨made, faithful, known⟩ := h
  exact ⟨made, faithful.of_eq counted hints templates locators members, known⟩

/-- A slot to be asked or filled is that of a value tag with these parts, in one of the templates. -/
def Slotted (ts : List Template) (parts : List String) (slot : Option Slot) : Prop :=
  ∀ place, slot = some place → ∃ t ∈ ts, ∃ tag ∈ t.valueTags,
    place = ⟨t.instanceId, tag.origin.index⟩ ∧ tag.parts = parts

def Hinted (rules : Rules σ) (parts : List String) (hint : Option (Hint σ)) : Prop :=
  ∀ h, hint = some h → ∃ name, parts = [name] ∧ rules.right name h

theorem Recalls.filled (h : store.Recalls split rules ts) {parts : List String} {slot : Option Slot}
    (slotted : Slotted ts parts slot) :
    ∀ hint, (Engine.filled slot store).join = some hint → ∀ name, parts = [name] →
      rules.right name hint := by
  obtain ⟨made, faithful, known⟩ := h
  intro hint given name single
  cases slot with
  | none => cases given
  | some place =>
    obtain ⟨t, member, tag, within, same, parts⟩ := slotted place rfl
    have held : store.hints.lookup place = some hint := given
    obtain ⟨l₁, l₂, split, _⟩ := List.lookup_eq_some_iff.mp held
    obtain ⟨segments, found, right⟩ := faithful.hints (place, hint) (by rw [split]; simp)
    have made_t : made[t.instanceId]? = some t.segments := known t member
    rw [same, made_t] at found
    cases found
    exact right tag within (by rw [same]) name (parts.trans single)

theorem Recalls.learnHint {s : Render.State σ} (h : s.store.Recalls split rules ts)
    {parts : List String} {slot : Option Slot} (slotted : Slotted ts parts slot)
    {hint : Option (Hint σ)} (hinted : Hinted rules parts hint) :
    (Engine.learnHint slot hint s).store.Recalls split rules ts := by
  rcases Engine.learnHint_cases slot hint s with same | ⟨place, hint', at_slot, given, _, learned⟩
  · rw [same]
    exact h
  · obtain ⟨t, member, tag, within, rfl, rfl⟩ := slotted place at_slot
    obtain ⟨name, single, right⟩ := hinted hint' given
    obtain ⟨made, faithful, known⟩ := h
    rw [learned]
    exact ⟨made, faithful.learned (known t member) within single right, known⟩

theorem Recalls.looked (h : store.Recalls split rules ts) (same : store.Undisturbed store')
    (indexed : store'.Indexed rules) : store'.Recalls split rules ts := by
  obtain ⟨made, faithful, known⟩ := h
  exact ⟨made, faithful.looked same indexed, known⟩

theorem Recalls.compiled (h : store.Recalls split rules ts) {name source : String}
    {segments : List Segment} (tree : Tree.ofSource name source split = .ok segments)
    (counted : store'.compiled = store.compiled + 1) (hints : store'.hints = store.hints)
    (templates : store'.templates = store.templates) (locators : store'.locators = store.locators)
    (members : store'.members = store.members) :
    store'.Recalls split rules (⟨store.compiled, name, segments⟩ :: ts) := by
  obtain ⟨made, faithful, known⟩ := h
  refine ⟨made ++ [segments],
    faithful.compiled tree counted hints templates locators members, fun t member => ?_⟩
  rcases List.mem_cons.mp member with rfl | member
  · rw [faithful.counted]
    exact Template.made_last name segments
  · exact (known t member).append [segments]

end Store

/-! ### Loading -/

namespace Engine

variable {e : Engine σ} {ts : List Template} {name : String} {store : Store σ}

/-- How a request for a template ends in a store that remembers what is right: in what the name
stands for, and in a store that remembers the template with the others. -/
inductive Loads (e : Engine σ) (rules : Rules σ) (ts : List Template) (name : String)
    (store : Store σ) : Except Error (Option Template) × Store σ → Prop where
  | failed {err : Error} {store' : Store σ} (content : content e.split store.locators name = .error err)
      (recalls : store'.Recalls e.split rules ts) : Loads e rules ts name store (.error err, store')
  | unknown {store' : Store σ} (content : content e.split store.locators name = .ok none)
      (recalls : store'.Recalls e.split rules ts) : Loads e rules ts name store (.ok none, store')
  | known {t : Template} {store' : Store σ}
      (content : content e.split store.locators name = .ok (some t.segments)) (named : t.name = name)
      (recalls : store'.Recalls e.split rules (t :: ts)) :
      Loads e rules ts name store (.ok (some t), store')

theorem content_tree {locators : List (Nat × Locator)} {segments : List Segment}
    (h : content split locators name = .ok (some segments)) :
    ∃ source, Tree.ofSource name source split = .ok segments := by
  unfold content at h
  split at h
  · cases h
  · cases h
  · next source _ =>
    split at h
    · next tree =>
      cases h
      exact ⟨source, tree⟩
    · cases h

theorem load_loads (name : String) (recalls : store.Recalls e.split rules ts) :
    e.Loads rules ts name store (e.load name store) := by
  cases h : content e.split store.locators name with
  | error err =>
    rw [e.load_of_error h]
    exact .failed h (recalls.of_eq rfl rfl rfl rfl rfl)
  | ok found =>
    cases found with
    | none =>
      rw [e.load_of_none h]
      exact .unknown h (recalls.of_eq rfl rfl rfl rfl rfl)
    | some segments =>
      obtain ⟨source, tree⟩ := content_tree h
      rw [e.load_of_some h]
      exact .known h rfl (recalls.compiled tree rfl rfl rfl rfl rfl)

/-- A template that has been loaded goes to the shelf, where it is right. -/
theorem loads_stored {shelf shelf' : Shelf σ String (Option Template)} {before after : σ}
    {store' : Store σ} {r : Except Error (Option Template)} (own : rules.mixedTemplates = false)
    (recalls : store.Recalls e.split rules ts) (on : store.templates = some shelf)
    (ran : e.load name { store with host := before } = (r, store'))
    (updated : shelf.Updated shelf' fun e => e.key = name ∧ ∃ v, r = .ok v ∧ e.value = .own v) :
    e.Loads rules ts name store (r, Store.putTemplates shelf' { store' with host := after }) := by
  have recalls : ({ store with host := before } : Store σ).Recalls e.split rules ts :=
    recalls.of_eq rfl rfl rfl rfl rfl
  have loads := load_loads name recalls
  obtain ⟨carried, templates, _⟩ := e.load_carried name { store with host := before }
  rw [ran] at loads carried templates
  -- Only what was loaded goes to the shelf, so it is enough that this is right.
  have stored {ts' : List Template} (recalls : store'.Recalls e.split rules ts')
      (right : ∀ made found, r = .ok found → (∀ t ∈ ts', t.Made made) →
        Located e.split store'.locators made name found) :
      (Store.putTemplates shelf' { store' with host := after }).Recalls e.split rules ts' := by
    obtain ⟨made, faithful, known⟩ := recalls
    have loaded : shelf.Loaded e.split rules store'.locators made :=
      faithful.templates shelf (templates.trans on)
    have loaded' : shelf'.Loaded e.split rules store'.locators made := by
      refine loaded.updated updated fun entry new => ?_
      obtain ⟨same, found, returned, value⟩ := new
      rw [value, same]
      exact ⟨own, right made found returned known⟩
    have hosted : ({ store' with host := after } : Store σ).Faithful e.split rules made :=
      faithful.of_eq rfl rfl rfl rfl rfl
    exact ⟨made, hosted.putTemplates loaded', known⟩
  cases loads with
  | failed content recalls =>
    refine .failed content (stored recalls ?_)
    rintro made found ⟨⟩
  | unknown content recalls =>
    refine .unknown content (stored recalls ?_)
    rintro made _ ⟨⟩ known
    refine ⟨?_, by rintro t ⟨⟩⟩
    rw [carried.locators]
    exact content
  | known content named recalls =>
    refine .known content named (stored recalls ?_)
    rintro made _ ⟨⟩ known
    refine ⟨?_, ?_⟩
    · rw [carried.locators]
      exact content
    · rintro _ ⟨⟩
      exact ⟨named, known _ List.mem_cons_self⟩

theorem getTemplate_loads (own : rules.mixedTemplates = false) (name : String)
    (recalls : store.Recalls e.split rules ts) :
    e.Loads rules ts name store (e.getTemplate name store) := by
  have gets := e.gets name store
  generalize e.getTemplate name store = out at gets ⊢
  cases gets with
  | loaded r store' _ ran =>
    have loads := load_loads name recalls
    rw [ran] at loads
    exact loads
  | stored r shelf shelf' before after store' on ran updated =>
    exact loads_stored own recalls on ran updated
  | answered r shelf shelf' host on answers updated =>
    obtain ⟨made, faithful, known⟩ := recalls
    have loaded : shelf.Loaded e.split rules store.locators made := faithful.templates shelf on
    have loaded' : shelf'.Loaded e.split rules store.locators made :=
      loaded.updated updated fun entry foreign => by
        rw [loaded.foreign, own] at foreign
        cases foreign.1
    rw [Shelf.Loaded, own] at loaded
    obtain ⟨found, rfl, located⟩ := loaded.answers answers
    have hosted : ({ store with host } : Store σ).Faithful e.split rules made :=
      faithful.of_eq rfl rfl rfl rfl rfl
    have put := hosted.putTemplates loaded'
    cases found with
    | none => exact .unknown located.content ⟨made, put, known⟩
    | some t =>
      obtain ⟨named, made_t⟩ := located.named t rfl
      refine .known located.content named ⟨made, put, fun t' member => ?_⟩
      rcases List.mem_cons.mp member with rfl | member
      · exact made_t
      · exact known t' member

/-- A cache that holds values of another type refuses all requests for templates. -/
theorem getTemplate_refused (mixed : rules.mixedTemplates = true) (name : String)
    (recalls : store.Recalls e.split rules ts) :
    ∃ store', e.getTemplate name store = (.error (.cacheTypeMismatch templatesConsumer), store') ∧
      store'.Recalls e.split rules ts := by
  obtain ⟨made, faithful, known⟩ := recalls
  obtain ⟨shelf, on⟩ := Option.isSome_iff_exists.mp (faithful.cached mixed)
  have loaded := faithful.templates shelf on
  rw [Shelf.Loaded, mixed] at loaded
  obtain ⟨shelf', host, ran, kept⟩ := loaded.refuses Store.putTemplates e.load name store
  rw [← mixed] at kept
  have hosted : ({ store with host } : Store σ).Faithful e.split rules made :=
    faithful.of_eq rfl rfl rfl rfl rfl
  exact ⟨_, (e.getTemplate_of_some on name).trans ran, made, hosted.putTemplates kept, known⟩

/-- A template that has been obtained is remembered with the others. -/
theorem recalls_obtained {found : Option Template} {store' : Store σ}
    (recalls : store.Recalls e.split rules ts) (got : e.getTemplate name store = (.ok found, store')) :
    store'.Recalls e.split rules (found.toList ++ ts) := by
  cases mixed : rules.mixedTemplates with
  | true =>
    obtain ⟨_, refused, _⟩ := getTemplate_refused mixed name recalls
    rw [refused] at got
    cases got
  | false =>
    have loads := getTemplate_loads mixed name recalls
    rw [got] at loads
    cases loads with
    | unknown _ recalls => exact recalls
    | known _ _ recalls => exact recalls

/-- What has been obtained for a name is what the locators say. -/
theorem content_obtained {found : Option Template} {store' : Store σ}
    (recalls : store.Recalls e.split rules ts) (got : e.getTemplate name store = (.ok found, store')) :
    content e.split store.locators name = .ok (found.map (·.segments)) := by
  cases mixed : rules.mixedTemplates with
  | true =>
    obtain ⟨_, refused, _⟩ := getTemplate_refused mixed name recalls
    rw [refused] at got
    cases got
  | false =>
    have loads := getTemplate_loads mixed name recalls
    rw [got] at loads
    cases loads with
    | unknown content _ => exact content
    | known content _ _ => exact content

theorem locators_compiled {origin : Origin} {tag source : String} {store store' : Store σ}
    {result : Except Error Template} (compiled : e.compileOneOff origin tag source store = (result, store')) :
    store'.locators = store.locators := by
  have carried := (e.compileOneOff_carried origin tag source store).1.locators
  rwa [compiled] at carried

theorem locators_obtained {name : String} {store store' : Store σ} {result : Except Error (Option Template)}
    (got : e.getTemplate name store = (result, store')) : store'.locators = store.locators := by
  have carried := (e.getTemplate_carried name store).1.locators
  rwa [got] at carried

/-- The output of a lambda that has been compiled is remembered with the other templates. -/
theorem recalls_compiled {origin : Origin} {tag source : String} {t : Template} {store' : Store σ}
    (recalls : store.Recalls e.split rules ts)
    (compiled : e.compileOneOff origin tag source store = (.ok t, store')) :
    Tree.ofSource t.name source e.split = .ok t.segments ∧ store'.Recalls e.split rules (t :: ts) := by
  cases tree : Tree.ofSource (oneOffName origin store.oneOffs) source e.split with
  | error fault =>
    rw [e.compileOneOff_of_fault tree] at compiled
    cases compiled
  | ok segments =>
    rw [e.compileOneOff_of_ok tree] at compiled
    cases compiled
    exact ⟨tree, recalls.compiled tree rfl rfl rfl rfl rfl⟩

end Engine

end Logicless
