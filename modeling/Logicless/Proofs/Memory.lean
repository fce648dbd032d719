import Logicless.Proofs.Passage
import Logicless.Proofs.Retention
import Logicless.Proofs.Transparency

/-!
# What an engine remembers of its templates

An engine with lasting caches is used in any way, and the answers of its locators change meanwhile.
All lookups of a name that succeed give one answer until the name is invalidated: what the locators
said when it was first given (`Blueprint.remembers_of_build`).
-/

namespace Logicless

variable {σ : Type}

inductive Use where
  | get (name : String)
  | source (name : String)
  | render (t : Template) (data : Value) (limit : Option Nat)
  | forget (matching : String → Bool)
  /-- The locator of the number answers differently from now on. -/
  | relocate (number : Nat) (locator : Locator)

def Use.Forgets (use : Use) (name : String) : Prop :=
  ∃ matching, use = .forget matching ∧ matching name = true

namespace Engine

open Render (Point)

def use (e : Engine σ) : Use → Store σ → Store σ
  | .get name, s => (e.getTemplate name s).2
  | .source name, s => (getSource name s).2
  | .render t data limit, s => (e.renderTo t data (Sink.empty limit) s).2.2
  | .forget matching, s => invalidateTemplates matching s
  | .relocate number locator, s => s.replaceLocator number locator

def useAll (e : Engine σ) (uses : List Use) (s : Store σ) : Store σ :=
  uses.foldl (fun s use => e.use use s) s

/-- In the course of the use, which begins with the store `s`, a template is looked up in the store
`a`: the one that is asked for, or one that a partial tag names. -/
inductive Asks (e : Engine σ) (s : Store σ) : Use → String → Store σ → Prop where
  | get (name : String) : Asks e s (.get name) name s
  | inclusion {t : Template} {data : Value} {limit : Option Nat} {p : Point σ} {name : String}
      {origin : Origin} {rest : List Segment} (isOpen : s.isOpen = true)
      (positive : 1 ≤ e.config.nestingLimit)
      (reaches : e.Reaches true (e.startPoint t data (Sink.empty limit) s) p)
      (stands : p.segments = .inclusion name origin :: rest) :
      Asks e s (.render t data limit) name p.state.store

def Asked (e : Engine σ) (s : Store σ) (uses : List Use) (name : String) (a : Store σ) : Prop :=
  ∃ before use after, uses = before ++ use :: after ∧ e.Asks (e.useAll before s) use name a

/-! ### Renders -/

/-- Templates may have been looked up. What was held is held, and no locator has been asked for it. -/
structure Grown (s t : Store σ) : Prop where
  lasting : t.Lasting
  locators : t.locators = s.locators
  sources : t.sources = s.sources
  templates : ∀ name found, s.template? name = some found → t.template? name = some found
  asked : ∀ name found, s.template? name = some found → t.asked name = s.asked name

theorem Grown.of_eq {s t : Store σ} (lasting : s.Lasting) (templates : t.templates = s.templates)
    (sources : t.sources = s.sources) (locators : t.locators = s.locators)
    (consultations : t.consultations = s.consultations) : Grown s t :=
  ⟨lasting.of_eq templates sources, locators, sources,
    fun _ _ known => by rwa [Store.template?_of_eq templates],
    fun _ _ _ => by simp only [Store.asked, consultations]⟩

variable (e : Engine σ)

theorem compileOneOff_sources (origin : Origin) (tag source : String) (store : Store σ) :
    (e.compileOneOff origin tag source store).2.sources = store.sources := by
  cases tree : Tree.ofSource (oneOffName origin store.oneOffs) source e.split with
  | ok segments => rw [e.compileOneOff_of_ok tree]
  | error fault => rw [e.compileOneOff_of_fault tree]

theorem getTemplate_grown (name : String) {s : Store σ} (lasting : s.Lasting) :
    Grown s (e.getTemplate name s).2 := by
  obtain ⟨retrieves, lasting', sources⟩ := e.getTemplate_retrieves name lasting
  have locators := (e.getTemplate_carried name s).1.locators
  generalize e.getTemplate name s = out at retrieves lasting' sources locators ⊢
  cases retrieves with
  | held _ same _ unasked =>
    exact ⟨lasting', locators, sources, fun _ _ known => by rw [same]; exact known,
      fun _ _ _ => by simp only [Store.asked, unasked]⟩
  | failed unknown _ same _ asked =>
    refine ⟨lasting', locators, sources, fun _ _ known => by rw [same]; exact known, ?_⟩
    intro other found known
    have ne : other ≠ name := by
      rintro rfl
      rw [unknown] at known
      cases known
    rw [← Store.asked_consult ne s]
    simp only [Store.asked, asked]
  | loaded unknown _ known _ asked =>
    have ne {other : String} {found : Option Template} (held : s.template? other = some found) :
        other ≠ name := by
      rintro rfl
      rw [unknown] at held
      cases held
    refine ⟨lasting', locators, sources, fun other found held => ?_, fun other found held => ?_⟩
    · rw [known, if_neg (ne held)]
      exact held
    · rw [← Store.asked_consult (ne held) s]
      simp only [Store.asked, asked]

theorem grown_carries : e.Carries fun s t => s.Lasting → Grown s t where
  trans first second lasting := by
    have grown := first lasting
    have grown' := second grown.lasting
    exact ⟨grown'.lasting, grown'.locators.trans grown.locators, grown'.sources.trans grown.sources,
      fun name found known => grown'.templates name found (grown.templates name found known),
      fun name found known => (grown'.asked name found (grown.templates name found known)).trans
        (grown.asked name found known)⟩
  looked same lasting := .of_eq lasting same.templates same.sources same.locators same.consultations
  learned _ _ _ _ lasting := .of_eq lasting rfl rfl rfl rfl
  got name _ lasting := e.getTemplate_grown name lasting
  compiled origin tag source s lasting := by
    obtain ⟨carried, templates, consultations, _⟩ := e.compileOneOff_carried origin tag source s
    exact .of_eq lasting templates (e.compileOneOff_sources origin tag source s) carried.locators
      consultations

/-- What is unknown stays so, unless a template is looked up. -/
theorem unknown_passes (name : String) :
    e.Passes fun s t => s.template? name = none → t.template? name = none where
  trans first second unknown := second (first unknown)
  looked same unknown := by rwa [Store.template?_of_eq same.templates]
  learned _ _ _ _ unknown := unknown
  compiled origin tag source s unknown := by
    obtain ⟨_, templates, _⟩ := e.compileOneOff_carried origin tag source s
    rwa [Store.template?_of_eq templates]

/-! ### Uses -/

structure Remembers (s : Store σ) : Prop where
  /-- Each lookup is answered from memory, or by the locators of the time. -/
  lookup : ∀ {use name a}, e.Asks s use name a →
    e.Retrieves name a (e.getTemplate name a) ∧ a.locators = s.locators
  source : ∀ name, Recites name s (getSource name s)
  /-- What is held is given wherever it is looked up, and no locator is asked for the template. -/
  keeps : ∀ {use name found}, s.template? name = some found → ¬ use.Forgets name →
    (e.use use s).template? name = some found ∧
      (∀ a, e.Asks s use name a → a.template? name = some found) ∧
      (use ≠ .source name → (e.use use s).asked name = s.asked name)
  /-- What a lookup gives is held from then on, and no locator is asked for the template. -/
  learns : ∀ {use name a found}, e.Asks s use name a → (e.getTemplate name a).1 = .ok found →
    (e.use use s).template? name = some found ∧
      (e.use use s).asked name = (e.getTemplate name a).2.asked name
  /-- What is held was held before, or a lookup gave it when it was not. -/
  origin : ∀ {use name found}, (e.use use s).template? name = some found →
    s.template? name = some found ∨ ∃ a, e.Asks s use name a ∧ a.template? name = none ∧
      (e.getTemplate name a).1 = .ok found
  keepsSource : ∀ {use name}, use ≠ .source name → ¬ use.Forgets name →
    (e.use use s).source? name = s.source? name
  /-- Invalidation drops the names that match from both caches, and no others. -/
  forgets : ∀ matching name,
    (e.use (.forget matching) s).template? name = (if matching name then none else s.template? name) ∧
      (e.use (.forget matching) s).source? name = if matching name then none else s.source? name

variable {e} {s : Store σ} {name : String}

theorem Retrieves.known {t : Store σ} {found : Option Template}
    (h : e.Retrieves name s (.ok found, t)) : t.template? name = some found := by
  cases h with
  | held known same _ _ => rw [same, known]
  | loaded _ _ known _ _ => rw [known, if_pos rfl]

/-- A lookup that gives what was not held was the one for that name. -/
theorem Retrieves.learned {other : String} {out : Except Error (Option Template) × Store σ}
    (h : e.Retrieves other s out) (unknown : s.template? name = none)
    (known : out.2.template? name ≠ none) : other = name ∧ ∃ found, out.1 = .ok found := by
  cases h with
  | held _ same _ _ =>
    rw [same] at known
    exact absurd unknown known
  | failed _ _ same _ _ =>
    rw [same] at known
    exact absurd unknown known
  | loaded _ _ now _ _ =>
    rw [now] at known
    split at known
    · next same => exact ⟨same.symm, _, rfl⟩
    · exact absurd unknown known

theorem Recites.others {other : String} {out : Except Error (Option String) × Store σ}
    (h : Recites other s out) (ne : name ≠ other) :
    out.2.source? name = s.source? name ∧ out.2.asked name = s.asked name := by
  have asked {t : Store σ} (asked : t.consultations = (s.consult other).consultations) :
      t.asked name = s.asked name := by
    rw [← Store.asked_consult ne s]
    simp only [Store.asked, asked]
  cases h with
  | held _ same unasked => exact ⟨congrFun same name, by simp only [Store.asked, unasked]⟩
  | failed _ _ same consulted => exact ⟨congrFun same name, asked consulted⟩
  | located _ _ known consulted => exact ⟨(known name).trans (if_neg ne), asked consulted⟩

theorem asks_lasting (lasting : s.Lasting) {use : Use} {a : Store σ} (asks : e.Asks s use name a) :
    Grown s a := by
  cases asks with
  | get _ => exact .of_eq lasting rfl rfl rfl rfl
  | inclusion isOpen positive reaches stands =>
    exact (e.grown_carries.renderTo_between positive isOpen reaches).1 lasting

theorem asks_after (lasting : s.Lasting) {use : Use} {a : Store σ} (asks : e.Asks s use name a) :
    Grown (e.getTemplate name a).2 (e.use use s) := by
  have lasting' := (e.getTemplate_grown name (asks_lasting lasting asks).lasting).lasting
  cases asks with
  | get _ => exact .of_eq lasting' rfl rfl rfl rfl
  | inclusion isOpen positive reaches stands =>
    have grown := e.grown_carries.lookup_after stands lasting'
    have grown' := (e.grown_carries.renderTo_between positive isOpen reaches).2 grown.lasting
    exact e.grown_carries.trans (fun _ => grown) (fun _ => grown') lasting'

theorem asks_learns (lasting : s.Lasting) {use : Use} {a : Store σ} {found : Option Template}
    (asks : e.Asks s use name a) (given : (e.getTemplate name a).1 = .ok found) :
    (e.use use s).template? name = some found ∧
      (e.use use s).asked name = (e.getTemplate name a).2.asked name := by
  have grown := asks_after lasting asks
  have retrieves := (e.getTemplate_retrieves name (asks_lasting lasting asks).lasting).1
  rcases ran : e.getTemplate name a with ⟨r, t⟩
  rw [ran] at given retrieves grown
  simp only at given
  rw [given] at retrieves
  exact ⟨grown.templates name found retrieves.known, grown.asked name found retrieves.known⟩

/-- What a render has learned, one of its lookups gave. -/
theorem renderTo_origin (lasting : s.Lasting) {t : Template} {data : Value} {limit : Option Nat}
    (unknown : s.template? name = none)
    (known : (e.renderTo t data (Sink.empty limit) s).2.2.template? name ≠ none) :
    ∃ a found, e.Asks s (.render t data limit) name a ∧ a.template? name = none ∧
      (e.getTemplate name a).1 = .ok found := by
  refine Classical.byContradiction fun none => known ?_
  by_cases isOpen : s.isOpen = true
  · by_cases positive : 1 ≤ e.config.nestingLimit
    · have finished : (e.finish (e.startPoint t data (Sink.empty limit) s)).2.store.template? name =
          .none := by
        refine (e.unknown_passes name).finish_of_lookups (fun q other origin rest reaches stands h => ?_)
          unknown
        refine Classical.byContradiction fun held => ?_
        have lasting' := ((e.grown_carries.renderTo_between positive isOpen reaches).1 lasting).lasting
        have retrieves := (e.getTemplate_retrieves other lasting').1
        obtain ⟨rfl, found, given⟩ := retrieves.learned h held
        exact none ⟨_, found, .inclusion isOpen positive reaches stands, h, given⟩
      rw [e.renderTo_finish positive isOpen]
      exact (e.unknown_passes name).looked (Store.undisturbed_close _ _) finished
    · rw [e.renderTo_refused positive isOpen]
      exact (e.unknown_passes name).looked (Store.undisturbed_close _ _) unknown
  · simp only [renderTo, isOpen, if_false, Bool.false_eq_true]
    exact unknown

theorem use_lasting (lasting : s.Lasting) (use : Use) : (e.use use s).Lasting := by
  cases use with
  | get name => exact (e.getTemplate_grown name lasting).lasting
  | source name => exact (getSource_recites _ lasting).2.1
  | render t data limit => exact (e.grown_carries.renderTo t data (Sink.empty limit) s lasting).lasting
  | forget matching => exact (invalidateTemplates_drops lasting matching).1
  | relocate number locator => exact lasting.of_eq rfl rfl

/-- What is held after a use was held before, or one of its lookups gave it. -/
theorem use_origin (lasting : s.Lasting) {use : Use} {found : Option Template}
    (known : (e.use use s).template? name = some found) :
    s.template? name = some found ∨ ∃ a, e.Asks s use name a ∧ a.template? name = none ∧
      (e.getTemplate name a).1 = .ok found := by
  have same {found' : Option Template} (given : (e.use use s).template? name = some found') :
      found' = found := Option.some.inj (given.symm.trans known)
  cases use with
  | get other =>
    have known : (e.getTemplate other s).2.template? name = some found := known
    cases before : s.template? name with
    | some found' =>
      rw [same ((e.getTemplate_grown other lasting).templates name found' before)]
      exact Or.inl rfl
    | none =>
      have retrieves := (e.getTemplate_retrieves other lasting).1
      obtain ⟨rfl, found', given⟩ := retrieves.learned before (by rw [known]; exact nofun)
      rw [same (asks_learns lasting (.get other) given).1] at given
      exact Or.inr ⟨s, .get other, before, given⟩
  | source other =>
    have kept := (getSource_recites other lasting).2.2.1
    exact Or.inl ((congrFun (Store.template?_of_eq kept) name).symm.trans known)
  | render t data limit =>
    cases before : s.template? name with
    | some found' =>
      have grown := e.grown_carries.renderTo t data (Sink.empty limit) s lasting
      rw [same (grown.templates name found' before)]
      exact Or.inl rfl
    | none =>
      have changed : (e.use (.render t data limit) s).template? name ≠ none := by
        rw [known]
        exact nofun
      obtain ⟨a, found', asks, unknown, given⟩ := renderTo_origin lasting before changed
      rw [same (asks_learns lasting asks given).1] at given
      exact Or.inr ⟨a, asks, unknown, given⟩
  | forget matching =>
    have drops := (invalidateTemplates_drops lasting matching).2.1 name
    by_cases matches' : matching name = true
    · rw [if_pos matches'] at drops
      exact absurd (drops.symm.trans known) nofun
    · rw [if_neg matches'] at drops
      exact Or.inl (drops.symm.trans known)
  | relocate number locator => exact Or.inl known

theorem remembers_of_lasting (lasting : s.Lasting) : e.Remembers s where
  lookup asks := by
    have grown := asks_lasting lasting asks
    exact ⟨(e.getTemplate_retrieves _ grown.lasting).1, grown.locators⟩
  source name := (getSource_recites _ lasting).1
  keeps {use name found} known kept := by
    refine ⟨?_, fun a asks => (asks_lasting lasting asks).templates name found known, ?_⟩
    · cases use with
      | get other => exact (e.getTemplate_grown other lasting).templates name found known
      | source other =>
        have same := (getSource_recites other lasting).2.2.1
        exact (congrFun (Store.template?_of_eq same) name).trans known
      | render t data limit =>
        exact (e.grown_carries.renderTo t data (Sink.empty limit) s lasting).templates name found known
      | forget matching =>
        have drops := (invalidateTemplates_drops lasting matching).2.1 name
        rw [if_neg fun matches' => kept ⟨matching, rfl, matches'⟩] at drops
        exact drops.trans known
      | relocate number locator => exact known
    · intro unlike
      cases use with
      | get other => exact (e.getTemplate_grown other lasting).asked name found known
      | source other =>
        have ne : name ≠ other := fun same => unlike (congrArg Use.source same.symm)
        exact ((getSource_recites _ lasting).1.others ne).2
      | render t data limit =>
        exact (e.grown_carries.renderTo t data (Sink.empty limit) s lasting).asked name found known
      | forget matching =>
        have asked := (invalidateTemplates_drops lasting matching).2.2.2.2
        exact congrArg (List.countP (·.name == name)) asked
      | relocate number locator => rfl
  learns := asks_learns lasting
  origin := use_origin lasting
  keepsSource {use name} unlike kept := by
    cases use with
    | get other => exact congrFun (Store.source?_of_eq (e.getTemplate_grown other lasting).sources) name
    | source other =>
      have ne : name ≠ other := fun same => unlike (congrArg Use.source same.symm)
      exact ((getSource_recites _ lasting).1.others ne).1
    | render t data limit =>
      have grown := e.grown_carries.renderTo t data (Sink.empty limit) s lasting
      exact congrFun (Store.source?_of_eq grown.sources) name
    | forget matching =>
      have drops := (invalidateTemplates_drops lasting matching).2.2.1 name
      rw [if_neg fun matches' => kept ⟨matching, rfl, matches'⟩] at drops
      exact drops
    | relocate number locator => rfl
  forgets matching name :=
    ⟨(invalidateTemplates_drops lasting matching).2.1 name,
      (invalidateTemplates_drops lasting matching).2.2.1 name⟩

/-! ### Histories -/

theorem useAll_lasting (lasting : s.Lasting) (uses : List Use) : (e.useAll uses s).Lasting := by
  induction uses generalizing s with
  | nil => exact lasting
  | cons use rest ih => exact ih (use_lasting lasting use)

theorem useAll_append (before after : List Use) (s : Store σ) :
    e.useAll (before ++ after) s = e.useAll after (e.useAll before s) :=
  List.foldl_append

theorem useAll_known (lasting : s.Lasting) {uses : List Use} (kept : ∀ use ∈ uses, ¬ use.Forgets name)
    {found : Option Template} (known : s.template? name = some found) :
    (e.useAll uses s).template? name = some found := by
  induction uses generalizing s with
  | nil => exact known
  | cons use rest ih =>
    have remembers : e.Remembers s := remembers_of_lasting lasting
    have next := (remembers.keeps known (kept use List.mem_cons_self)).1
    exact ih (use_lasting lasting use) (fun use' member => kept use' (List.mem_cons_of_mem use member))
      next

theorem useAll_learns (lasting : s.Lasting) {uses : List Use}
    (kept : ∀ use ∈ uses, ¬ use.Forgets name) {a : Store σ} {found : Option Template}
    (asked : e.Asked s uses name a) (given : (e.getTemplate name a).1 = .ok found) :
    (e.useAll uses s).template? name = some found := by
  obtain ⟨before, use, after, rfl, asks⟩ := asked
  have learned := (asks_learns (useAll_lasting lasting before) asks given).1
  rw [useAll_append]
  refine useAll_known (use_lasting (useAll_lasting lasting before) use) (fun use' member => ?_) learned
  exact kept use' (List.mem_append_right _ (List.mem_cons_of_mem use member))

theorem Asked.cons {use : Use} {uses : List Use} {a : Store σ}
    (asked : e.Asked (e.use use s) uses name a) : e.Asked s (use :: uses) name a := by
  obtain ⟨before, use', after, rfl, asks⟩ := asked
  exact ⟨use :: before, use', after, rfl, asks⟩

theorem useAll_origin (lasting : s.Lasting) {uses : List Use} {found : Option Template}
    (known : (e.useAll uses s).template? name = some found) :
    s.template? name = some found ∨ ∃ a, e.Asked s uses name a ∧ a.template? name = none ∧
      (e.getTemplate name a).1 = .ok found := by
  induction uses generalizing s with
  | nil => exact Or.inl known
  | cons use rest ih =>
    rcases ih (use_lasting lasting use) known with known | ⟨a, asked, unknown, given⟩
    · rcases use_origin lasting known with known | ⟨a, asks, unknown, given⟩
      · exact Or.inl known
      · exact Or.inr ⟨a, ⟨[], use, rest, rfl, asks⟩, unknown, given⟩
    · exact Or.inr ⟨a, asked.cons, unknown, given⟩

structure Steady (e : Engine σ) (s : Store σ) (uses : List Use) (name : String) : Prop where
  /-- All lookups that succeed give the same instance, or all give nothing. -/
  agree : ∀ {a a' found found'}, e.Asked s uses name a → e.Asked s uses name a' →
    (e.getTemplate name a).1 = .ok found → (e.getTemplate name a').1 = .ok found' → found = found'
  /-- They give what was held from the beginning, or what the locators gave when nothing was held. -/
  origin : ∀ {a found}, e.Asked s uses name a → (e.getTemplate name a).1 = .ok found →
    s.template? name = some found ∨ ∃ first, e.Asked s uses name first ∧
      first.template? name = none ∧ (e.getTemplate name first).1 = .ok found
  /-- After one that succeeds, no locator is asked for the template. -/
  quiet : ∀ {before use after a found}, uses = before ++ use :: after →
    e.Asks (e.useAll before s) use name a → (e.getTemplate name a).1 = .ok found →
    (e.useAll (before ++ [use]) s).asked name = (e.getTemplate name a).2.asked name ∧
      ∀ {between later rest}, after = between ++ later :: rest → later ≠ .source name →
        (e.useAll (before ++ use :: between ++ [later]) s).asked name =
          (e.useAll (before ++ use :: between) s).asked name

theorem steady_of_lasting (lasting : s.Lasting) {uses : List Use}
    (kept : ∀ use ∈ uses, ¬ use.Forgets name) : e.Steady s uses name where
  agree asked asked' given given' :=
    Option.some.inj ((useAll_learns lasting kept asked given).symm.trans
      (useAll_learns lasting kept asked' given'))
  origin asked given := useAll_origin lasting (useAll_learns lasting kept asked given)
  quiet {before use after a found} split asks given := by
    have lasting' := useAll_lasting (e := e) lasting before
    obtain ⟨learned, asked⟩ := asks_learns lasting' asks given
    refine ⟨by rw [useAll_append]; exact asked, ?_⟩
    intro between later rest split' unlike
    have kept' : ∀ use' ∈ between, ¬ use'.Forgets name := by
      intro use' member
      refine kept use' ?_
      rw [split, split']
      simp [member]
    have later_kept : ¬ later.Forgets name := by
      refine kept later ?_
      rw [split, split']
      simp
    have known : (e.useAll (before ++ use :: between) s).template? name = some found := by
      rw [useAll_append]
      exact useAll_known (use_lasting lasting' use) kept' learned
    have remembers : e.Remembers (e.useAll (before ++ use :: between) s) :=
      remembers_of_lasting (useAll_lasting lasting _)
    rw [useAll_append (before ++ use :: between)]
    exact (remembers.keeps known later_kept).2.2 unlike

/-- Other locators take the places of the first ones, and the order in which they are asked stays. -/
theorem useAll_numbers (lasting : s.Lasting) (uses : List Use) :
    (e.useAll uses s).locators.map (·.1) = s.locators.map (·.1) := by
  induction uses generalizing s with
  | nil => rfl
  | cons use rest ih =>
    refine (ih (use_lasting lasting use)).trans ?_
    cases use with
    | get name => exact congrArg (List.map (·.1)) (e.getTemplate_grown name lasting).locators
    | source name => exact congrArg (List.map (·.1)) (getSource_recites _ lasting).2.2.2
    | render t data limit =>
      exact congrArg (List.map (·.1))
        (e.grown_carries.renderTo t data (Sink.empty limit) s lasting).locators
    | forget matching =>
      exact congrArg (List.map (·.1)) (invalidateTemplates_drops lasting matching).2.2.2.1
    | relocate number locator =>
      simp only [use, Store.replaceLocator, List.map_map]
      refine List.map_congr_left fun p _ => ?_
      simp only [Function.comp]
      split <;> rfl

end Engine

/-! ### The making of an engine -/

namespace Blueprint

/-- Elements of one priority keep their order. -/
theorem byPriority_filter {α : Type} (priority : α → Int) (xs : List α) (k : Int) :
    (byPriority priority xs).filter (fun a => priority a = k) = xs.filter fun a => priority a = k := by
  have sublist : (xs.filter fun a => priority a = k).Sublist (byPriority priority xs) := by
    refine List.sublist_mergeSort ?_ ?_ ?_ List.filter_sublist
    · intro a b c first second
      simp only [decide_eq_true_eq] at first second ⊢
      omega
    · intro a b
      simp only [Bool.or_eq_true, decide_eq_true_eq]
      omega
    · rw [List.pairwise_iff_forall_sublist]
      intro a b sub
      have first : priority a = k := by simpa using (List.mem_filter.mp (sub.subset List.mem_cons_self)).2
      have second : priority b = k := by
        simpa using (List.mem_filter.mp (sub.subset (List.mem_cons_of_mem _ List.mem_cons_self))).2
      exact decide_eq_true (by omega)
  have kept := sublist.filter fun a => decide (priority a = k)
  rw [List.filter_filter] at kept
  simp only [Bool.and_self] at kept
  have perm := (List.mergeSort_perm xs fun a b => priority a ≤ priority b).filter
    fun a => decide (priority a = k)
  exact (kept.eq_of_length perm.length_eq.symm).symm

theorem byPriority_ordered {α : Type} (priority : Nat × α → Int) {xs : List (Nat × α)}
    (numbered : xs.Pairwise fun p q => p.1 < q.1) :
    (byPriority priority xs).Pairwise fun p q =>
      priority p < priority q ∨ (priority p = priority q ∧ p.1 < q.1) := by
  have sorted : (byPriority priority xs).Pairwise fun p q => decide (priority p ≤ priority q) = true := by
    refine List.pairwise_mergeSort ?_ ?_ xs
    · intro a b c first second
      simp only [decide_eq_true_eq] at first second ⊢
      omega
    · intro a b
      simp only [Bool.or_eq_true, decide_eq_true_eq]
      omega
  rw [List.pairwise_iff_forall_sublist]
  intro p q sub
  have le : priority p ≤ priority q := of_decide_eq_true (List.pairwise_iff_forall_sublist.mp sorted sub)
  by_cases lt : priority p < priority q
  · exact Or.inl lt
  · have same : priority p = priority q := by omega
    have within := sub.filter fun r => decide (priority r = priority q)
    rw [byPriority_filter priority] at within
    simp only [List.filter_cons, same, decide_true, if_true, List.filter_nil] at within
    exact Or.inr ⟨same, List.pairwise_iff_forall_sublist.mp numbered (within.trans List.filter_sublist)⟩

theorem numbered_mapIdx {α : Type} (xs : List α) :
    (xs.mapIdx fun i a => (i, a)).Pairwise fun p q => p.1 < q.1 := by
  rw [List.pairwise_iff_getElem]
  intro i j hi hj lt
  simpa using lt

structure Untouched (s t : Store σ) : Prop where
  locators : t.locators = s.locators
  templates : t.templates = s.templates
  sources : t.sources = s.sources
  hints : t.hints = s.hints
  compiled : t.compiled = s.compiled

theorem Untouched.trans {s t u : Store σ} (h : Untouched s t) (h' : Untouched t u) : Untouched s u :=
  ⟨h'.locators.trans h.locators, h'.templates.trans h.templates, h'.sources.trans h.sources,
    h'.hints.trans h.hints, h'.compiled.trans h.compiled⟩

theorem init_untouched (factory : CacheFactory σ) (config : Config) (r : Resolver σ) (s : Store σ) :
    Untouched s (r.init factory config s).2 := by
  obtain ⟨priority, kind⟩ := r
  cases kind with
  | members shelf =>
    simp only [Resolver.init]
    split <;> exact ⟨rfl, rfl, rfl, rfl, rfl⟩
  | _ => exact ⟨rfl, rfl, rfl, rfl, rfl⟩

theorem initAll_untouched {b : Blueprint σ} {resolvers resolvers' : List (Resolver σ)} {s t : Store σ}
    (ran : b.initAll resolvers s = (.ok resolvers', t)) : Untouched s t := by
  induction resolvers generalizing resolvers' s with
  | nil =>
    cases ran
    exact ⟨rfl, rfl, rfl, rfl, rfl⟩
  | cons r rest ih =>
    obtain ⟨r', u, first, ran⟩ := Attempt.bind_ok ran
    obtain ⟨rest', u', later, ran⟩ := Attempt.bind_ok ran
    cases ran
    have untouched := init_untouched b.factory b.config r s
    rw [first] at untouched
    exact untouched.trans (ih later)

theorem initResolvers_untouched {b : Blueprint σ} {s t : Store σ}
    {r : List (Resolver σ) × Option (Resolver σ)} (ran : b.initResolvers s = (.ok r, t)) :
    Untouched s t := by
  unfold initResolvers at ran
  obtain ⟨added, u, first, ran⟩ := Attempt.bind_ok ran
  refine (initAll_untouched first).trans ?_
  dsimp only at ran
  split at ran
  · obtain ⟨r', u', init, ran⟩ := Attempt.bind_ok ran
    cases ran
    have untouched := init_untouched b.factory b.config (Resolver.members 40) u
    rw [init] at untouched
    exact untouched
  · cases ran
    exact ⟨rfl, rfl, rfl, rfl, rfl⟩

/-- New caches hold nothing. -/
theorem allotCaches_empty {b : Blueprint σ} {s t : Store σ} (none : s.templates = none)
    (ran : b.allotCaches s = (.ok (), t)) (P : String → Template → Prop) :
    t.Holds P ∧ t.hints = s.hints ∧ t.compiled = s.compiled := by
  obtain ⟨mixed, _, _, keeps, carried, counted⟩ := allotCaches_keeps none ran
  refine ⟨fun shelf on entry member t value => ?_, carried.hints, counted⟩
  -- All that a new cache holds is right, whatever is taken to be right.
  have right := (keeps shelf on fun _ _ => False).entries entry member
  rw [value] at right
  exact right.2.elim

def Sourced (e : Engine σ) (s : Store σ) : Prop :=
  ∀ name found, s.template? name = some found →
    Engine.content e.split s.locators name = .ok (found.map (·.segments))

theorem getTemplate_sourced {e : Engine σ} {s : Store σ} (lasting : s.Lasting) (sourced : Sourced e s)
    (name : String) : Sourced e (e.getTemplate name s).2 := by
  intro other found known
  rw [(e.getTemplate_grown name lasting).locators]
  cases before : s.template? other with
  | some found' =>
    have same := (e.getTemplate_grown name lasting).templates other found' before
    rw [known] at same
    rw [Option.some.inj same]
    exact sourced other found' before
  | none =>
    have retrieves := (e.getTemplate_retrieves name lasting).1
    generalize e.getTemplate name s = out at retrieves known
    cases retrieves with
    | held _ same _ _ =>
      rw [same, before] at known
      cases known
    | failed _ _ same _ _ =>
      rw [same, before] at known
      cases known
    | @loaded loaded _ _ content now _ _ =>
      rw [now] at known
      split at known
      · next same =>
        rw [same, content, ← Option.some.inj known]
        cases loaded <;> rfl
      · rw [before] at known
        cases known

/-- What the locators give, a lookup gives, whether the template is held or not. -/
theorem Sourced.gives {e : Engine σ} {s : Store σ} (sourced : Sourced e s) (lasting : s.Lasting)
    {name : String} {segments : List Segment}
    (given : Engine.content e.split s.locators name = .ok (some segments)) :
    ∃ t store, e.getTemplate name s = (.ok (some t), store) ∧ t.segments = segments := by
  have retrieves := (e.getTemplate_retrieves name lasting).1
  rcases ran : e.getTemplate name s with ⟨r, after⟩
  rw [ran] at retrieves
  cases retrieves with
  | @held found _ known _ _ _ =>
    have same := (sourced name found known).symm.trans given
    cases found with
    | none => cases same
    | some t => exact ⟨t, after, rfl, Option.some.inj (Except.ok.inj same)⟩
  | failed _ content _ _ _ =>
    rw [given] at content
    cases content
  | loaded _ content _ _ _ =>
    rw [given] at content
    cases content
    exact ⟨_, after, rfl, rfl⟩

theorem precompile_sourced {e : Engine σ} {names : List String} {s t : Store σ} {r : Except Error Unit}
    (ran : precompile e names s = (r, t)) (lasting : s.Lasting) (sourced : Sourced e s) :
    t.Lasting ∧ t.locators = s.locators ∧ t.sources = s.sources ∧ Sourced e t := by
  induction names generalizing s with
  | nil =>
    cases ran
    exact ⟨lasting, rfl, rfl, sourced⟩
  | cons name rest ih =>
    have grown := e.getTemplate_grown name lasting
    have sourced' := getTemplate_sourced lasting sourced name
    rw [precompile] at ran
    rcases got : e.getTemplate name s with ⟨err | found, u⟩
    · rw [got] at grown sourced'
      rw [Attempt.bind_of_error got] at ran
      cases ran
      exact ⟨grown.lasting, grown.locators, grown.sources, sourced'⟩
    · rw [got] at grown sourced'
      rw [Attempt.bind_of_ok got] at ran
      obtain ⟨lasting', locators, sources, sourced''⟩ := ih ran grown.lasting sourced'
      exact ⟨lasting', locators.trans grown.locators, sources.trans grown.sources, sourced''⟩

theorem allotCaches_lasting {b : Blueprint σ} (enabled : b.config.templateCacheEnabled = true)
    (lasting : b.config.templateCacheExpiration = none) (standard : b.factory = .standard)
    {s t : Store σ} (fresh : s.templates = none ∧ s.sources = none) (ran : b.allotCaches s = (.ok (), t)) :
    t.Lasting ∧ t.locators = s.locators ∧ (∀ name, t.template? name = none) ∧
      ∀ name, t.source? name = none := by
  rw [allotCaches_eq standard fresh] at ran
  cases ran
  unfold firstStore
  rw [enabled, lasting]
  exact ⟨⟨⟨_, rfl, Shelf.lasting_empty _ _ _⟩, ⟨_, rfl, Shelf.lasting_empty _ _ _⟩⟩, rfl, fun _ => rfl,
    fun _ => rfl⟩

structure Made (b : Blueprint σ) (host : σ) (e : Engine σ) (s : Store σ) : Prop where
  lasting : s.Lasting
  locators : s.locators = (b.emptyStore host).locators
  sourced : Sourced e s
  unread : ∀ name, s.source? name = none

theorem build_made {b : Blueprint σ} {host : σ} {e : Engine σ} {start : Store σ}
    (enabled : b.config.templateCacheEnabled = true)
    (lasting : b.config.templateCacheExpiration = none) (standard : b.factory = .standard)
    (built : b.build host = .ok (e, start)) : Made b host e start := by
  obtain ⟨_, resolved, allotted, precompiled⟩ := build_staged built
  have untouched := initResolvers_untouched resolved
  obtain ⟨lasts, locators, empty, unread⟩ :=
    allotCaches_lasting enabled lasting standard ⟨untouched.templates, untouched.sources⟩ allotted
  have locators := locators.trans untouched.locators
  obtain ⟨lasts', same, sources, sourced⟩ := precompile_sourced precompiled lasts <| by
    intro name found known
    rw [empty] at known
    cases known
  refine ⟨lasts', same.trans locators, sourced, fun name => ?_⟩
  rw [Store.source?_of_eq sources]
  exact unread name

/-- An engine whose template cache neither expires nor is shared remembers what it has been told, in
whatever way it is used and whatever its locators say meanwhile. Its locators are asked in ascending
priority, and those of one priority in the order they were registered. -/
theorem remembers_of_build {b : Blueprint σ} {host : σ} {e : Engine σ} {start : Store σ}
    (enabled : b.config.templateCacheEnabled = true)
    (lasting : b.config.templateCacheExpiration = none) (standard : b.factory = .standard)
    (built : b.build host = .ok (e, start)) :
    start.locators.Perm (b.locators.mapIdx fun i l => (i, l)) ∧
      start.locators.Pairwise (fun p q => p.2.priority < q.2.priority ∨
        (p.2.priority = q.2.priority ∧ p.1 < q.1)) ∧
      Sourced e start ∧ (∀ name, start.source? name = none) ∧
      ∀ history, let s := e.useAll history start
        s.locators.map (·.1) = start.locators.map (·.1) ∧ e.Remembers s ∧
          ∀ uses name, (∀ use ∈ uses, ¬ use.Forgets name) → e.Steady s uses name := by
  obtain ⟨lasts, locators, sourced, unread⟩ := build_made enabled lasting standard built
  refine ⟨?_, ?_, sourced, unread, fun history => ?_⟩
  · rw [locators]
    exact List.mergeSort_perm _ _
  · rw [locators]
    exact byPriority_ordered (fun p : Nat × Locator => p.2.priority) (numbered_mapIdx b.locators)
  · have lasts' : (e.useAll history start).Lasting := Engine.useAll_lasting lasts history
    exact ⟨Engine.useAll_numbers lasts history, Engine.remembers_of_lasting lasts',
      fun uses name kept => Engine.steady_of_lasting lasts' kept⟩

def located : Blueprint Unit :=
  { standard with locators := [Locator.ofSources 0 [("a", "old")]] }

/-- The template stays what it was, although its locator has another source meanwhile. -/
theorem remembers_of_build_located :
    ∃ e start t, located.build () = .ok (e, start) ∧
      (e.getTemplate "a" start).1 = .ok (some t) ∧ t.segments = [.text "old" ⟨"a", 1, 1⟩] ∧
      let uses := [.get "a", .relocate 0 (Locator.ofSources 0 [("a", "new")]), .source "a", .get "a"]
      e.Remembers (e.useAll uses start) ∧ e.Steady start uses "a" ∧
        (e.useAll uses start).template? "a" = some (some t) := by
  have plain : located.Plain := ⟨rfl, rfl, rfl⟩
  obtain ⟨e, start, built⟩ := build_ok plain (by decide) (by decide +kernel) rfl ()
  obtain ⟨_, _, sourced, _, all⟩ := remembers_of_build rfl rfl rfl built
  have founded : Founded (fun _ => []) located () e start := build_founded plain.selfContained built
  have locators : start.locators = [(0, Locator.ofSources 0 [("a", "old")])] :=
    founded.locators.trans (List.mergeSort_singleton _)
  have given : Engine.content e.split start.locators "a" = .ok (some [.text "old" ⟨"a", 1, 1⟩]) := by
    rw [founded.split, locators]
    with_unfolding_all rfl
  have lasts := (build_made rfl rfl rfl built).lasting
  obtain ⟨t, after, got, segments⟩ := sourced.gives lasts given
  have got : (e.getTemplate "a" start).1 = .ok (some t) := congrArg Prod.fst got
  have steady : e.Steady start [.get "a", .relocate 0 (Locator.ofSources 0 [("a", "new")]),
      .source "a", .get "a"] "a" := by
    refine (all []).2.2 _ "a" ?_
    simp [Use.Forgets]
  refine ⟨e, start, t, built, got, segments, (all _).2.1, steady, ?_⟩
  refine Engine.useAll_learns lasts ?_ ⟨[], .get "a", _, rfl, .get "a"⟩ got
  simp [Use.Forgets]

end Blueprint

end Logicless
