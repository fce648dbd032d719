import Logicless.Proofs.Escaping
import Logicless.Proofs.Memory
import Mathlib.Data.List.Dedup

/-!
# How deep executions nest

Whatever is rendered, no template is open more often than the limit allows, and neither is the output
of lambdas. So the names in partial tags bound how many executions are open at once
(`Blueprint.open_le`).
-/

namespace Logicless

variable {σ : Type}

/-- An execution that is open: of the template of that name, or else of the output of a lambda. -/
structure Opening where
  name : Option String
  segments : List Segment

def Opening.key (o : Opening) : String :=
  o.name.getD Engine.oneOffNesting

namespace Engine

open Render (Point)
open Segment

/-- The executions that are open at a point of a render of `t`, the innermost first. A step that leads
deeper opens one: a partial tag opens the template that it stands for, and any other tag the output of
a lambda. -/
inductive Open (e : Engine σ) (t : Template) (start : Point σ) : List Opening → Point σ → Prop where
  | start : Open e t start [⟨some t.name, t.segments⟩] start
  | on {os : List Opening} {p q : Point σ} (opened : Open e t start os p) (step : e.Step true p q)
      (level : q.depth = p.depth) : Open e t start os q
  | inclusion {os : List Opening} {p q : Point σ} {name : String} {origin : Origin}
      {rest : List Segment} {u : Template} {store : Store σ} (opened : Open e t start os p)
      (step : e.Step true p q) (deeper : q.depth < p.depth)
      (stands : p.segments = .inclusion name origin :: rest)
      (got : e.getTemplate name p.state.store = (.ok (some u), store)) :
      Open e t start (⟨some u.name, u.segments⟩ :: os) q
  | output {os : List Opening} {p q : Point σ} (opened : Open e t start os p)
      (step : e.Step true p q) (deeper : q.depth < p.depth)
      (stands : ∀ name origin rest, p.segments ≠ .inclusion name origin :: rest) :
      Open e t start (⟨none, q.segments⟩ :: os) q

variable {e : Engine σ} {p q : Point σ}

/-! ### Steps -/

/-- What a step does to the openings: it stays on the level, or it enters one more execution, for which
there is room. -/
inductive Descends (e : Engine σ) (p q : Point σ) : Prop where
  | on (level : q.depth = p.depth) (nesting : q.state.context.nesting = p.state.context.nesting)
      (part : ∀ name ∈ inclusionsOf q.segments, name ∈ inclusionsOf p.segments)
  | inclusion {name : String} {origin : Origin} {rest : List Segment} {u : Template} {store : Store σ}
      (deeper : q.depth < p.depth) (stands : p.segments = .inclusion name origin :: rest)
      (got : e.getTemplate name p.state.store = (.ok (some u), store)) (segments : q.segments = u.segments)
      (nesting : q.state.context.nesting = p.state.context.nesting.enter u.name)
      (room : p.state.context.openings u.name < e.config.nestingLimit)
  | output (deeper : q.depth < p.depth)
      (stands : ∀ name origin rest, p.segments ≠ .inclusion name origin :: rest)
      (nesting : q.state.context.nesting = p.state.context.nesting.enter oneOffNesting)
      (room : p.state.context.openings oneOffNesting < e.config.nestingLimit)

theorem given_context {tag : SectionTag} {depth id : Nat} {children : List Segment} {l : Lambda}
    {s u : Render.State σ} {input : String}
    (given : Given tag (e.runAll (e.nestedIn depth) id children) l s input u) : u.context = s.context := by
  cases given with
  | literal _ => rfl
  | processed _ ran =>
    have keeps := e.runAll_keeps depth id children { s with sink := Sink.empty none }
    have after := congrArg (·.2.context) ran
    rw [Exec.captured_apply] at after
    exact after.symm.trans keeps

theorem given_sink {tag : SectionTag} {body : Exec σ Unit} {l : Lambda} {s u : Render.State σ}
    {input : String} (given : Given tag body l s input u) : u.sink = s.sink := by
  cases given with
  | literal _ => rfl
  | processed _ ran => exact (congrArg (·.2.sink) ran).symm

theorem produces_context {tag : ValueTag} {slot : Option Slot} {found : Found σ} {s u : Render.State σ}
    {l : Lambda} (produces : e.Produces tag slot found s l u) : u.context = s.context := by
  have learned (hint : Option (Hint σ)) : (learnHint slot hint s).context = s.context := by
    rcases learnHint_cases slot hint s with same | ⟨_, _, _, _, _, learned⟩
    · rw [same]
    · rw [learned]
  cases produces with
  | found _ => exact learned _
  | missing _ _ => rfl
  | silent _ _ _ => exact learned _

theorem step_descends (step : e.Step true p q) : e.Descends p q := by
  have children {tag : SectionTag} {children rest : List Segment} :
      ∀ name ∈ inclusionsOf children, name ∈ inclusionsOf (.block tag children :: rest) :=
    fun name member => List.mem_append_left _ member
  cases step with
  | @next _ depth id segment rest s t ran =>
    have context : t.context = s.context := by
      have keeps := e.run_keeps depth id segment s
      rwa [ran] at keeps
    exact .on rfl (congrArg (·.nesting) context) fun name member => List.mem_append_right _ member
  | scope _ _ _ _ _ => exact .on rfl rfl children
  | @item _ depth id _ below _ s _ store before _ _ t _ _ _ ran =>
    have context : t.context = s.context := by
      have keeps := e.forEachItem_keeps depth id below before { s with store }
      rwa [ran] at keeps
    exact .on rfl (congrArg (·.nesting) context) children
  | inverted _ _ _ => exact .on rfl rfl children
  | inclusion got room =>
    exact .inclusion (Nat.lt_succ_self _) rfl got rfl rfl (Nat.lt_of_not_le room)
  | output _ _ _ given _ enters =>
    have context := given_context given
    refine .output (Nat.lt_succ_self _) (fun _ _ _ => nofun) ?_ ?_
    · exact congrArg (·.nesting.enter oneOffNesting) context
    · have room := Nat.lt_of_not_le enters.room
      rwa [context] at room
  | input _ _ _ _ => exact .on rfl rfl children
  | value _ produces _ enters =>
    have context := produces_context produces
    refine .output (Nat.lt_succ_self _) (fun _ _ _ => nofun) ?_ ?_
    · exact congrArg (·.nesting.enter oneOffNesting) context
    · have room := Nat.lt_of_not_le enters.room
      rwa [context] at room

/-- At each point that is reached, certain executions are open. -/
theorem open_of_reaches {t : Template} {start : Point σ} (reaches : e.Reaches true start q) :
    ∃ os, e.Open t start os q := by
  induction reaches with
  | refl => exact ⟨_, .start⟩
  | tail _ step ih =>
    obtain ⟨os, opened⟩ := ih
    cases step_descends step with
    | on level _ _ => exact ⟨os, .on opened step level⟩
    | inclusion deeper stands got _ _ _ => exact ⟨_, .inclusion opened step deeper stands got⟩
    | output deeper stands _ _ => exact ⟨_, .output opened step deeper stands⟩

/-! ### Counting -/

/-- The context counts the open executions, none more often than the limit says, and what is left to
execute is part of the innermost one. -/
structure Counted (e : Engine σ) (os : List Opening) (p : Point σ) : Prop where
  tally : ∀ name, (os.map (·.key)).count name = p.state.context.openings name
  limited : ∀ name, p.state.context.openings name ≤ e.config.nestingLimit
  part : ∀ name ∈ inclusionsOf p.segments, ∃ o ∈ os, name ∈ inclusionsOf o.segments

theorem Counted.opens {os : List Opening} (counted : e.Counted os p) (o : Opening)
    (nesting : q.state.context.nesting = p.state.context.nesting.enter o.key)
    (room : p.state.context.openings o.key < e.config.nestingLimit)
    (segments : q.segments = o.segments) : e.Counted (o :: os) q := by
  have openings (name : String) : q.state.context.openings name =
      p.state.context.openings name + if name = o.key then 1 else 0 := by
    rw [← Context.openings_entered]
    simp only [Context.openings, Context.entered, nesting]
  refine ⟨fun name => ?_, fun name => ?_, fun name member => ?_⟩
  · rw [List.map_cons, List.count_cons, counted.tally, openings]
    simp only [beq_iff_eq, eq_comm (a := name)]
  · have limited := counted.limited name
    rw [openings]
    split
    · next same =>
      subst same
      omega
    · omega
  · exact ⟨o, List.mem_cons_self, segments ▸ member⟩

theorem open_counted {t : Template} {start : Point σ} {os : List Opening}
    (first : e.Counted [⟨some t.name, t.segments⟩] start) (opened : e.Open t start os q) :
    e.Counted os q := by
  induction opened with
  | start => exact first
  | @on _ p q _ step level ih =>
    cases step_descends step with
    | on _ nesting part =>
      have openings (name : String) : q.state.context.openings name = p.state.context.openings name :=
        congrArg (Openings.count name) nesting
      refine ⟨fun name => ?_, fun name => ?_, fun name member => ih.part name (part name member)⟩
      · rw [ih.tally, openings]
      · rw [openings]
        exact ih.limited name
    | inclusion deeper _ _ _ _ _ => exact absurd level (Nat.ne_of_lt deeper)
    | output deeper _ _ _ => exact absurd level (Nat.ne_of_lt deeper)
  | inclusion _ step deeper stands got ih =>
    cases step_descends step with
    | on level _ _ => exact absurd level (Nat.ne_of_lt deeper)
    | inclusion _ stands' got' segments nesting room =>
      rw [stands] at stands'
      cases stands'
      rw [got] at got'
      cases got'
      exact ih.opens _ nesting room segments
    | output _ other _ _ => exact absurd stands (other _ _ _)
  | output _ step deeper stands ih =>
    cases step_descends step with
    | on level _ _ => exact absurd level (Nat.ne_of_lt deeper)
    | inclusion _ stands' _ _ _ _ => exact absurd stands' (stands _ _ _)
    | output _ _ nesting room => exact ih.opens ⟨none, _⟩ nesting room rfl

/-! ### Names -/

theorem getTemplate_keyed (name : String) {store : Store σ}
    (keyed : store.Holds fun key t => t.name = key) :
    ((e.getTemplate name store).2.Holds fun key t => t.name = key) ∧
      ∀ t, (e.getTemplate name store).1 = .ok (some t) → t.name = name :=
  e.getTemplate_holds keyed fun _ _ _ => rfl

theorem keyed_carries (e : Engine σ) : e.Carries fun s t =>
    (s.Holds fun key t => t.name = key) → t.Holds fun key t => t.name = key where
  trans first second keyed := second (first keyed)
  looked same keyed shelf on := keyed shelf (same.templates ▸ on)
  learned _ _ _ _ keyed := keyed
  got name _ keyed := (getTemplate_keyed name keyed).1
  compiled origin tag source s keyed shelf on :=
    keyed shelf ((e.compileOneOff_carried origin tag source s).2.1 ▸ on)

/-- The stores that an engine can come to have, in whatever way it is used. -/
inductive Past (e : Engine σ) (start : Store σ) : Store σ → Prop where
  | new : Past e start start
  | used {s : Store σ} (past : Past e start s) (use : Use) : Past e start (e.use use s)
  | performed {s : Store σ} (past : Past e start s) (templates : List Template) (o : Operation) :
      Past e start (e.perform ⟨s, templates⟩ o).2.store

theorem keyed_emptied {s t : Store σ} (emptied : s.Emptied t) (keyed : s.Holds fun key t => t.name = key) :
    t.Holds fun key t => t.name = key := by
  intro shelf' on entry member t value
  obtain ⟨shelf, held, updated⟩ := emptied.templates shelf' on
  rcases updated.entries entry member with member | new
  · exact keyed shelf held entry member t value
  · exact new.elim

theorem getSource_templates (name : String) (s : Store σ) :
    (getSource name s).2.templates = s.templates := by
  unfold getSource
  rw [Attempt.state_bind]
  cases s.sources with
  | none =>
    simp only [locate_apply]
    rfl
  | some shelf =>
    have fetched := shelf.fetched Store.putSources locate name s
    simp only
    generalize Store.fetch shelf Store.putSources locate name s = out at fetched ⊢
    cases fetched with
    | answered => rfl
    | loaded r shelf' before after store' ran _ =>
      rw [locate_apply] at ran
      cases ran
      rfl

theorem use_keyed {s : Store σ} (keyed : s.Holds fun key t => t.name = key) (use : Use) :
    (e.use use s).Holds fun key t => t.name = key := by
  cases use with
  | get name => exact (getTemplate_keyed name keyed).1
  | source name =>
    intro shelf on
    exact keyed shelf (getSource_templates name s ▸ on)
  | render t data limit => exact e.keyed_carries.renderTo t data (Sink.empty limit) s keyed
  | forget matching => exact keyed_emptied (Store.emptied_invalidateTemplates matching s) keyed
  | relocate number locator => exact keyed

theorem perform_keyed {s : Store σ} (keyed : s.Holds fun key t => t.name = key)
    (templates : List Template) (o : Operation) :
    (e.perform ⟨s, templates⟩ o).2.store.Holds fun key t => t.name = key := by
  cases o with
  | compile name source =>
    simp only [perform]
    cases tree : Tree.ofSource name source e.split with
    | ok segments =>
      rw [e.compile_of_ok tree]
      exact keyed
    | error fault =>
      rw [e.compile_of_fault tree]
      exact keyed
  | get name =>
    have got := (getTemplate_keyed (e := e) name keyed).1
    simp only [perform]
    generalize e.getTemplate name s = out at got ⊢
    obtain ⟨_ | _ | _, _⟩ := out <;> exact got
  | render index data limit =>
    simp only [perform]
    split
    · exact keyed
    · exact e.keyed_carries.renderTo _ data (Sink.empty limit) s keyed
  | forgetTemplates matching =>
    exact keyed_emptied (Store.emptied_invalidateTemplates matching s) keyed
  | forgetMembers matching =>
    simp only [perform]
    split
    · exact keyed
    · exact keyed_emptied (Store.emptied_invalidateMembers _ matching s) keyed
  | wait nanos => exact keyed_emptied (Store.emptied_wait nanos s) keyed

theorem past_keyed {start s : Store σ} (keyed : start.Holds fun key t => t.name = key)
    (past : e.Past start s) : s.Holds fun key t => t.name = key := by
  induction past with
  | new => exact keyed
  | used _ use ih => exact use_keyed ih use
  | performed _ templates o ih => exact perform_keyed ih templates o

/-- Each of the executions is of the output of a lambda or of the template `t`, or a partial tag of one
of them names its template. -/
def Rooted (t : Template) (os : List Opening) : Prop :=
  ∀ o ∈ os, ∀ name, o.name = some name →
    name = t.name ∨ ∃ o' ∈ os, name ∈ inclusionsOf o'.segments

theorem Rooted.opens {t : Template} {os : List Opening} (rooted : Rooted t os) (o : Opening)
    (tagged : ∀ name, o.name = some name → ∃ o' ∈ os, name ∈ inclusionsOf o'.segments) :
    Rooted t (o :: os) := by
  have further {name : String} (tagged : ∃ o' ∈ os, name ∈ inclusionsOf o'.segments) :
      ∃ o' ∈ o :: os, name ∈ inclusionsOf o'.segments :=
    let ⟨o', within, tagged⟩ := tagged
    ⟨o', List.mem_cons_of_mem _ within, tagged⟩
  intro other member name given
  rcases List.mem_cons.mp member with rfl | member
  · exact Or.inr (further (tagged name given))
  · exact (rooted other member name given).imp_right further

/-- Each template that is open is the one rendered, or a partial tag of an open execution names it. -/
theorem open_named {t : Template} {start : Point σ} {os : List Opening}
    (keyed : start.state.store.Holds fun key t => t.name = key)
    (first : e.Counted [⟨some t.name, t.segments⟩] start) (opened : e.Open t start os q) :
    (q.state.store.Holds fun key t => t.name = key) ∧ Rooted t os := by
  induction opened with
  | start =>
    refine ⟨keyed, fun o member name named => ?_⟩
    obtain rfl := List.mem_singleton.mp member
    exact Or.inl (Option.some.inj named).symm
  | on _ step _ ih => exact ⟨e.keyed_carries.step_before step ih.1, ih.2⟩
  | @inclusion os p q name origin rest u store opened step deeper stands got ih =>
    obtain ⟨keyed, rooted⟩ := ih
    refine ⟨e.keyed_carries.step_before step keyed, rooted.opens _ fun other given => ?_⟩
    -- The tag stands in the innermost of the executions that were open before.
    have same : u.name = name := (getTemplate_keyed name keyed).2 u (congrArg Prod.fst got)
    rw [← Option.some.inj given, same]
    refine (open_counted first opened).part name ?_
    rw [stands]
    exact List.mem_append_left _ (List.mem_singleton_self name)
  | output _ step _ _ ih =>
    obtain ⟨keyed, rooted⟩ := ih
    exact ⟨e.keyed_carries.step_before step keyed, rooted.opens _ fun _ => nofun⟩

/-- Where a render starts, its template is open and nothing else. -/
theorem counted_entry (limit : 1 ≤ e.config.nestingLimit) (depth : Nat) (t : Template) (data : Value)
    (sink : Sink) (store : Store σ) : e.Counted [⟨some t.name, t.segments⟩]
      (entry depth t t.name ⟨store, startContext data, sink⟩) := by
  have none : (startContext data : Context σ).nesting = .empty := startContext_nesting data
  have outside : e.Counted [] ⟨depth, t.instanceId, [], ⟨store, startContext data, sink⟩⟩ := by
    refine ⟨fun name => ?_, fun name => ?_, nofun⟩
    · rw [Context.openings, none]
      rfl
    · rw [Context.openings, none]
      exact Nat.zero_le _
  refine outside.opens ⟨some t.name, t.segments⟩ rfl ?_ rfl
  rw [Context.openings, none]
  exact limit

/-! ### Bounds -/

theorem Counted.few {os : List Opening} (counted : e.Counted os p) (name : Option String) :
    os.countP (·.name = name) ≤ e.config.nestingLimit := by
  have tally := counted.tally (name.getD oneOffNesting)
  have limited := counted.limited (name.getD oneOffNesting)
  have fewer : os.countP (·.name = name) ≤ (os.map (·.key)).count (name.getD oneOffNesting) := by
    rw [List.count, List.countP_map]
    refine List.countP_mono_left fun o _ same => ?_
    rw [Function.comp_apply, Opening.key, of_decide_eq_true same]
    exact beq_self_eq_true _
  omega

/-- With the output of lambdas for one more name. -/
theorem length_le_of_countP_le {os : List Opening} {names : List String} {limit : Nat}
    (few : ∀ name, os.countP (·.name = name) ≤ limit)
    (within : ∀ o ∈ os, ∀ name, o.name = some name → name ∈ names) :
    os.length ≤ limit * (names.length + 1) := by
  have listed : ∀ name ∈ os.map (·.name), name ∈ none :: names.map some := by
    intro name member
    obtain ⟨o, open', rfl⟩ := List.mem_map.mp member
    cases named : o.name with
    | none => exact List.mem_cons_self
    | some name => exact List.mem_cons_of_mem _ (List.mem_map_of_mem (within o open' name named))
  have counted : ∀ name, (os.map (·.name)).count name ≤ limit := by
    intro name
    rw [List.count, List.countP_map]
    exact Nat.le_trans (List.countP_mono_left fun o _ same => by simpa using same) (few name)
  simpa using length_le_of_count_le listed counted

end Engine

namespace Blueprint

open Engine Segment
open Render (Point)

theorem precompile_keyed {e : Engine σ} {names : List String} {s t : Store σ} {r : Except Error Unit}
    (ran : precompile e names s = (r, t)) (keyed : s.Holds fun key t => t.name = key) :
    t.Holds fun key t => t.name = key := by
  induction names generalizing s with
  | nil =>
    cases ran
    exact keyed
  | cons name rest ih =>
    have got := (getTemplate_keyed (e := e) name keyed).1
    rw [precompile] at ran
    rcases looked : e.getTemplate name s with ⟨err | found, u⟩
    · rw [looked] at got
      rw [Attempt.bind_of_error looked] at ran
      cases ran
      exact got
    · rw [looked] at got
      rw [Attempt.bind_of_ok looked] at ran
      exact ih ran got

/-- A new engine holds no templates but those it has compiled in advance. -/
theorem build_keyed {b : Blueprint σ} {host : σ} {e : Engine σ} {start : Store σ}
    (built : b.build host = .ok (e, start)) :
    1 ≤ e.config.nestingLimit ∧ start.Holds fun key t => t.name = key := by
  obtain ⟨limit, resolved, allotted, precompiled⟩ := build_staged built
  refine ⟨limit, precompile_keyed precompiled ?_⟩
  exact (allotCaches_empty (initResolvers_untouched resolved).templates allotted _).1

/-- At each point of a render, in whatever way the engine has been used before, executions are open of
which no more than the limit allows are of one template, and no more of the output of lambdas. So they
are no more than the limit allows for each name, and for the output of lambdas: for the name of the
template rendered, and for those in partial tags of what is open. -/
theorem open_le {b : Blueprint σ} {host : σ} {e : Engine σ} {start store : Store σ}
    (built : b.build host = .ok (e, start)) (past : e.Past start store) (depth : Nat) (t : Template)
    (data : Value) (sink : Sink) {q : Point σ}
    (reaches : e.Reaches true (entry depth t t.name ⟨store, startContext data, sink⟩) q) :
    (∃ os, e.Open t (entry depth t t.name ⟨store, startContext data, sink⟩) os q) ∧
      ∀ os, e.Open t (entry depth t t.name ⟨store, startContext data, sink⟩) os q →
        (∀ name, os.countP (·.name = some name) ≤ e.config.nestingLimit) ∧
          os.countP (·.name = none) ≤ e.config.nestingLimit ∧
          os.length ≤ e.config.nestingLimit *
            ((t.name :: os.flatMap fun o => inclusionsOf o.segments).dedup.length + 1) := by
  refine ⟨open_of_reaches reaches, fun os opened => ?_⟩
  obtain ⟨limit, keyed⟩ := build_keyed built
  have first := counted_entry limit depth t data sink store
  have few := (open_counted first opened).few
  refine ⟨fun name => few (some name), few none, length_le_of_countP_le few fun o member name named => ?_⟩
  rw [List.mem_dedup]
  rcases (open_named (past_keyed keyed past) first opened).2 o member name named with rfl | ⟨o', within, tagged⟩
  · exact List.mem_cons_self
  · exact List.mem_cons_of_mem _ (List.mem_flatMap.mpr ⟨o', within, tagged⟩)

def circular : Blueprint Unit :=
  { standard with locators := [Locator.ofSources 0 [("a", "\x7b\x7b>a\x7d\x7d")]] }

/-- A template within itself. -/
theorem open_le_circular :
    ∃ e start os q, circular.build () = .ok (e, start) ∧
      let t : Template := ⟨0, "a", [.inclusion "a" ⟨"a", 1, 1⟩]⟩
      let p := entry 1 t t.name ⟨start, startContext .null, Sink.empty none⟩
      e.Reaches true p q ∧ e.Open t p os q ∧ os.map (·.name) = [some "a", some "a"] ∧
        (∀ name, os.countP (·.name = some name) ≤ e.config.nestingLimit) ∧
          os.countP (·.name = none) ≤ e.config.nestingLimit ∧
          os.length ≤ e.config.nestingLimit *
            ((t.name :: os.flatMap fun o => inclusionsOf o.segments).dedup.length + 1) := by
  have plain : circular.Plain := ⟨rfl, rfl, rfl⟩
  obtain ⟨e, start, built⟩ := build_ok plain (by decide) (by decide +kernel) rfl ()
  obtain ⟨lasts, _, sourced, _⟩ := build_made rfl rfl rfl built
  have founded : Founded (fun _ => []) circular () e start := build_founded plain.selfContained built
  have locators : start.locators = [(0, Locator.ofSources 0 [("a", "\x7b\x7b>a\x7d\x7d")])] :=
    founded.locators.trans (List.mergeSort_singleton _)
  have given : content e.split start.locators "a" = .ok (some [.inclusion "a" ⟨"a", 1, 1⟩]) := by
    rw [founded.split, locators]
    with_unfolding_all rfl
  obtain ⟨u, after, got, segments⟩ := sourced.gives lasts given
  have named : u.name = "a" := (getTemplate_keyed "a" (build_keyed built).2).2 u (congrArg Prod.fst got)
  have room : ¬ e.config.nestingLimit ≤
      ((startContext .null : Context Unit).entered "a").openings u.name := by
    rw [founded.config, named]
    decide
  let t : Template := ⟨0, "a", [.inclusion "a" ⟨"a", 1, 1⟩]⟩
  let p := entry 1 t t.name ⟨start, startContext .null, Sink.empty none⟩
  have step : e.Step true p _ := .inclusion got room
  have reaches : e.Reaches true p _ := .single step
  have first : e.Open t p [⟨some t.name, t.segments⟩] p := .start
  have opened := first.inclusion step (Nat.lt_succ_self _) rfl got
  refine ⟨e, start, _, _, built, reaches, opened, ?_, ?_⟩
  · rw [List.map_cons, List.map_singleton, named]
  · exact (open_le built .new 1 t .null (Sink.empty none) reaches).2 _ opened

end Blueprint

end Logicless
