import Logicless.Proofs.Course
import Logicless.Proofs.Session

/-!
# What is remembered in the course of a render

At every point of a render all that is remembered is right, and what stands there is part of a template
that is known (`Engine.RecallsAt.reaches`).
-/

namespace Logicless

variable {σ : Type} {rules : Rules σ} {ts : List Template}

open Render (Point)

structure Render.State.Recalls (split : KeySplitter) (rules : Rules σ) (ts : List Template)
    (s : Render.State σ) : Prop where
  store : s.store.Recalls split rules ts
  scopes : ∀ scope ∈ s.context.scopes, scope.value.Conforms rules.names

namespace Render.State.Recalls

variable {split : KeySplitter} {s : Render.State σ}

theorem itself (h : s.Recalls split rules ts) : s.Alike split rules (Template.alone ts) s :=
  ⟨rfl, rfl, h.scopes, .itself h.store⟩

/-- An execution that goes the same way beside itself keeps what is remembered right. -/
theorem mirrored {α : Type} {x : Exec σ α} (h : s.Recalls split rules ts)
    (mirrors : Exec.Mirrors split rules (Template.alone ts) x x) : (x s).2.Recalls split rules ts := by
  obtain ⟨_, alike⟩ := mirrors s s h.itself
  refine ⟨?_, alike.scopes⟩
  have recalls := alike.store.recalls
  rwa [Template.alone_fst] at recalls

theorem values (h : s.Recalls split rules ts) : ∀ v ∈ s.context.values, v.Conforms rules.names :=
  h.itself.values

theorem push (h : s.Recalls split rules ts) {v : Value} (conforms : v.Conforms rules.names)
    (leases : List (Lease σ)) :
    Render.State.Recalls split rules ts { s with context := s.context.push v leases } :=
  ⟨h.store, List.forall_mem_cons.mpr ⟨conforms, h.scopes⟩⟩

end Render.State.Recalls

namespace Engine

variable {e : Engine σ} {p q : Point σ} {s : Render.State σ}

section

variable (lawful : Lookup.Lawful rules e.resolvers)

include lawful

theorem sees_recalls (h : s.Recalls e.split rules ts) {parts : List String} {slot : Option Slot}
    (slotted : Store.Slotted ts parts slot) {found : Found σ} {store : Store σ}
    (sees : e.Sees parts slot s found store) :
    Render.State.Recalls e.split rules ts { s with store } ∧ found.leases = [] ∧
      Store.Hinted rules parts found.hint ∧ ∀ v, found.value = some v → v.Conforms rules.names := by
  obtain ⟨made, faithful, _⟩ := h.store
  have finds := find_lawful lawful (h.store.filled slotted) h.values faithful.members
  rw [sees] at finds
  generalize said : Lookup.said rules e.resolvers s.context.values parts = outcome at finds
  cases finds with
  | found hinted same indexed =>
    refine ⟨⟨h.store.looked same indexed, h.scopes⟩, rfl, hinted, fun v value => ?_⟩
    exact lawful.hereditary.said h.values (said.trans (congrArg Except.ok value))

theorem run_mirrors (depth : Nat) {t : Template} (member : t ∈ ts) {segment : Segment}
    (part : ∀ tag ∈ segment.valueTags, tag ∈ t.valueTags) :
    Exec.Mirrors e.split rules (Template.alone ts) (e.run (e.nestedIn depth) t.instanceId segment)
      (e.run (e.nestedIn depth) t.instanceId segment) := by
  have engines := Agree.itself lawful
  refine (mirror_kept engines _).run (nests_mirrors engines (nestedIn_mirrors engines depth)) _ _ segment ?_
  intro tag within
  have slotted := slotted_slot? (e := e) member (part tag within)
  refine ⟨?_, ?_⟩
  · rwa [Template.alone_fst]
  · rwa [Template.alone_snd]

theorem runAll_mirrors (depth : Nat) {t : Template} (member : t ∈ ts) {segments : List Segment}
    (part : ∀ tag ∈ Segment.valueTagsOf segments, tag ∈ t.valueTags) :
    Exec.Mirrors e.split rules (Template.alone ts) (e.runAll (e.nestedIn depth) t.instanceId segments)
      (e.runAll (e.nestedIn depth) t.instanceId segments) := by
  induction segments with
  | nil => exact .pure ()
  | cons segment rest ih =>
    refine .bind (run_mirrors lawful depth member fun tag within => part tag (List.mem_append_left _ within))
      fun _ => ih fun tag within => part tag (List.mem_append_right _ within)

end

structure RecallsAt (e : Engine σ) (rules : Rules σ) (ts : List Template) (p : Point σ) : Prop where
  state : p.state.Recalls e.split rules ts
  stands : ∃ t ∈ ts, p.instanceId = t.instanceId ∧ ∀ tag ∈ Segment.valueTagsOf p.segments, tag ∈ t.valueTags

theorem EntersOutput.recalls (h : s.Recalls e.split rules ts) {origin : Origin} {tag output : String}
    {t : Template} {store : Store σ} (enters : e.EntersOutput origin tag output s t store) :
    store.Recalls e.split rules (t :: ts) :=
  (recalls_compiled h.store enters.compiled).2

theorem RecallsAt.entered {t : Template} {depth : Nat} {name : String} {store : Store σ} {sink : Sink}
    (recalls : store.Recalls e.split rules (t :: ts))
    (scopes : ∀ scope ∈ s.context.scopes, scope.value.Conforms rules.names) :
    e.RecallsAt rules (t :: ts) (entry depth t name { s with store, sink }) :=
  ⟨⟨recalls, scopes⟩, t, List.mem_cons_self, rfl, fun _ => id⟩

namespace RecallsAt

variable (lawful : Lookup.Lawful rules e.resolvers)

include lawful

/-- What is remembered is still right when a lambda is given its input. -/
theorem given (here : e.RecallsAt rules ts p) {tag : SectionTag} {children rest : List Segment}
    (stands : p.segments = .block tag children :: rest) {found : Found σ} {store : Store σ}
    (sees : e.Sees tag.parts none p.state found store) {l : Lambda} {input : String} {u : Render.State σ}
    (given : Given tag (e.runAll (e.nestedIn p.depth) p.instanceId children) l { p.state with store } input u) :
    u.Recalls e.split rules ts := by
  obtain ⟨state, t, member, same, part⟩ := here
  have unslotted : Store.Slotted ts tag.parts none := nofun
  obtain ⟨state, _⟩ := sees_recalls lawful state unslotted sees
  cases given with
  | literal _ => exact state
  | processed _ ran =>
    rw [same] at ran
    have body := runAll_mirrors lawful p.depth member fun tag within =>
      part tag (stands ▸ Segment.valueTagsOf_children tag within)
    have recalls := state.mirrored body.captured
    rwa [ran] at recalls

/-- What is remembered is still right when a lambda is to produce a value. -/
theorem produces (here : e.RecallsAt rules ts p) {tag : ValueTag} {rest : List Segment}
    (stands : p.segments = .value tag :: rest) {found : Found σ} {store : Store σ}
    (sees : e.Sees tag.parts (e.slot? p.instanceId tag) p.state found store) {l : Lambda}
    {u : Render.State σ}
    (produces : e.Produces tag (e.slot? p.instanceId tag) found { p.state with store } l u) :
    u.Recalls e.split rules ts := by
  obtain ⟨state, t, member, same, part⟩ := here
  rw [same] at sees produces
  have slotted := slotted_slot? (e := e) member <| part tag <|
    stands ▸ List.mem_append_left _ (List.mem_singleton_self tag)
  obtain ⟨state, _, hinted, _⟩ := sees_recalls lawful state slotted sees
  have learned : (learnHint (e.slot? t.instanceId tag) found.hint { p.state with store }).Recalls e.split
      rules ts := by
    refine state.mirrored (x := Attempt.update (learnHint (e.slot? t.instanceId tag) found.hint))
      (.learnHint ?_ ?_ hinted hinted)
    · rwa [Template.alone_fst]
    · rwa [Template.alone_snd]
  cases produces with
  | found _ => exact learned
  | missing _ _ => exact state
  | silent _ _ _ => exact learned

/-- From each point to the next, what is remembered stays right, and is more if a template is entered. -/
theorem step (here : e.RecallsAt rules ts p) (step : e.Step true p q) :
    ∃ ts, e.RecallsAt rules ts q := by
  obtain ⟨state, t, member, same, part⟩ := here
  -- Segments of the same template are executed further on.
  have stays (recalls : q.state.Recalls e.split rules ts) (id : q.instanceId = p.instanceId)
      (less : ∀ tag ∈ Segment.valueTagsOf q.segments, tag ∈ Segment.valueTagsOf p.segments) :
      ∃ ts, e.RecallsAt rules ts q :=
    ⟨ts, recalls, t, member, id.trans same, fun tag within => part tag (less tag within)⟩
  have unslotted {parts : List String} : Store.Slotted ts parts none := nofun
  cases step with
  | @next _ depth id segment rest s _ ran =>
    obtain rfl : id = t.instanceId := same
    have recalls := state.mirrored
      (run_mirrors lawful depth member fun tag within => part tag (List.mem_append_left _ within))
    rw [ran] at recalls
    exact stays recalls rfl fun _ within => List.mem_append_right _ within
  | scope _ sees value _ _ =>
    obtain ⟨state, _, _, conforms⟩ := sees_recalls lawful state unslotted sees
    exact stays (state.push (conforms _ value) _) rfl Segment.valueTagsOf_children
  | @item _ depth id tag below _ s _ store before item _ _ _ sees value ran =>
    obtain rfl : id = t.instanceId := same
    obtain ⟨state, _, _, conforms⟩ := sees_recalls lawful state unslotted sees
    cases conforms _ value with
    | list conforms =>
      have body := runAll_mirrors lawful depth member fun tag within =>
        part tag (Segment.valueTagsOf_children tag within)
      have recalls := state.mirrored <| (mirror_kept (.itself lawful) _).forEachItem body
        fun v within => conforms v (List.mem_append_left _ within)
      rw [ran] at recalls
      exact stays (recalls.push (conforms item (by simp)) []) rfl Segment.valueTagsOf_children
  | @inverted _ _ _ _ _ _ s found store _ sees _ =>
    obtain ⟨state, leases, _⟩ := sees_recalls lawful state unslotted sees
    have unreleased : Exec.release found { s with store } = { s with store } := by
      simp only [Exec.release, Found.release, leases, Store.releaseAll, List.foldl_nil]
    refine stays ?_ rfl Segment.valueTagsOf_children
    show Render.State.Recalls _ _ _ (Exec.release found { s with store })
    rwa [unreleased]
  | inclusion got _ => exact ⟨_, .entered (recalls_obtained state.store got) state.scopes⟩
  | output _ sees _ given _ enters =>
    have recalls := RecallsAt.given lawful ⟨state, t, member, same, part⟩ rfl sees given
    exact ⟨_, .entered (EntersOutput.recalls recalls enters) recalls.scopes⟩
  | input _ sees _ _ =>
    obtain ⟨state, _⟩ := sees_recalls lawful state unslotted sees
    exact stays ⟨state.store, state.scopes⟩ rfl Segment.valueTagsOf_children
  | value sees produces _ enters =>
    have recalls := RecallsAt.produces lawful ⟨state, t, member, same, part⟩ rfl sees produces
    exact ⟨_, .entered (EntersOutput.recalls recalls enters) recalls.scopes⟩

theorem reaches (here : e.RecallsAt rules ts p) (reaches : e.Reaches true p q) :
    ∃ ts, e.RecallsAt rules ts q := by
  induction reaches with
  | refl => exact ⟨ts, here⟩
  | tail _ step ih =>
    obtain ⟨_, there⟩ := ih
    exact there.step lawful step

omit lawful in
theorem start {store : Store σ} (recalls : store.Recalls e.split rules ts) {t : Template}
    (member : t ∈ ts) {data : Value} (conforms : data.Conforms rules.names) (sink : Sink) :
    e.RecallsAt rules ts (e.startPoint t data sink store) := by
  refine ⟨⟨recalls, fun scope within => ?_⟩, t, member, rfl, fun _ => id⟩
  exact startContext_conforms conforms scope within

end RecallsAt

end Engine

end Logicless
