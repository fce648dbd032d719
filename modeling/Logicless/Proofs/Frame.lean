import Logicless.Proofs.Leasing

/-!
# Executions keep their context

However an execution ends, it leaves the context as it was (`Engine.execution_keeps`). So what is
executed after it finds the same scopes, leases and open templates.
-/

namespace Logicless

variable {σ α : Type}

namespace Exec

/-- However it ends, the execution leaves the context as it was: the scopes with the leases that each
of them holds, the leases of the context itself, and how often each template is open. -/
def Keeps (x : Exec σ α) : Prop :=
  ∀ s, (x s).2.context = s.context

/-- `all` is `first` and then, unless that fails, `rest` in the same context. -/
def InTurn (first rest all : Exec σ Unit) : Prop :=
  ∀ s, ∃ r t, first s = (r, t) ∧ t.context = s.context ∧
    all s = match r with
      | .ok () => rest t
      | .error halt => (.error halt, t)

variable {x y : Exec σ Unit}

theorem Keeps.of_balanced {x : Exec σ α} (h : ∀ start, Balanced start x) : Keeps x :=
  fun s => (h s.store [] s s.store.owes_self).1

theorem Keeps.inTurn (h : Keeps x) : InTurn x y (x >>= fun _ => y) := by
  intro s
  refine ⟨(x s).1, (x s).2, rfl, h s, ?_⟩
  rw [Attempt.bind_apply]
  rcases x s with ⟨_ | _, _⟩ <;> rfl

end Exec

namespace Engine

variable (e : Engine σ)

theorem runAll_append (inner : Template → Exec σ Unit) (instanceId : Nat)
    (before after : List Segment) :
    e.runAll inner instanceId (before ++ after) =
      e.runAll inner instanceId before >>= fun _ => e.runAll inner instanceId after := by
  induction before with
  | nil => rfl
  | cons segment rest ih => rw [List.cons_append, runAll, runAll, ih, bind_assoc]

theorem forEachItem_append (body : Exec σ Unit) (before after : List Value) :
    forEachItem body (before ++ after) =
      forEachItem body before >>= fun _ => forEachItem body after := by
  induction before with
  | nil => rfl
  | cons item rest ih => rw [List.cons_append, forEachItem, forEachItem, ih, bind_assoc]

theorem run_keeps (depth instanceId : Nat) (segment : Segment) :
    (e.run (e.nestedIn depth) instanceId segment).Keeps :=
  .of_balanced fun start => (e.balance_kept start).run (e.nestedIn_nests start depth) instanceId
    instanceId segment fun _ _ => trivial

theorem runAll_keeps (depth instanceId : Nat) (segments : List Segment) :
    (e.runAll (e.nestedIn depth) instanceId segments).Keeps :=
  .of_balanced fun start => (e.balance_kept start).runAll (e.nestedIn_nests start depth) instanceId
    instanceId segments fun _ _ => trivial

theorem forEachItem_keeps (depth instanceId : Nat) (children : List Segment) (items : List Value) :
    (forEachItem (e.runAll (e.nestedIn depth) instanceId children) items).Keeps := by
  refine .of_balanced fun start => ?_
  have body := (e.balance_kept start).runAll (e.nestedIn_nests start depth) instanceId instanceId
    children fun _ _ => trivial
  exact (e.balance_kept start).forEachItem body fun _ _ => trivial

/-- Segments, and what `inner` executes within them, leave the context as it was. So siblings are
executed in the same context, and so are the children of a section for each element of a list. -/
structure Kept (inner : Template → Exec σ Unit) : Prop where
  template : ∀ t, (inner t).Keeps
  segment : ∀ instanceId segment, (e.run inner instanceId segment).Keeps
  segments : ∀ instanceId segments, (e.runAll inner instanceId segments).Keeps
  inclusion : ∀ name origin, (e.runInclusion inner name origin).Keeps
  oneOff : ∀ origin tag source, (e.renderOneOff inner origin tag source).Keeps
  siblings : ∀ instanceId before after,
    Exec.InTurn (e.runAll inner instanceId before) (e.runAll inner instanceId after)
      (e.runAll inner instanceId (before ++ after))
  elements : ∀ instanceId children before after,
    Exec.InTurn (forEachItem (e.runAll inner instanceId children) before)
      (forEachItem (e.runAll inner instanceId children) after)
      (forEachItem (e.runAll inner instanceId children) (before ++ after))

theorem nestedIn_kept (depth : Nat) : e.Kept (e.nestedIn depth) where
  template t := .of_balanced fun start => e.nestedIn_balanced start depth t
  segment := e.run_keeps depth
  segments := e.runAll_keeps depth
  inclusion name origin := .of_balanced fun start => (e.nestedIn_nests start depth).inclusion name origin
  oneOff origin tag source :=
    .of_balanced fun start => (e.nestedIn_nests start depth).oneOff origin tag source
  siblings instanceId before after := by
    rw [runAll_append]
    exact (e.runAll_keeps depth instanceId before).inTurn
  elements instanceId children before after := by
    rw [forEachItem_append]
    exact (e.forEachItem_keeps depth instanceId children before).inTurn

/-- Whatever is executed leaves the context as it was. To enter a template changes how often that
template is open and nothing else, and if the template is refused, it changes nothing at all. -/
theorem execution_keeps :
    (∀ t, (e.execute t).Keeps) ∧ (∀ depth t, (e.executeWithin depth t).Keeps) ∧
      (∀ depth, e.Kept (e.nestedIn depth)) ∧
      ∀ (c : Context σ) limit name,
        match c.enter limit name with
        | .error refused => limit ≤ c.openings name ∧ refused = c
        | .ok entered => c.openings name < limit ∧ entered.leave name = c ∧
            entered.scopes = c.scopes ∧ entered.leases = c.leases ∧
            ∀ other, entered.openings other = c.openings other + if other = name then 1 else 0 := by
  refine ⟨fun t => ?_, fun depth t => ?_, e.nestedIn_kept, fun c limit name => ?_⟩
  · exact .of_balanced fun start => e.execute_balanced start t
  · exact .of_balanced fun start => e.executeWithin_balanced start depth t
  · rw [c.enter_eq]
    by_cases full : limit ≤ c.openings name
    · rw [if_pos full]
      exact ⟨full, rfl⟩
    · rw [if_neg full]
      exact ⟨Nat.lt_of_not_le full, c.leave_entered name, rfl, rfl, c.openings_entered name⟩

end Engine

end Logicless
