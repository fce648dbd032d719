import Logicless.Engine.Build
import Logicless.Proofs.Custody
import Mathlib.Data.List.Count
import Mathlib.Data.Nat.Init

/-!
# Release callbacks are conserved

Whatever is done with a context, each callback is with one holder from when it is registered until
this holder ends. Then it runs, once, the callbacks of one holder in reverse order of registration
(`Engine.callAll_conserves`).
-/

namespace Logicless

variable {σ : Type}

/-! ### What one act does -/

namespace Act

variable {a : Act σ} {s t : Custody σ} {r : Except Error Unit} {h : Holder} {id : Nat}

theorem ends_nodup (a : Act σ) (s : Custody σ) : (a.ends s).Nodup := by
  cases a with
  | pop =>
    rw [ends]
    split
    · exact .nil
    · exact List.nodup_singleton _
  | close =>
    have scopes : ((List.range s.scopes.length).reverse.map Holder.scope).Nodup :=
      (List.nodup_reverse.mpr List.nodup_range).map fun _ _ => Holder.scope.inj
    refine List.Nodup.append scopes (List.nodup_singleton _) fun h scope context => ?_
    obtain ⟨_, _, rfl⟩ := List.mem_map.mp scope
    exact absurd (List.mem_singleton.mp context) nofun
  | drop lookup => exact List.nodup_singleton _
  | _ => exact .nil

/-- An act that registers callbacks ends nothing. -/
theorem ends_of_registrar (some : a.registrar s = some h) : a.ends s = [] := by
  cases a <;> first | rfl | cases some

theorem mem_left {ids : List Nat} : id ∈ left r ids ↔ r = .ok () ∧ id ∈ ids := by
  cases r <;> simp

theorem mem_undone {ids : List Nat} : id ∈ undone r ids ↔ r ≠ .ok () ∧ id ∈ ids := by
  cases r <;> simp

theorem Lawful.mem_registered (lawful : a.Lawful s r t) :
    id ∈ s.registered t ↔ s.store.leases ≤ id ∧ id < t.store.leases := by
  have later := lawful.later
  rw [Custody.registered, List.mem_range'_1]
  omega

theorem Lawful.mem_holds (lawful : a.Lawful s r t) : id ∈ t.holds h ↔
    (a.registrar s = some h ∧ r = .ok () ∧ id ∈ s.registered t) ∨ (id ∈ s.holds h ∧ h ∉ a.ends s) := by
  rw [lawful.holds h]
  by_cases ended : h ∈ a.ends s
  · rw [if_pos ended]
    refine iff_of_false List.not_mem_nil ?_
    rintro (⟨registrar, _⟩ | ⟨_, open_⟩)
    · rw [ends_of_registrar registrar] at ended
      exact absurd ended List.not_mem_nil
    · exact open_ ended
  · rw [if_neg ended, List.mem_append]
    by_cases registrar : a.registrar s = some h
    · rw [if_pos registrar, mem_left]
      simp only [registrar, ended, true_and, not_false_eq_true, and_true]
    · rw [if_neg registrar]
      simp only [registrar, ended, List.not_mem_nil, false_and, false_or, not_false_eq_true, and_true]

/-- Only a lookup can fail. -/
theorem get_of_error {e : Engine σ} {err : Error} (failed : (e.act a s).1 = .error err) :
    ∃ parts slot, a = .get parts slot := by
  cases a with
  | get parts slot => exact ⟨parts, slot, rfl⟩
  | _ => cases failed

end Act

/-! ### Every callback is held or has run -/

namespace Custody

def runs (s : Custody σ) (id : Nat) : Nat :=
  s.store.leaseLog.count (.released id)

/-- The callback has been registered, and no one has it any more. -/
def Done (s : Custody σ) (id : Nat) : Prop :=
  id < s.store.leases ∧ ∀ h, id ∉ s.holds h

/-- Of the callbacks that have been registered since `start`, each is with one holder or has run. -/
structure Sound (start s : Custody σ) : Prop where
  latestFirst : ∀ h, (s.holds h).Pairwise (· > ·)
  numbered : ∀ h, ∀ id ∈ s.holds h, start.store.leases ≤ id ∧ id < s.store.leases
  single : ∀ {h h' id}, id ∈ s.holds h → id ∈ s.holds h' → h = h'
  later : start.store.leases ≤ s.store.leases
  ran : ∀ {id}, start.store.leases ≤ id → s.Done id → s.runs id = start.runs id + 1
  waits : ∀ {id}, ¬(start.store.leases ≤ id ∧ s.Done id) → s.runs id = start.runs id

variable {start s t : Custody σ} {a : Act σ} {r : Except Error Unit} {id : Nat}

theorem sound_new (store : Store σ) : Sound (.new store) (.new store) := by
  have none (h : Holder) : (Custody.new store).holds h = [] := by
    cases h with
    | scope height => exact heldAt_of_le (Nat.zero_le _)
    | _ => rfl
  refine ⟨fun h => ?_, fun h id member => ?_, fun {h _ _} member => ?_, Nat.le_refl _,
    fun le done => ?_, fun _ => rfl⟩
  · rw [none]
    exact .nil
  · rw [none] at member
    exact absurd member List.not_mem_nil
  · rw [none] at member
    exact absurd member List.not_mem_nil
  · exact absurd done.1 (Nat.not_lt.mpr le)

def ranIn (a : Act σ) (s : Custody σ) (r : Except Error Unit) (t : Custody σ) : List Nat :=
  (a.ends s).flatMap s.holds ++ Act.undone r (s.registered t)

theorem mem_ranIn : id ∈ ranIn a s r t ↔
    (∃ h ∈ a.ends s, id ∈ s.holds h) ∨ (r ≠ .ok () ∧ id ∈ s.registered t) := by
  rw [ranIn, List.mem_append, List.mem_flatMap, Act.mem_undone]

theorem Sound.ranIn_nodup (sound : Sound start s) (lawful : a.Lawful s r t) :
    (ranIn a s r t).Nodup := by
  have held : ((a.ends s).flatMap s.holds).Nodup := by
    refine List.nodup_flatMap.mpr ⟨fun h _ => (sound.latestFirst h).imp fun lt => Nat.ne_of_gt lt, ?_⟩
    exact (Act.ends_nodup a s).imp fun ne id member member' => ne (sound.single member member')
  have undone : (Act.undone r (s.registered t)).Nodup := by
    cases r with
    | ok => exact .nil
    | error => exact List.nodup_reverse.mpr List.nodup_range'
  refine held.append undone fun id member member' => ?_
  obtain ⟨h, _, member⟩ := List.mem_flatMap.mp member
  have before := (sound.numbered h id member).2
  have registered := lawful.mem_registered.mp (Act.mem_undone.mp member').2
  omega

theorem Sound.runs_step (sound : Sound start s) (lawful : a.Lawful s r t) (id : Nat) :
    t.runs id = s.runs id + if id ∈ ranIn a s r t then 1 else 0 := by
  have released (ids : List Nat) :
      ((ids.map LeaseEvent.released).reverse).count (.released id) = ids.count id := by
    rw [List.count_reverse]
    exact List.count_map_of_injective ids LeaseEvent.released (fun _ _ => LeaseEvent.released.inj) id
  have taken (ids : List Nat) : ((ids.map LeaseEvent.taken).reverse).count (.released id) = 0 := by
    rw [List.count_reverse]
    refine List.count_eq_zero.mpr fun member => ?_
    obtain ⟨_, _, absurd⟩ := List.mem_map.mp member
    cases absurd
  have log := congrArg (List.count (.released id)) lawful.log
  rw [List.count_append, List.count_append, released, taken] at log
  have count := (sound.ranIn_nodup lawful).count (a := id)
  unfold ranIn at count ⊢
  unfold runs
  omega

theorem done_or_ran (lawful : a.Lawful s r t) (done : t.Done id) :
    s.Done id ∨ id ∈ ranIn a s r t := by
  obtain ⟨lt, free⟩ := done
  rw [mem_ranIn]
  by_cases old : id < s.store.leases
  · by_cases held : ∃ h, id ∈ s.holds h
    · obtain ⟨h, held⟩ := held
      have ended : h ∈ a.ends s := by
        by_contra open_
        exact free h (lawful.mem_holds.mpr (.inr ⟨held, open_⟩))
      exact .inr (.inl ⟨h, ended, held⟩)
    · exact .inl ⟨old, not_exists.mp held⟩
  · have registered : id ∈ s.registered t := lawful.mem_registered.mpr ⟨Nat.le_of_not_lt old, lt⟩
    obtain ⟨h, registrar⟩ :=
      Option.isSome_iff_exists.mp (lawful.registrar (List.ne_nil_of_mem registered))
    refine .inr (.inr ⟨fun ok => ?_, registered⟩)
    exact free h (lawful.mem_holds.mpr (.inl ⟨registrar, ok, registered⟩))

theorem done_of_done (lawful : a.Lawful s r t) (done : s.Done id) :
    t.Done id := by
  obtain ⟨lt, free⟩ := done
  refine ⟨Nat.lt_of_lt_of_le lt lawful.later, fun h held => ?_⟩
  rcases lawful.mem_holds.mp held with ⟨_, _, registered⟩ | ⟨held, _⟩
  · exact Nat.not_lt.mpr (lawful.mem_registered.mp registered).1 lt
  · exact free h held

theorem Sound.done_of_ran (sound : Sound start s) (lawful : a.Lawful s r t)
    (ran : id ∈ ranIn a s r t) : t.Done id := by
  have later := lawful.later
  rcases mem_ranIn.mp ran with ⟨h', ended, held'⟩ | ⟨failed, registered'⟩
  · have old := (sound.numbered h' id held').2
    refine ⟨by omega, fun h held => ?_⟩
    rcases lawful.mem_holds.mp held with ⟨_, _, registered⟩ | ⟨held, open_⟩
    · have new := (lawful.mem_registered.mp registered).1
      omega
    · exact open_ (sound.single held' held ▸ ended)
  · have new := lawful.mem_registered.mp registered'
    refine ⟨new.2, fun h held => ?_⟩
    rcases lawful.mem_holds.mp held with ⟨_, ok, _⟩ | ⟨held, _⟩
    · exact failed ok
    · have old := (sound.numbered h id held).2
      omega

/-- In an act a callback becomes done if it runs, and in no other way. -/
theorem Sound.done_step (sound : Sound start s) (lawful : a.Lawful s r t) :
    t.Done id ↔ s.Done id ∨ id ∈ ranIn a s r t :=
  ⟨done_or_ran lawful, fun done => done.elim (done_of_done lawful) (sound.done_of_ran lawful)⟩

theorem Sound.not_done (sound : Sound start s) (lawful : a.Lawful s r t) (ran : id ∈ ranIn a s r t) :
    start.store.leases ≤ id ∧ ¬s.Done id := by
  have later := sound.later
  rcases mem_ranIn.mp ran with ⟨h, _, held⟩ | ⟨_, registered⟩
  · exact ⟨(sound.numbered h id held).1, fun done => done.2 h held⟩
  · have new := (lawful.mem_registered.mp registered).1
    exact ⟨by omega, fun done => Nat.not_lt.mpr new done.1⟩

theorem Sound.latestFirst_step (sound : Sound start s) (lawful : a.Lawful s r t) (h : Holder) :
    (t.holds h).Pairwise (· > ·) := by
  rw [lawful.holds h]
  split
  · exact .nil
  · refine List.pairwise_append.mpr ⟨?_, sound.latestFirst h, fun id member id' held => ?_⟩
    · split
      · cases r with
        | ok => exact List.pairwise_reverse.mpr List.pairwise_lt_range'
        | error => exact .nil
      · exact .nil
    · have old := (sound.numbered h id' held).2
      split at member
      · have new := (lawful.mem_registered.mp (Act.mem_left.mp member).2).1
        omega
      · exact absurd member List.not_mem_nil

/-- What is registered in an act goes to one holder, and none had it before. -/
theorem Sound.single_step (sound : Sound start s) (lawful : a.Lawful s r t) {h h' : Holder}
    (held : id ∈ t.holds h) (held' : id ∈ t.holds h') : h = h' := by
  rcases lawful.mem_holds.mp held with ⟨registrar, _, registered⟩ | ⟨held, _⟩
  · have new := (lawful.mem_registered.mp registered).1
    rcases lawful.mem_holds.mp held' with ⟨registrar', _, _⟩ | ⟨held', _⟩
    · exact Option.some.inj (registrar.symm.trans registrar')
    · have old := (sound.numbered h' id held').2
      omega
  · have old := (sound.numbered h id held).2
    rcases lawful.mem_holds.mp held' with ⟨_, _, registered'⟩ | ⟨held', _⟩
    · have new := (lawful.mem_registered.mp registered').1
      omega
    · exact sound.single held held'

theorem Sound.step (sound : Sound start s) (lawful : a.Lawful s r t) : Sound start t where
  latestFirst := sound.latestFirst_step lawful
  numbered h id held := by
    have later := lawful.later
    have since := sound.later
    rcases lawful.mem_holds.mp held with ⟨_, _, registered⟩ | ⟨held, _⟩
    · have new := lawful.mem_registered.mp registered
      omega
    · have old := sound.numbered h id held
      omega
  single := sound.single_step lawful
  later := Nat.le_trans sound.later lawful.later
  ran {id} le done := by
    rw [sound.runs_step lawful id]
    rcases (sound.done_step lawful).mp done with before | ran
    · rw [sound.ran le before, if_neg fun ran => (sound.not_done lawful ran).2 before]
    · rw [sound.waits fun before => (sound.not_done lawful ran).2 before.2, if_pos ran]
  waits {id} waits := by
    have idle : id ∉ ranIn a s r t := fun ran =>
      have le := (sound.not_done lawful ran).1
      waits ⟨le, (sound.done_step lawful).mpr (.inr ran)⟩
    rw [sound.runs_step lawful id, if_neg idle]
    exact sound.waits fun ⟨le, done⟩ => waits ⟨le, (sound.done_step lawful).mpr (.inl done)⟩

end Custody

/-! ### Times -/

namespace Engine

open Custody

variable {e : Engine σ} {start : Custody σ} {acts : List (Act σ)} {store : Store σ} {id n m : Nat}

def moment (e : Engine σ) (acts : List (Act σ)) (start : Custody σ) (n : Nat) : Custody σ :=
  e.play (acts.take n) start

theorem moment_succ {a : Act σ} (act_n : acts[n]? = some a) :
    e.moment acts start (n + 1) = (e.act a (e.moment acts start n)).2 := by
  rw [moment, List.take_add_one, act_n, play_append]
  rfl

theorem moment_of_le (le : acts.length ≤ n) : e.moment acts start n = e.play acts start := by
  rw [moment, List.take_of_length_le le]

theorem play_sound {s : Custody σ} (sound : Sound start s) : Sound start (e.play acts s) := by
  induction acts generalizing s with
  | nil => exact sound
  | cons a rest ih => exact ih (sound.step (e.act_lawful a s))

theorem moment_sound (e : Engine σ) (acts : List (Act σ)) (store : Store σ) (n : Nat) :
    Sound (.new store) (e.moment acts (.new store) n) :=
  play_sound (sound_new store)

/-- From one time to the next there is an act, or nothing changes. -/
theorem moment_step (e : Engine σ) (acts : List (Act σ)) (start : Custody σ) (n : Nat) :
    (∃ a, acts[n]? = some a ∧ a.Lawful (e.moment acts start n) (e.act a (e.moment acts start n)).1
      (e.moment acts start (n + 1))) ∨
    e.moment acts start (n + 1) = e.moment acts start n := by
  cases act_n : acts[n]? with
  | some a =>
    refine .inl ⟨a, rfl, ?_⟩
    rw [moment_succ act_n]
    exact e.act_lawful a _
  | none =>
    have past := List.getElem?_eq_none_iff.mp act_n
    exact .inr ((moment_of_le (Nat.le_succ_of_le past)).trans (moment_of_le past).symm)

/-- What once holds for good has a time when it begins. -/
theorem exists_onset {P : Nat → Prop} (stays : ∀ k, P k → P (k + 1)) (before : ¬P 0) (after : P n) :
    ∃ k, ∀ i, P i ↔ k < i := by
  induction n with
  | zero => exact absurd after before
  | succ n ih =>
    by_cases already : P n
    · exact ih already
    · refine ⟨n, fun i => ⟨fun holds => ?_, fun lt => Nat.le_induction after (fun i _ => stays i) i lt⟩⟩
      by_contra le
      exact already (Nat.le_induction holds (fun i _ => stays i) n (Nat.le_of_not_lt le))

/-- A callback is registered in one act and runs in another. In between one holder has it, and it runs
because this holder ends. If a lookup fails, its callbacks run in the same act. -/
structure Lives (e : Engine σ) (acts : List (Act σ)) (start : Custody σ) (id n m : Nat) : Prop where
  registered : id ∈ (e.moment acts start n).registered (e.moment acts start (n + 1))
  runs : ∀ k, (e.moment acts start k).runs id = start.runs id + if m < k then 1 else 0
  held : (∃ a b h, acts[n]? = some a ∧ acts[m]? = some b ∧
      a.registrar (e.moment acts start n) = some h ∧ h ∈ b.ends (e.moment acts start m) ∧ n < m ∧
      ∀ k, id ∈ (e.moment acts start k).holds h ↔ n < k ∧ k ≤ m) ∨
    (∃ parts slot err, acts[n]? = some (.get parts slot) ∧
      (e.act (.get parts slot) (e.moment acts start n)).1 = .error err ∧ m = n)

structure Spans (e : Engine σ) (acts : List (Act σ)) (store : Store σ) (id n m : Nat) : Prop where
  there : ∀ k, id < (e.moment acts (.new store) k).store.leases ↔ n < k
  done : ∀ k, (e.moment acts (.new store) k).Done id ↔ m < k

theorem exists_spans (le : store.leases ≤ id) {N : Nat}
    (done : (e.moment acts (.new store) N).Done id) : ∃ n m, e.Spans acts store id n m := by
  obtain ⟨n, there⟩ : ∃ n, ∀ k, id < (e.moment acts (.new store) k).store.leases ↔ n < k := by
    refine exists_onset (fun k lt => ?_) (Nat.not_lt.mpr le) done.1
    rcases moment_step e acts (.new store) k with ⟨_, _, lawful⟩ | same
    · exact Nat.lt_of_lt_of_le lt lawful.later
    · rwa [same]
  obtain ⟨m, done⟩ : ∃ m, ∀ k, (e.moment acts (.new store) k).Done id ↔ m < k := by
    refine exists_onset (fun k done => ?_) (fun done => Nat.not_lt.mpr le done.1) done
    rcases moment_step e acts (.new store) k with ⟨_, _, lawful⟩ | same
    · exact ((moment_sound e acts store k).done_step lawful).mpr (.inl done)
    · rwa [same]
  exact ⟨n, m, there, done⟩

section

variable (spans : e.Spans acts store id n m)
include spans

theorem Spans.le : n ≤ m :=
  Nat.le_of_lt_succ ((spans.there (m + 1)).mp ((spans.done (m + 1)).mpr (Nat.lt_succ_self m)).1)

theorem Spans.registers : ∃ a, acts[n]? = some a ∧
    a.Lawful (e.moment acts (.new store) n) (e.act a (e.moment acts (.new store) n)).1
      (e.moment acts (.new store) (n + 1)) ∧
    id ∈ (e.moment acts (.new store) n).registered (e.moment acts (.new store) (n + 1)) := by
  have there := (spans.there (n + 1)).mpr (Nat.lt_succ_self n)
  rcases moment_step e acts (.new store) n with ⟨a, act_n, lawful⟩ | same
  · have new := Nat.le_of_not_lt fun lt => Nat.lt_irrefl n ((spans.there n).mp lt)
    exact ⟨a, act_n, lawful, lawful.mem_registered.mpr ⟨new, there⟩⟩
  · rw [same] at there
    exact absurd ((spans.there n).mp there) (Nat.lt_irrefl n)

/-- As long as the callback is there and not done with, it is with what it was registered with. -/
theorem Spans.held_iff {a : Act σ} {h : Holder} (act_n : acts[n]? = some a)
    (registrar : a.registrar (e.moment acts (.new store) n) = some h) (k : Nat) :
    id ∈ (e.moment acts (.new store) k).holds h ↔ n < k ∧ k ≤ m := by
  have sound := moment_sound e acts store
  have waits (k : Nat) (after : n < k) (le : k ≤ m) :
      ∃ h, id ∈ (e.moment acts (.new store) k).holds h := by
    by_contra free
    have done := (spans.done k).mp ⟨(spans.there k).mpr after, not_exists.mp free⟩
    exact Nat.not_lt.mpr le done
  refine ⟨fun held => ⟨(spans.there k).mp ((sound k).numbered h id held).2,
    Nat.le_of_not_lt fun lt => ((spans.done k).mpr lt).2 h held⟩, ?_⟩
  rintro ⟨after, le⟩
  induction k, after using Nat.le_induction with
  | base =>
    obtain ⟨h', held⟩ := waits (n + 1) (Nat.lt_succ_self n) le
    rw [moment_succ act_n] at held ⊢
    rcases (e.act_lawful a _).mem_holds.mp held with ⟨registrar', _⟩ | ⟨held', _⟩
    · rwa [← Option.some.inj (registrar'.symm.trans registrar)]
    · exact absurd ((spans.there n).mp ((sound n).numbered h' id held').2) (Nat.lt_irrefl n)
  | succ k after ih =>
    have held := ih (Nat.le_of_succ_le le)
    obtain ⟨h', held'⟩ := waits (k + 1) (Nat.lt_succ_of_lt after) le
    rcases moment_step e acts (.new store) k with ⟨b, _, lawful⟩ | same
    · rcases lawful.mem_holds.mp held' with ⟨_, _, registered⟩ | ⟨before, _⟩
      · have old := ((sound k).numbered h id held).2
        have new := (lawful.mem_registered.mp registered).1
        omega
      · rwa [(sound k).single held before]
    · rw [same] at held' ⊢
      exact held

theorem Spans.ends {h : Holder} (held : id ∈ (e.moment acts (.new store) m).holds h) :
    ∃ b, acts[m]? = some b ∧ h ∈ b.ends (e.moment acts (.new store) m) := by
  have done := (spans.done (m + 1)).mpr (Nat.lt_succ_self m)
  rcases moment_step e acts (.new store) m with ⟨b, act_m, lawful⟩ | same
  · refine ⟨b, act_m, ?_⟩
    by_contra open_
    exact done.2 h (lawful.mem_holds.mpr (.inr ⟨held, open_⟩))
  · rw [same] at done
    exact absurd held (done.2 h)

theorem Spans.lives (le : store.leases ≤ id) : e.Lives acts (.new store) id n m := by
  have sound := moment_sound e acts store
  obtain ⟨a, act_n, lawful, registered⟩ := spans.registers
  obtain ⟨h, registrar⟩ :=
    Option.isSome_iff_exists.mp (lawful.registrar (List.ne_nil_of_mem registered))
  refine ⟨registered, fun k => ?_, ?_⟩
  · split
    · next after => exact (sound k).ran le ((spans.done k).mpr after)
    · next before => exact (sound k).waits fun ⟨_, done⟩ => before ((spans.done k).mp done)
  · rcases Nat.eq_or_lt_of_le spans.le with rfl | lt
    · -- the callback is not kept, so what it was registered in has failed
      rcases result : (e.act a (e.moment acts (.new store) n)).1 with err | ⟨⟩
      · obtain ⟨parts, slot, rfl⟩ := Act.get_of_error result
        exact .inr ⟨parts, slot, err, act_n, result, rfl⟩
      · have done := (spans.done (n + 1)).mpr (Nat.lt_succ_self n)
        exact absurd (lawful.mem_holds.mpr (.inl ⟨registrar, result, registered⟩)) (done.2 h)
    · have held := spans.held_iff act_n registrar
      obtain ⟨b, act_m, ends⟩ := spans.ends ((held m).mpr ⟨lt, Nat.le_refl m⟩)
      exact .inl ⟨a, b, h, act_n, act_m, registrar, ends, lt, held⟩

end

theorem holds_of_over {s : Custody σ} (ended : s.Over) (h : Holder) : s.holds h = [] := by
  obtain ⟨context, kept⟩ := ended
  cases h with
  | scope height =>
    have none : s.scopes = [] := by rw [scopes, context]; rfl
    rw [holds, none]
    exact heldAt_of_le (Nat.zero_le _)
  | context => rw [holds, context]; rfl
  | lookup i => rw [holds, heldBy, kept i]; rfl

/-- **Release callbacks are conserved.** At any time, the callbacks that one holder has are in reverse
order of registration, and each act runs those of the holders that it ends. Once the context and all
lookups have been dropped, each callback that was registered has had its life. -/
theorem callAll_conserves (e : Engine σ) (calls : List (Call σ)) (store : Store σ)
    (ended : (e.callAll calls (.new store)).2.Over) :
    let acts := Call.actsOf calls
    let last := (e.callAll calls (.new store)).2
    last = e.moment acts (.new store) acts.length ∧
    (∀ n h, ((e.moment acts (.new store) n).holds h).Pairwise (· > ·)) ∧
    (∀ n, ∀ a : Act σ, acts[n]? = some a →
      a.Lawful (e.moment acts (.new store) n) (e.act a (e.moment acts (.new store) n)).1
        (e.moment acts (.new store) (n + 1))) ∧
    ∀ id, store.leases ≤ id → id < last.store.leases → ∃ n m, e.Lives acts (.new store) id n m := by
  intro acts last
  have last_eq : last = e.moment acts (.new store) acts.length := by
    rw [moment_of_le (Nat.le_refl _)]
    exact (callAll_acts calls (.new store)).1
  refine ⟨last_eq, fun n => (moment_sound e acts store n).latestFirst, fun n a act_n => ?_,
    fun id le lt => ?_⟩
  · rw [moment_succ act_n]
    exact e.act_lawful a _
  · have done : (e.moment acts (.new store) acts.length).Done id := by
      rw [← last_eq]
      refine ⟨lt, fun h => ?_⟩
      rw [holds_of_over ended h]
      exact List.not_mem_nil
    obtain ⟨n, m, spans⟩ := exists_spans le done
    exact ⟨n, m, spans.lives le⟩

/-- A resolver that registers a callback for each name and knows only one. The callback writes the
name down. -/
def recorder : Resolver (List String) where
  priority := 0
  kind := .custom
    { name := "recorder"
      init := fun host => (.ok (), host)
      resolve := fun _ name host =>
        ⟨if name = "x" then .ok (some .null) else .error (.resolver "recorder" name "unknown"),
          [(name :: ·)], host⟩
      hint := fun _ _ host => ⟨none, [], host⟩ }

def recording : Engine (List String) where
  config := .standard
  resolvers := [recorder]
  missing := .ignore
  support := .html
  split := Key.dotted
  factoryLabel := "DefaultComputingCacheFactory"
  members := none

/-- The scope is popped within itself, then a lookup fails, and then what is done within it fails. -/
def unbalanced : List (Call (List String)) :=
  [.within .null [("outer" :: ·)]
    [.act (.register ("inner" :: ·)), .act (.get ["x"] none), .act (.add 0 ("added" :: ·)), .act .pop,
      .act .pop, .act (.register ("late" :: ·)), .act (.get ["y"] none)]
    (.error .output),
    .act .close, .act (.drop 0)]

theorem callAll_conserves_unbalanced :
    let store : Store (List String) := Blueprint.standard.emptyStore []
    let last := (recording.callAll unbalanced (.new store)).2
    last.Over ∧ last.store.host.reverse = ["inner", "outer", "y", "late", "added", "x"] ∧
      ∀ id < 6, ∃ n m, recording.Lives (Call.actsOf unbalanced) (.new store) id n m := by
  intro store last
  have kept : last.kept = [none, none] := rfl
  have ended : last.Over := by
    refine ⟨rfl, fun i => ?_⟩
    rw [kept]
    rcases i with _ | _ | _ <;> rfl
  obtain ⟨_, _, _, lives⟩ := callAll_conserves recording unbalanced store ended
  exact ⟨ended, rfl, fun id lt => lives id (Nat.zero_le id) lt⟩

end Engine

end Logicless
