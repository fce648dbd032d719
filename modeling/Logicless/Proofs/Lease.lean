import Logicless.Store

/-!
# Lease logs

A log is in order if each lease that is taken is released once, the latest one first. While leases
are pending, the log is in order up to them, which `Owes` follows event by event.
-/

namespace Logicless

/-- A log, earliest event first, in which each lease is released before those taken before it. -/
inductive Nested : List LeaseEvent → Prop where
  | nil : Nested []
  | lease {inner rest : List LeaseEvent} (id : Nat) (within : Nested inner) (after : Nested rest) :
      Nested (.taken id :: (inner ++ .released id :: rest))

theorem Nested.append {left right : List LeaseEvent} (h : Nested left) (h' : Nested right) :
    Nested (left ++ right) := by
  induction h with
  | nil => exact h'
  | lease id within _ _ ih =>
    have joined := Nested.lease id within ih
    simpa using joined

def LeaseEvent.taken? : LeaseEvent → Option Nat
  | .taken id => some id
  | .released _ => none

/-- A log, earliest event first, that is in order but for the pending leases, the latest first. -/
def Open : List Nat → List LeaseEvent → Prop
  | [], word => Nested word
  | id :: held, word =>
    ∃ before after, Open held before ∧ Nested after ∧ word = before ++ .taken id :: after

theorem Open.append {held : List Nat} {word inner : List LeaseEvent} (h : Open held word)
    (h' : Nested inner) : Open held (word ++ inner) := by
  cases held with
  | nil => exact Nested.append h h'
  | cons id held =>
    obtain ⟨before, after, outer, nested, rfl⟩ := h
    exact ⟨before, after ++ inner, outer, nested.append h', by simp⟩

theorem Open.taken {held : List Nat} {word : List LeaseEvent} (h : Open held word) (id : Nat) :
    Open (id :: held) (word ++ [.taken id]) :=
  ⟨word, [], h, .nil, rfl⟩

theorem Open.released {held : List Nat} {word : List LeaseEvent} {id : Nat}
    (h : Open (id :: held) word) : Open held (word ++ [.released id]) := by
  obtain ⟨before, after, outer, nested, rfl⟩ := h
  have closed := outer.append (Nested.lease id nested .nil)
  simpa using closed

/-! ### Pending leases -/

/-- How a log, latest event first, has gone on from `log`, when leases were numbered from `first`
and the next one gets the number `next`. -/
inductive Pending (log : List LeaseEvent) (first : Nat) : Nat → List Nat → List LeaseEvent → Prop where
  | start : Pending log first first [] log
  | taken {next : Nat} {held : List Nat} {log' : List LeaseEvent}
      (h : Pending log first next held log') :
      Pending log first (next + 1) (next :: held) (.taken next :: log')
  | released {next id : Nat} {held : List Nat} {log' : List LeaseEvent}
      (h : Pending log first next (id :: held) log') :
      Pending log first next held (.released id :: log')

theorem Pending.word {log log' : List LeaseEvent} {first next : Nat} {held : List Nat}
    (h : Pending log first next held log') :
    ∃ word, log' = word.reverse ++ log ∧ Open held word ∧ first ≤ next ∧
      word.filterMap LeaseEvent.taken? = List.range' first (next - first) := by
  induction h with
  | start => exact ⟨[], rfl, .nil, Nat.le_refl _, by simp⟩
  | taken _ ih =>
    obtain ⟨word, rfl, opened, le, ids⟩ := ih
    refine ⟨word ++ [.taken _], by simp, opened.taken _, Nat.le_succ_of_le le, ?_⟩
    rw [List.filterMap_append, ids, Nat.succ_sub le, Nat.succ_eq_add_one, List.range'_concat]
    simp only [List.filterMap_cons, LeaseEvent.taken?, List.filterMap_nil]
    congr 2
    omega
  | released _ ih =>
    obtain ⟨word, rfl, opened, le, ids⟩ := ih
    refine ⟨word ++ [.released _], by simp, opened.released, le, ?_⟩
    rw [List.filterMap_append, ids]
    simp [LeaseEvent.taken?]

namespace Store

variable {σ : Type} {start store store' : Store σ} {held : List Nat}

/-- Since `start`, `store` has taken and released leases in order, and those of the numbers `held`
are pending, the latest first. -/
def Owes (start : Store σ) (held : List Nat) (store : Store σ) : Prop :=
  Pending start.leaseLog start.leases store.leases held store.leaseLog

theorem owes_self (start : Store σ) : start.Owes [] start :=
  .start

theorem Owes.of_eq (h : start.Owes held store) (leases : store'.leases = store.leases)
    (log : store'.leaseLog = store.leaseLog) : start.Owes held store' := by
  rw [Owes, leases, log]
  exact h

theorem Owes.lendAll {releases : List (σ → σ)} {leases : List (Lease σ)}
    (h : start.Owes (leases.map (·.id) ++ held) store) :
    start.Owes ((store.lendAll releases leases).1.map (·.id) ++ held)
      (store.lendAll releases leases).2 := by
  induction releases generalizing leases store with
  | nil => exact h
  | cons release rest ih =>
    have lent : start.Owes (((store.lend release).1 :: leases).map (·.id) ++ held)
        (store.lend release).2 := h.taken
    exact ih lent

theorem Owes.releaseAll {leases : List (Lease σ)}
    (h : start.Owes (leases.map (·.id) ++ held) store) :
    start.Owes held (store.releaseAll leases) := by
  induction leases generalizing store with
  | nil => exact h
  | cons lease rest ih =>
    have released : start.Owes (rest.map (·.id) ++ held) (store.release lease) := h.released
    exact ih released

/-- When nothing is pending, what has been added to the log is in order. -/
theorem Owes.nested (h : start.Owes [] store) :
    ∃ word, store.leaseLog = word.reverse ++ start.leaseLog ∧ Nested word ∧
      word.filterMap LeaseEvent.taken? = List.range' start.leases (store.leases - start.leases) := by
  obtain ⟨word, log, opened, _, ids⟩ := Pending.word h
  exact ⟨word, log, opened, ids⟩

end Store

end Logicless
