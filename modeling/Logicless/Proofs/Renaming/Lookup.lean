import Logicless.Proofs.Lookup

/-!
# What lookups see

A lookup sees no more of a store than the host, the positions of members and the leases
(`Engine.find_confined`). So stores that differ in templates answer alike.
-/

namespace Logicless

variable {σ α β : Type}

structure Store.Agrees (s s' : Store σ) : Prop where
  host : s'.host = s.host
  members : s'.members = s.members
  leases : s'.leases = s.leases
  leaseLog : s'.leaseLog = s.leaseLog

namespace Store.Agrees

variable {s s' : Store σ}

theorem lend (h : s.Agrees s') (release : σ → σ) :
    (s'.lend release).1 = (s.lend release).1 ∧ (s.lend release).2.Agrees (s'.lend release).2 := by
  obtain ⟨host, members, leases, log⟩ := h
  refine ⟨by rw [Store.lend, Store.lend, leases], host, members, ?_, ?_⟩
  · rw [Store.lend, Store.lend, leases]
  · rw [Store.lend, Store.lend, leases, log]

theorem lendAll (h : s.Agrees s') (releases : List (σ → σ)) (held : List (Lease σ)) :
    (s'.lendAll releases held).1 = (s.lendAll releases held).1 ∧
      (s.lendAll releases held).2.Agrees (s'.lendAll releases held).2 := by
  induction releases generalizing s s' held with
  | nil => exact ⟨rfl, h⟩
  | cons release rest ih =>
    obtain ⟨same, next⟩ := h.lend release
    simp only [Store.lendAll, same]
    exact ih next _

theorem release (h : s.Agrees s') (lease : Lease σ) : (s.release lease).Agrees (s'.release lease) := by
  obtain ⟨host, members, leases, log⟩ := h
  refine ⟨?_, members, leases, ?_⟩
  · rw [Store.release, Store.release, host]
  · rw [Store.release, Store.release, log]

theorem releaseAll (h : s.Agrees s') (leases : List (Lease σ)) :
    (s.releaseAll leases).Agrees (s'.releaseAll leases) := by
  induction leases generalizing s s' with
  | nil => exact h
  | cons lease rest ih => exact ih (h.release lease)

end Store.Agrees

namespace Lookup

structure State.Agrees (s s' : Lookup.State σ) : Prop where
  store : s.store.Agrees s'.store
  leases : s'.leases = s.leases

/-- In stores that agree, the lookup has the same result and leaves stores that agree. -/
def Confined (x : Lookup σ α) : Prop :=
  ∀ s s', s.Agrees s' → (x s').1 = (x s).1 ∧ (x s).2.Agrees (x s').2

theorem confined_pure (a : α) : Confined (pure a : Lookup σ α) :=
  fun _ _ h => ⟨rfl, h⟩

theorem Confined.bind {x : Lookup σ α} {f : α → Lookup σ β} (hx : Confined x)
    (hf : ∀ a, Confined (f a)) : Confined (x >>= f) := by
  intro s s' h
  obtain ⟨same, next⟩ := hx s s' h
  rcases ran : x s with ⟨r, t⟩
  rcases ran' : x s' with ⟨r', t'⟩
  rw [ran, ran'] at same next
  obtain rfl : r' = r := same
  rw [Attempt.bind_apply, Attempt.bind_apply, ran, ran']
  cases r' with
  | error err => exact ⟨rfl, next⟩
  | ok a => exact hf a t t' next

theorem confined_ofExcept (r : Except Error α) : Confined (Attempt.ofExcept r : Lookup σ α) :=
  fun _ _ h => ⟨rfl, h⟩

theorem confined_ask (question : σ → Reply σ α) : Confined (ask question) := by
  intro s s' ⟨store, leases⟩
  have answered : Store.Agrees { s.store with host := (question s.store.host).host }
      { s'.store with host := (question s'.store.host).host } :=
    ⟨by rw [store.host], store.members, store.leases, store.leaseLog⟩
  obtain ⟨same, next⟩ := answered.lendAll (question s.store.host).leases s.leases
  simp only [ask, store.host, leases] at same next ⊢
  exact ⟨trivial, next, same⟩

theorem confined_askFallible (question : σ → Reply σ (Except Error α)) :
    Confined (askFallible question) :=
  (confined_ask question).bind fun r => confined_ofExcept r

theorem confined_memberIndex (shelf : Option Nat) (o : HostObject Value) (name : String) :
    Confined (onStore (Resolver.memberIndex shelf o name) : Lookup σ (Option Nat)) := by
  intro s s' ⟨store, leases⟩
  have members : (shelf.bind fun i => s'.store.members[i]?.map (i, ·)) =
      shelf.bind fun i => s.store.members[i]?.map (i, ·) := by rw [store.members]
  cases shelved : shelf.bind fun i => s.store.members[i]?.map (i, ·) with
  | none =>
    simp only [onStore, Resolver.memberIndex_of_none shelved, Resolver.memberIndex_of_none (members.trans shelved)]
    exact ⟨trivial, store, leases⟩
  | some positions =>
    obtain ⟨answer, same⟩ := Shelf.fetch_pure positions.2 ⟨o.typeName, name⟩ (o.indexOf? name)
    simp only [onStore, Resolver.memberIndex_of_some shelved,
      Resolver.memberIndex_of_some (members.trans shelved), same, store.host]
    refine ⟨trivial, ⟨rfl, ?_, store.leases, store.leaseLog⟩, leases⟩
    simp only [Store.putMembers, store.members]

end Lookup

open Lookup

theorem Hint.confined_resolve (h : Hint σ) (scope : Option Value) (name : String) :
    Confined (h.resolve scope name) := by
  cases h with
  | custom h => exact confined_askFallible _
  | _ => exact confined_pure _

namespace Resolver

theorem confined_resolve (r : Resolver σ) (scope : Option Value) (name : String) :
    Confined (r.resolve scope name) := by
  unfold Resolver.resolve
  split
  · exact confined_pure _
  · exact confined_pure _
  · exact confined_pure _
  · split
    · exact (confined_memberIndex _ _ name).bind fun _ => confined_pure _
    · exact confined_pure _
  · exact confined_pure _
  · exact confined_askFallible _

theorem confined_hint (r : Resolver σ) (scope : Option Value) (name : String) :
    Confined (r.hint scope name) := by
  unfold Resolver.hint
  split
  · exact confined_pure _
  · exact confined_pure _
  · exact confined_pure _
  · exact confined_pure _
  · exact confined_pure _
  · exact confined_ask _

end Resolver

namespace Lookup

variable (resolvers : List (Resolver σ))

theorem confined_first (scope : Option Value) (name : String) (wanted : Bool) :
    Confined (first resolvers scope name wanted) := by
  induction resolvers with
  | nil => exact confined_pure _
  | cons r rest ih =>
    refine (r.confined_resolve scope name).bind fun matched => ?_
    cases matched with
    | none => exact ih
    | some v =>
      cases wanted with
      | true => exact (r.confined_hint scope name).bind fun _ => confined_pure _
      | false => exact confined_pure _

theorem confined_innermost (scopes : List Value) (name : String) (wanted : Bool) :
    Confined (innermost resolvers scopes name wanted) := by
  induction scopes with
  | nil => exact confined_first resolvers none name wanted
  | cons scope rest ih =>
    refine (confined_first resolvers (some scope) name wanted).bind fun found => ?_
    cases found with
    | none => exact ih
    | some found => exact confined_pure _

theorem confined_descend (names : List String) (v : Value) : Confined (descend resolvers names v) := by
  induction names generalizing v with
  | nil => exact confined_pure _
  | cons name rest ih =>
    refine (confined_first resolvers (some v) name false).bind fun found => ?_
    cases found with
    | none => exact confined_pure _
    | some found => exact ih found.1

theorem confined_hinted (hint : Option (Hint σ)) (scope : Option Value) (name : String) :
    Confined (hinted hint scope name) := by
  unfold hinted
  split
  · exact confined_pure _
  · next h _ => exact (h.confined_resolve scope name).bind fun _ => confined_pure _

theorem confined_key (scopes : List Value) (parts : List String) (slot : Option (Option (Hint σ))) :
    Confined (key resolvers scopes parts slot) := by
  unfold key
  split
  · exact confined_pure _
  · next name =>
    refine (confined_hinted slot.join scopes.head? name).bind fun found => ?_
    cases found with
    | some found => exact confined_pure _
    | none =>
      refine (confined_innermost resolvers scopes name _).bind fun found => ?_
      cases found <;> exact confined_pure _
  · next name rest _ =>
    refine (confined_innermost resolvers scopes name false).bind fun found => ?_
    cases found with
    | none => exact confined_pure _
    | some found => exact (confined_descend resolvers rest found.1).bind fun _ => confined_pure _

end Lookup

/-- A lookup sees and changes what the stores agree in, and nothing else. -/
theorem Engine.find_confined (e : Engine σ) (scopes : List Value) (parts : List String)
    (slot : Option (Option (Hint σ))) {s s' : Store σ} (h : s.Agrees s') :
    (e.find scopes parts slot s').1 = (e.find scopes parts slot s).1 ∧
      (e.find scopes parts slot s).2.Agrees (e.find scopes parts slot s').2 := by
  let slot' := if e.config.hintsEnabled then slot else none
  obtain ⟨same, next⟩ := confined_key e.resolvers scopes parts slot' ⟨s, []⟩ ⟨s', []⟩ ⟨h, rfl⟩
  unfold Engine.find
  dsimp only
  rcases ran : Lookup.key e.resolvers scopes parts slot' ⟨s, []⟩ with ⟨r, t⟩
  rcases ran' : Lookup.key e.resolvers scopes parts slot' ⟨s', []⟩ with ⟨r', t'⟩
  rw [ran, ran'] at same next
  obtain rfl : r' = r := same
  have store : t.store.Agrees t'.store := next.store
  have leases : t'.leases = t.leases := next.leases
  cases r' with
  | ok found => exact ⟨by simp only [leases], store⟩
  | error err =>
    simp only [leases]
    exact ⟨trivial, store.releaseAll t.leases⟩

end Logicless
