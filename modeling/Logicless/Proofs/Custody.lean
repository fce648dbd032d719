import Logicless.Context
import Logicless.Proofs.Lookup
import Mathlib.Data.List.Nodup

/-!
# Who holds a lease

A program works with a context: it pushes and pops scopes, looks keys up and keeps what it found, and
registers callbacks with any of these. Whatever it does, the callbacks of what ends run, and all others
stay where they are (`Engine.act_lawful`).
-/

namespace Logicless

variable {σ : Type}

/-! ### Taking and releasing -/

namespace Store

/-- From one store to another so many leases are taken, and then those of the numbers are released,
from the first to the last. -/
structure Moves (s t : Store σ) (taken : Nat) (released : List Nat) : Prop where
  leases : t.leases = s.leases + taken
  log : t.leaseLog = (released.map LeaseEvent.released).reverse ++
    ((List.range' s.leases taken).map LeaseEvent.taken).reverse ++ s.leaseLog

variable {s t u : Store σ} {m n : Nat} {ids ids' : List Nat}

theorem moves_of_eq (leases : t.leases = s.leases) (log : t.leaseLog = s.leaseLog) : s.Moves t 0 [] :=
  ⟨leases, log⟩

theorem Moves.take (h : s.Moves t m []) (h' : t.Moves u n ids) : s.Moves u (m + n) ids := by
  refine ⟨by rw [h'.leases, h.leases, Nat.add_assoc], ?_⟩
  rw [h'.log, h.log, h.leases, ← List.range'_append_1, List.map_append, List.reverse_append]
  simp only [List.map_nil, List.reverse_nil, List.nil_append, List.append_assoc]

theorem Moves.release (h : s.Moves t n ids) (h' : t.Moves u 0 ids') : s.Moves u n (ids ++ ids') := by
  refine ⟨h'.leases.trans h.leases, ?_⟩
  rw [h'.log, h.log, List.map_append, List.reverse_append]
  simp only [List.range'_zero, List.map_nil, List.reverse_nil, List.nil_append, List.append_assoc]

theorem moves_lend (release : σ → σ) (s : Store σ) : s.Moves (s.lend release).2 1 [] :=
  ⟨rfl, rfl⟩

/-- The leases that are taken get the next numbers, the latest first. -/
theorem moves_lendAll (releases : List (σ → σ)) (held : List (Lease σ)) (s : Store σ) :
    s.Moves (s.lendAll releases held).2 releases.length [] ∧
      (s.lendAll releases held).1.map (·.id) =
        (List.range' s.leases releases.length).reverse ++ held.map (·.id) := by
  induction releases generalizing held s with
  | nil => exact ⟨moves_of_eq rfl rfl, rfl⟩
  | cons release rest ih =>
    obtain ⟨moves, ids⟩ := ih ((s.lend release).1 :: held) (s.lend release).2
    have all := (moves_lend release s).take moves
    refine ⟨by rwa [List.length_cons, Nat.add_comm], ?_⟩
    rw [lendAll, ids, List.length_cons, List.range'_succ, List.reverse_cons, List.append_assoc]
    rfl

theorem moves_releaseAll (leases : List (Lease σ)) (s : Store σ) :
    s.Moves (s.releaseAll leases) 0 (leases.map (·.id)) := by
  induction leases generalizing s with
  | nil => exact moves_of_eq rfl rfl
  | cons lease rest ih =>
    have first : s.Moves (s.release lease) 0 [lease.id] := ⟨rfl, rfl⟩
    exact first.release (ih _)

theorem moves_close (c : Context σ) (s : Store σ) : s.Moves (c.close s) 0
    ((c.scopes.flatMap fun scope => scope.leases.map (·.id)) ++ c.leases.map (·.id)) := by
  have scopes (scopes : List (Scope σ)) (s : Store σ) :
      s.Moves (scopes.foldl (fun store scope => store.releaseAll scope.leases) s) 0
        (scopes.flatMap fun scope => scope.leases.map (·.id)) := by
    induction scopes generalizing s with
    | nil => exact moves_of_eq rfl rfl
    | cons scope rest ih => exact (moves_releaseAll scope.leases s).release (ih _)
  exact (scopes c.scopes s).release (moves_releaseAll c.leases _)

end Store

/-- A lookup that began in the store `kept` holds all leases that were taken since. -/
def Lookup.Took (kept : Store σ) (s : Lookup.State σ) : Prop :=
  ∃ n, kept.Moves s.store n [] ∧ s.leases.map (·.id) = (List.range' kept.leases n).reverse

instance (kept : Store σ) : Lookup.Steady (Lookup.Took kept) where
  lent {s} releases := by
    rintro ⟨n, moves, ids⟩
    obtain ⟨lent, more⟩ := Store.moves_lendAll releases s.leases s.store
    refine ⟨_, moves.take lent, ?_⟩
    rw [more, ids, moves.leases, ← List.range'_append_1, List.reverse_append]
  looked _ leases log := by
    rintro ⟨n, moves, ids⟩
    exact ⟨n, moves.take (Store.moves_of_eq leases log), ids⟩

/-- A lookup that succeeds hands over the leases it has taken, and one that fails releases them. -/
theorem Engine.find_moves (e : Engine σ) (scopes : List Value) (parts : List String)
    (slot : Option (Option (Hint σ))) (s : Store σ) :
    ∃ n, match e.find scopes parts slot s with
      | (.ok found, t) => s.Moves t n [] ∧ found.leases.map (·.id) = (List.range' s.leases n).reverse
      | (.error _, t) => s.Moves t n (List.range' s.leases n).reverse := by
  let slot' := if e.config.hintsEnabled then slot else none
  have offers : Resolver.Offers (fun _ => True) slot'.join := fun h _ => h.admits_all
  have keeps : Attempt.Keeps (Lookup.Took s) (fun _ => True) _
      (Lookup.key e.resolvers scopes parts slot') := Lookup.sound_key e.admits_all scopes parts offers
  obtain ⟨⟨n, moves, ids⟩, _⟩ := keeps ⟨s, []⟩ ⟨0, Store.moves_of_eq rfl rfl, rfl⟩
  refine ⟨n, ?_⟩
  rcases ran : Lookup.key e.resolvers scopes parts slot' ⟨s, []⟩ with ⟨r, t⟩
  rw [ran] at moves ids
  unfold Engine.find
  dsimp only
  rw [ran]
  cases r with
  | ok matched => exact ⟨moves, ids⟩
  | error err =>
    have released := moves.release (Store.moves_releaseAll t.leases t.store)
    rwa [ids, List.nil_append] at released

/-! ### Programs -/

/-- A context and the lookups that have been kept, in order. The context is there until it is dropped,
and so is each lookup. -/
structure Custody (σ : Type) where
  store : Store σ
  context : Option (Context σ)
  kept : List (Option (Found σ))

inductive Act (σ : Type) where
  | push (value : Value) (callbacks : List (σ → σ))
  | pop
  | register (callback : σ → σ)
  /-- Look a key up. What is found is kept. -/
  | get (parts : List String) (slot : Option (Option (Hint σ)))
  /-- Register a callback with a lookup that is kept. -/
  | add (lookup : Nat) (callback : σ → σ)
  | drop (lookup : Nat)
  /-- Drop the context. -/
  | close

/-- What a program calls. Within a scope it makes further calls, and then it succeeds or fails. -/
inductive Call (σ : Type) where
  | act (a : Act σ)
  | within (value : Value) (callbacks : List (σ → σ)) (body : List (Call σ))
      (result : Except Error Unit)

namespace Engine

def act (e : Engine σ) : Act σ → Attempt (Custody σ) Error Unit
  | .push value callbacks => Attempt.update fun s =>
    match s.context with
    | none => s
    | some c =>
      let (leases, store) := s.store.lendAll callbacks []
      { s with store, context := some (c.push value leases) }
  | .pop => Attempt.update fun s =>
    match s.context with
    | none => s
    | some c =>
      let (_, c, store) := c.pop s.store
      { s with store, context := some c }
  | .register callback => Attempt.update fun s =>
    match s.context with
    | none => s
    | some c =>
      let (c, store) := c.lend callback s.store
      { s with store, context := some c }
  | .get parts slot => fun s =>
    match s.context with
    | none => (.ok (), s)
    | some c =>
      match e.find c.values parts slot s.store with
      | (.ok found, store) => (.ok (), { s with store, kept := s.kept ++ [some found] })
      | (.error err, store) => (.error err, { s with store, kept := s.kept ++ [none] })
  | .add lookup callback => Attempt.update fun s =>
    match s.kept[lookup]?.join with
    | none => s
    | some found =>
      let (found, store) := found.lend callback s.store
      { s with store, kept := s.kept.set lookup (some found) }
  | .drop lookup => Attempt.update fun s =>
    match s.kept[lookup]?.join with
    | none => s
    | some found => { s with store := found.release s.store, kept := s.kept.set lookup none }
  | .close => Attempt.update fun s =>
    match s.context with
    | none => s
    | some c => { s with store := c.close s.store, context := none }

def play (e : Engine σ) (acts : List (Act σ)) (s : Custody σ) : Custody σ :=
  acts.foldl (fun s a => (e.act a s).2) s

mutual

/-- The scope is popped whether what is done within it succeeds or not. -/
def call (e : Engine σ) : Call σ → Attempt (Custody σ) Error Unit
  | .act a => e.act a
  | .within value callbacks body result => do
    e.act (.push value callbacks)
    Attempt.ensuring
      (do
        callAll e body
        Attempt.ofExcept result)
      fun s => (e.act .pop s).2

def callAll (e : Engine σ) : List (Call σ) → Attempt (Custody σ) Error Unit
  | [] => pure ()
  | c :: rest => fun s => callAll e rest (call e c s).2

end

end Engine

namespace Call

mutual

def acts : Call σ → List (Act σ)
  | .act a => [a]
  | .within value callbacks body _ => .push value callbacks :: actsOf body ++ [.pop]

def actsOf : List (Call σ) → List (Act σ)
  | [] => []
  | c :: rest => acts c ++ actsOf rest

end

end Call

namespace Engine

variable {e : Engine σ}

theorem play_append (as bs : List (Act σ)) (s : Custody σ) :
    e.play (as ++ bs) s = e.play bs (e.play as s) :=
  List.foldl_append

theorem play_cons (a : Act σ) (as : List (Act σ)) (s : Custody σ) :
    e.play (a :: as) s = e.play as (e.act a s).2 := rfl

mutual

theorem call_acts (c : Call σ) (s : Custody σ) : (e.call c s).2 = e.play c.acts s := by
  cases c with
  | act a =>
    rw [call]
    rfl
  | within value callbacks body result =>
    have pushed : e.act (.push value callbacks) s = (.ok (), (e.act (.push value callbacks) s).2) := rfl
    have body := callAll_acts body (e.act (.push value callbacks) s).2
    rw [call, Attempt.bind_of_ok pushed, Attempt.ensuring_apply, Call.acts, List.cons_append, play_cons,
      play_append, ← body.1, Attempt.bind_of_ok body.2]
    rfl

theorem callAll_acts (cs : List (Call σ)) (s : Custody σ) :
    (e.callAll cs s).2 = e.play (Call.actsOf cs) s ∧ e.callAll cs s = (.ok (), (e.callAll cs s).2) := by
  cases cs with
  | nil =>
    rw [callAll]
    exact ⟨rfl, rfl⟩
  | cons c rest =>
    obtain ⟨acts, ok⟩ := callAll_acts rest (e.call c s).2
    rw [callAll, Call.actsOf, play_append, ← call_acts c s, ← acts]
    exact ⟨rfl, ok⟩

end

end Engine

/-! ### Holders -/

/-- What a callback is registered with. Scopes are known by how many stand below them. -/
inductive Holder where
  | scope (height : Nat)
  | context
  | lookup (i : Nat)
deriving DecidableEq

namespace Custody

def new (store : Store σ) : Custody σ :=
  ⟨store, some .empty, []⟩

def scopes (s : Custody σ) : List (Scope σ) :=
  (s.context.map (·.scopes)).getD []

def heldAt (scopes : List (Scope σ)) (height : Nat) : List Nat :=
  ((scopes.reverse[height]?).map fun scope => scope.leases.map (·.id)).getD []

def heldBy (kept : List (Option (Found σ))) (i : Nat) : List Nat :=
  (kept[i]?.join.map fun found => found.leases.map (·.id)).getD []

@[simp]
def holds (s : Custody σ) : Holder → List Nat
  | .scope height => heldAt s.scopes height
  | .context => (s.context.map fun c => c.leases.map (·.id)).getD []
  | .lookup i => heldBy s.kept i

/-- The context has been dropped, and so have all lookups. -/
def Over (s : Custody σ) : Prop :=
  s.context = none ∧ ∀ i : Nat, s.kept[i]?.join = none

def registered (s t : Custody σ) : List Nat :=
  List.range' s.store.leases (t.store.leases - s.store.leases)

@[simp]
theorem scopes_some (store : Store σ) (c : Context σ) (kept : List (Option (Found σ))) :
    (Custody.mk store (some c) kept).scopes = c.scopes := rfl

theorem heldAt_cons (scope : Scope σ) (scopes : List (Scope σ)) (height : Nat) :
    heldAt (scope :: scopes) height =
      if height = scopes.length then scope.leases.map (·.id) else heldAt scopes height := by
  unfold heldAt
  rw [List.reverse_cons, List.getElem?_append, List.length_reverse]
  by_cases inside : height < scopes.length
  · rw [if_pos inside, if_neg (Nat.ne_of_lt inside)]
  · rw [if_neg inside]
    by_cases top : height = scopes.length
    · rw [if_pos top, top, Nat.sub_self]
      rfl
    · have outside : scopes.length < height := by omega
      have above : 1 ≤ height - scopes.length := by omega
      rw [if_neg top, List.getElem?_eq_none (by simpa using above),
        List.getElem?_eq_none (by simpa using Nat.le_of_lt outside)]

theorem heldAt_of_le {scopes : List (Scope σ)} {height : Nat} (above : scopes.length ≤ height) :
    heldAt scopes height = [] := by
  rw [heldAt, List.getElem?_eq_none (by simpa using above)]
  rfl

theorem flatMap_heldAt (scopes : List (Scope σ)) :
    (List.range scopes.length).reverse.flatMap (heldAt scopes) =
      scopes.flatMap fun scope => scope.leases.map (·.id) := by
  induction scopes with
  | nil => rfl
  | cons scope rest ih =>
    have lower : (List.range rest.length).reverse.flatMap (heldAt (scope :: rest)) =
        (List.range rest.length).reverse.flatMap (heldAt rest) := by
      refine List.flatMap_congr fun height member => ?_
      have inside := List.mem_range.mp (List.mem_reverse.mp member)
      rw [heldAt_cons, if_neg (Nat.ne_of_lt inside)]
    rw [List.length_cons, List.range_succ, List.reverse_append, List.reverse_singleton,
      List.singleton_append, List.flatMap_cons, lower, ih, heldAt_cons, if_pos rfl, List.flatMap_cons]

theorem heldBy_concat (kept : List (Option (Found σ))) (found : Option (Found σ)) (i : Nat) :
    heldBy (kept ++ [found]) i = if i = kept.length
      then (found.map fun found => found.leases.map (·.id)).getD [] else heldBy kept i := by
  unfold heldBy
  rw [List.getElem?_append]
  by_cases inside : i < kept.length
  · rw [if_pos inside, if_neg (Nat.ne_of_lt inside)]
  · rw [if_neg inside]
    by_cases last : i = kept.length
    · rw [if_pos last, last, Nat.sub_self]
      rfl
    · have above : 1 ≤ i - kept.length := by omega
      rw [if_neg last, List.getElem?_eq_none (by simpa using above),
        List.getElem?_eq_none (by omega)]

theorem heldBy_set {kept : List (Option (Found σ))} {j : Nat} {old : Found σ}
    (at_j : kept[j]?.join = some old) (found : Option (Found σ)) (i : Nat) :
    heldBy (kept.set j found) i = if i = j
      then (found.map fun found => found.leases.map (·.id)).getD [] else heldBy kept i := by
  unfold heldBy
  have bound : j < kept.length := by
    obtain ⟨_, _, at_j⟩ := Option.bind_eq_some_iff.mp at_j
    exact (List.getElem?_eq_some_iff.mp (Option.join_eq_some_iff.mp ‹_›)).1
  by_cases same : i = j
  · rw [if_pos same, same, List.getElem?_set_self bound]
    rfl
  · rw [if_neg same, List.getElem?_set_ne (Ne.symm same)]

end Custody

namespace Act

@[simp]
def registrar (s : Custody σ) : Act σ → Option Holder
  | .push .. => some (.scope s.scopes.length)
  | .register _ => some (if s.scopes = [] then .context else .scope (s.scopes.length - 1))
  | .get .. => some (.lookup s.kept.length)
  | .add lookup _ => some (.lookup lookup)
  | _ => none

@[simp]
def ends (s : Custody σ) : Act σ → List Holder
  | .pop => if s.scopes = [] then [] else [.scope (s.scopes.length - 1)]
  | .drop lookup => [.lookup lookup]
  | .close => (List.range s.scopes.length).reverse.map .scope ++ [.context]
  | _ => []

/-- Of the callbacks registered in an act, those that it leaves with their holder. -/
@[simp]
def left : Except Error Unit → List Nat → List Nat
  | .ok _, ids => ids.reverse
  | .error _, _ => []

/-- Of the callbacks registered in an act, those that run at once because it fails. -/
@[simp]
def undone : Except Error Unit → List Nat → List Nat
  | .ok _, _ => []
  | .error _, ids => ids.reverse

/-- Callbacks are registered with one holder. Those of the holders that the act ends run, the latest
first, and all others stay where they are. -/
structure Lawful (a : Act σ) (s : Custody σ) (r : Except Error Unit) (t : Custody σ) : Prop where
  later : s.store.leases ≤ t.store.leases
  registrar : s.registered t ≠ [] → (a.registrar s).isSome = true
  log : t.store.leaseLog =
    (((a.ends s).flatMap s.holds ++ undone r (s.registered t)).map LeaseEvent.released).reverse ++
      ((s.registered t).map LeaseEvent.taken).reverse ++ s.store.leaseLog
  holds : ∀ h, t.holds h = if h ∈ a.ends s then []
    else (if a.registrar s = some h then left r (s.registered t) else []) ++ s.holds h

end Act

/-! ### Acts -/

namespace Engine

open Act Custody

variable {e : Engine σ} {s t : Custody σ} {a : Act σ}

theorem registered_of_moves {n : Nat} {ids : List Nat} (moves : s.store.Moves t.store n ids) :
    s.registered t = List.range' s.store.leases n := by
  rw [registered, moves.leases, Nat.add_sub_cancel_left]

theorem lawful_of_moves {n : Nat} {r : Except Error Unit}
    (moves : s.store.Moves t.store n
      ((a.ends s).flatMap s.holds ++ undone r (List.range' s.store.leases n)))
    (registrar : n ≠ 0 → (a.registrar s).isSome = true)
    (holds : ∀ h, t.holds h = if h ∈ a.ends s then []
      else (if a.registrar s = some h then left r (List.range' s.store.leases n) else []) ++ s.holds h) :
    a.Lawful s r t := by
  have registered := registered_of_moves moves
  refine ⟨by rw [moves.leases]; omega, ?_, ?_, ?_⟩
  · rw [registered]
    intro some
    exact registrar fun none => some (by rw [none]; rfl)
  · rw [registered]
    exact moves.log
  · rw [registered]
    exact holds

/-- Nothing is registered, and what ends holds nothing. -/
theorem lawful_idle (empty : ∀ h ∈ a.ends s, s.holds h = []) : a.Lawful s (.ok ()) s := by
  have none : (a.ends s).flatMap s.holds = [] := List.flatMap_eq_nil_iff.mpr empty
  have moves : s.store.Moves s.store 0 ((a.ends s).flatMap s.holds ++ undone (.ok ()) []) := by
    rw [none]
    exact Store.moves_of_eq rfl rfl
  refine lawful_of_moves moves (absurd rfl) fun h => ?_
  split
  · next member => exact empty h member
  · split <;> rfl

theorem push_lawful (e : Engine σ) (value : Value) (callbacks : List (σ → σ)) (s : Custody σ) :
    (Act.push value callbacks).Lawful s (.ok ()) (e.act (.push value callbacks) s).2 := by
  obtain ⟨store, context, kept⟩ := s
  cases context with
  | none => exact lawful_idle nofun
  | some c =>
    obtain ⟨moves, ids⟩ := Store.moves_lendAll callbacks [] store
    refine lawful_of_moves moves (fun _ => rfl) fun h => ?_
    cases h with
    | scope height =>
      show heldAt (_ :: c.scopes) height = _
      rw [heldAt_cons]
      by_cases top : height = c.scopes.length
      · subst top
        simp [ids, heldAt_of_le]
      · simp [top, Ne.symm top]
    | _ => simp [act, Attempt.update, Context.push]

theorem pop_lawful (e : Engine σ) (s : Custody σ) : Act.pop.Lawful s (.ok ()) (e.act .pop s).2 := by
  obtain ⟨store, context, kept⟩ := s
  cases context with
  | none => exact lawful_idle nofun
  | some c =>
    obtain ⟨scopes, leases, nesting⟩ := c
    cases scopes with
    | nil => exact lawful_idle nofun
    | cons scope rest =>
      have held : heldAt (scope :: rest) rest.length = scope.leases.map (·.id) := by
        rw [heldAt_cons, if_pos rfl]
      refine lawful_of_moves (n := 0) ?_ (absurd rfl) fun h => ?_
      · show store.Moves (store.releaseAll scope.leases) 0 _
        simpa [held] using Store.moves_releaseAll scope.leases store
      · cases h with
        | scope height =>
          show heldAt rest height = _
          by_cases top : height = rest.length
          · subst top
            simp [heldAt_of_le]
          · simp [heldAt_cons, top]
        | _ => simp [act, Attempt.update, Context.pop]

theorem register_lawful (e : Engine σ) (callback : σ → σ) (s : Custody σ) :
    (Act.register callback).Lawful s (.ok ()) (e.act (.register callback) s).2 := by
  obtain ⟨store, context, kept⟩ := s
  cases context with
  | none => exact lawful_idle nofun
  | some c =>
    obtain ⟨scopes, leases, nesting⟩ := c
    cases scopes with
    | nil =>
      refine lawful_of_moves (Store.moves_lend callback store) (fun _ => rfl) fun h => ?_
      cases h <;> simp [act, Attempt.update, Context.lend, Store.lend]
    | cons scope rest =>
      refine lawful_of_moves (Store.moves_lend callback store) (fun _ => rfl) fun h => ?_
      cases h with
      | scope height =>
        show heldAt (_ :: rest) height = _
        by_cases top : height = rest.length
        · subst top
          simp [heldAt_cons]
        · simp [heldAt_cons, top, Ne.symm top]
      | _ => simp [act, Attempt.update, Context.lend]

theorem get_lawful (e : Engine σ) (parts : List String) (slot : Option (Option (Hint σ)))
    (s : Custody σ) :
    (Act.get parts slot).Lawful s (e.act (.get parts slot) s).1 (e.act (.get parts slot) s).2 := by
  obtain ⟨store, context, kept⟩ := s
  cases context with
  | none => exact lawful_idle nofun
  | some c =>
    obtain ⟨n, moves⟩ := e.find_moves c.values parts slot store
    have added (found : Option (Found σ)) (i : Nat) := heldBy_concat kept found i
    simp only [act]
    generalize e.find c.values parts slot store = out at moves ⊢
    obtain ⟨err | found, after⟩ := out
    · refine lawful_of_moves moves (fun _ => rfl) fun h => ?_
      cases h with
      | lookup i =>
        show heldBy (kept ++ [none]) i = _
        rw [added]
        by_cases last : i = kept.length
        · subst last
          simp [heldBy]
        · simp [last]
      | _ => simp
    · obtain ⟨moves, ids⟩ := moves
      refine lawful_of_moves moves (fun _ => rfl) fun h => ?_
      cases h with
      | lookup i =>
        show heldBy (kept ++ [some found]) i = _
        rw [added]
        by_cases last : i = kept.length
        · subst last
          simp [heldBy, ids]
        · simp [last, Ne.symm last]
      | _ => simp

theorem add_lawful (e : Engine σ) (lookup : Nat) (callback : σ → σ) (s : Custody σ) :
    (Act.add lookup callback).Lawful s (.ok ()) (e.act (.add lookup callback) s).2 := by
  obtain ⟨store, context, kept⟩ := s
  cases at_lookup : kept[lookup]?.join with
  | none =>
    simp only [act, Attempt.update, at_lookup]
    exact lawful_idle nofun
  | some found =>
    simp only [act, Attempt.update, at_lookup]
    refine lawful_of_moves (Store.moves_lend callback store) (fun _ => rfl) fun h => ?_
    cases h with
    | lookup i =>
      show heldBy (kept.set lookup _) i = _
      rw [heldBy_set at_lookup]
      by_cases same : i = lookup
      · subst same
        simp [heldBy, at_lookup, Found.lend, Store.lend]
      · simp [same, Ne.symm same]
    | _ => simp [Custody.scopes]

theorem drop_lawful (e : Engine σ) (lookup : Nat) (s : Custody σ) :
    (Act.drop lookup).Lawful s (.ok ()) (e.act (.drop lookup) s).2 := by
  obtain ⟨store, context, kept⟩ := s
  cases at_lookup : kept[lookup]?.join with
  | none =>
    simp only [act, Attempt.update, at_lookup]
    refine lawful_idle fun h member => ?_
    obtain rfl := List.mem_singleton.mp member
    simp [heldBy, at_lookup]
  | some found =>
    simp only [act, Attempt.update, at_lookup]
    refine lawful_of_moves (n := 0) ?_ (absurd rfl) fun h => ?_
    · show store.Moves (store.releaseAll found.leases) 0 _
      simpa [heldBy, at_lookup] using Store.moves_releaseAll found.leases store
    · cases h with
      | lookup i =>
        show heldBy (kept.set lookup none) i = _
        rw [heldBy_set at_lookup]
        by_cases same : i = lookup <;> simp [same]
      | _ => simp [Custody.scopes]

theorem close_lawful (e : Engine σ) (s : Custody σ) :
    Act.close.Lawful s (.ok ()) (e.act .close s).2 := by
  obtain ⟨store, context, kept⟩ := s
  cases context with
  | none =>
    refine lawful_idle fun h member => ?_
    obtain rfl := List.mem_singleton.mp member
    rfl
  | some c =>
    refine lawful_of_moves (n := 0) ?_ (absurd rfl) fun h => ?_
    · have scopes : ((List.range c.scopes.length).reverse.map Holder.scope).flatMap
          (Custody.holds ⟨store, some c, kept⟩) =
            c.scopes.flatMap fun scope => scope.leases.map (·.id) := by
        rw [List.flatMap_map]
        exact flatMap_heldAt c.scopes
      show store.Moves (c.close store) 0 _
      rw [Act.ends, scopes_some, List.flatMap_append, scopes]
      simpa using Store.moves_close c store
    · cases h with
      | scope height =>
        show heldAt [] height = _
        by_cases inside : height < c.scopes.length
        · simp [heldAt, inside]
        · simp [heldAt, inside]
      | _ => simp [act, Attempt.update]

theorem act_lawful (e : Engine σ) (a : Act σ) (s : Custody σ) :
    a.Lawful s (e.act a s).1 (e.act a s).2 := by
  cases a with
  | push value callbacks => exact push_lawful e value callbacks s
  | pop => exact pop_lawful e s
  | register callback => exact register_lawful e callback s
  | get parts slot => exact get_lawful e parts slot s
  | add lookup callback => exact add_lawful e lookup callback s
  | drop lookup => exact drop_lawful e lookup s
  | close => exact close_lawful e s

end Engine

end Logicless
