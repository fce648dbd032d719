import Logicless.Engine
import Logicless.Proofs.Fetch
import Logicless.Proofs.Lease

/-!
# What lookups do

A lookup asks code of the host program, takes leases and uses the caches of member positions. What
else the store has on record stays as it is, whether the lookup succeeds or fails (`find_kept`).
-/

namespace Logicless

def Attempt.Keeps {S E α : Type} (inv : S → Prop) (bad : E → Prop) (good : α → Prop)
    (x : Attempt S E α) : Prop :=
  ∀ s, inv s → inv (x s).2 ∧
    match (x s).1 with
    | .ok a => good a
    | .error err => bad err

namespace Attempt.Keeps

variable {S E α β : Type} {inv : S → Prop} {bad : E → Prop} {good : α → Prop} {good' : β → Prop}

theorem pure {a : α} (h : good a) : Attempt.Keeps inv bad good (Pure.pure a) :=
  fun _ held => ⟨held, h⟩

theorem bind {x : Attempt S E α} {f : α → Attempt S E β} (hx : Attempt.Keeps inv bad good x)
    (hf : ∀ a, good a → Attempt.Keeps inv bad good' (f a)) :
    Attempt.Keeps inv bad good' (x >>= f) := by
  intro s held
  obtain ⟨held', out⟩ := hx s held
  rcases run : x s with ⟨r, s'⟩
  rw [run] at held' out
  cases r with
  | ok a =>
    rw [Attempt.bind_of_ok run]
    exact hf a out s' held'
  | error err =>
    rw [Attempt.bind_of_error run]
    exact ⟨held', out⟩

theorem ofExcept {r : Except E α} (ok : ∀ a, r = .ok a → good a)
    (error : ∀ err, r = .error err → bad err) : Attempt.Keeps inv bad good (Attempt.ofExcept r) := by
  intro s held
  refine ⟨held, ?_⟩
  cases r with
  | ok a => exact ok a rfl
  | error err => exact error err rfl

end Attempt.Keeps

/-! ### The errors of the host program -/

def Hint.Admits {σ : Type} (allowed : Error → Prop) : Hint σ → Prop
  | .custom h => ∀ scope name host err, (h.resolve scope name host).result = .error err → allowed err
  | _ => True

def Resolver.Admits {σ : Type} (allowed : Error → Prop) (r : Resolver σ) : Prop :=
  match r.kind with
  | .custom c =>
    (∀ scope name host err, (c.resolve scope name host).result = .error err → allowed err) ∧
      ∀ scope name host hint, (c.hint scope name host).result = some hint → hint.Admits allowed
  | _ => True

/-- Code of the host program fails with `allowed` errors only, and so do the caches. -/
structure Engine.Admits {σ : Type} (e : Engine σ) (allowed : Error → Prop) : Prop where
  resolvers : ∀ r ∈ e.resolvers, r.Admits allowed
  missing : ∀ info err, e.missing info = .error err → allowed err
  support : ∀ text err, e.support text = .error err → allowed err
  mismatch : ∀ consumer, allowed (.cacheTypeMismatch consumer)
  computation : ∀ reason, allowed (.cacheComputation reason)

theorem Hint.admits_all {σ : Type} (h : Hint σ) : h.Admits fun _ => True := by
  cases h with
  | custom h => exact fun _ _ _ _ _ => trivial
  | _ => trivial

theorem Store.hint_admits {σ : Type} {allowed : Error → Prop} {store : Store σ}
    (admits : ∀ p ∈ store.hints, p.2.Admits allowed) {slot : Slot} {h : Hint σ}
    (held : store.hint? slot = some h) : h.Admits allowed := by
  obtain ⟨l₁, l₂, split, _⟩ := List.lookup_eq_some_iff.mp held
  exact admits (slot, h) (by rw [split]; simp)

theorem Engine.admits_all {σ : Type} (e : Engine σ) : e.Admits fun _ => True := by
  refine ⟨fun r _ => ?_, fun _ _ _ => trivial, fun _ _ _ => trivial, fun _ => trivial, fun _ => trivial⟩
  unfold Resolver.Admits
  split
  · exact ⟨fun _ _ _ _ _ => trivial, fun _ _ _ hint _ => hint.admits_all⟩
  · trivial

/-! ### What lookups leave alone -/

namespace Store

variable {σ : Type}

structure Undisturbed (s t : Store σ) : Prop where
  isOpen : t.isOpen = s.isOpen
  locators : t.locators = s.locators
  templates : t.templates = s.templates
  sources : t.sources = s.sources
  hints : t.hints = s.hints
  compiled : t.compiled = s.compiled
  oneOffs : t.oneOffs = s.oneOffs
  consultations : t.consultations = s.consultations

theorem Undisturbed.refl (s : Store σ) : s.Undisturbed s :=
  ⟨rfl, rfl, rfl, rfl, rfl, rfl, rfl, rfl⟩

theorem Undisturbed.trans {s t u : Store σ} (h : s.Undisturbed t) (h' : t.Undisturbed u) :
    s.Undisturbed u :=
  ⟨h'.isOpen.trans h.isOpen, h'.locators.trans h.locators, h'.templates.trans h.templates,
    h'.sources.trans h.sources, h'.hints.trans h.hints, h'.compiled.trans h.compiled,
    h'.oneOffs.trans h.oneOffs, h'.consultations.trans h.consultations⟩

theorem undisturbed_lendAll (releases : List (σ → σ)) (held : List (Lease σ)) (store : Store σ) :
    store.Undisturbed (store.lendAll releases held).2 := by
  induction releases generalizing held store with
  | nil => exact .refl _
  | cons release rest ih =>
    have lent : store.Undisturbed (store.lend release).2 := ⟨rfl, rfl, rfl, rfl, rfl, rfl, rfl, rfl⟩
    exact lent.trans (ih _ _)

theorem undisturbed_releaseAll (leases : List (Lease σ)) (store : Store σ) :
    store.Undisturbed (store.releaseAll leases) := by
  induction leases generalizing store with
  | nil => exact .refl _
  | cons lease rest ih =>
    have released : store.Undisturbed (store.release lease) := ⟨rfl, rfl, rfl, rfl, rfl, rfl, rfl, rfl⟩
    exact released.trans (ih _)

theorem undisturbed_close (context : Context σ) (store : Store σ) :
    store.Undisturbed (context.close store) := by
  have left (scopes : List (Scope σ)) (store : Store σ) : store.Undisturbed
      (scopes.foldl (fun store scope => store.releaseAll scope.leases) store) := by
    induction scopes generalizing store with
    | nil => exact .refl _
    | cons scope rest ih => exact (undisturbed_releaseAll scope.leases store).trans (ih _)
  exact (left context.scopes store).trans (undisturbed_releaseAll context.leases _)

end Store

namespace Lookup

variable {σ α : Type} {start kept : Store σ} {held : List Nat} {allowed : Error → Prop}

/-- A lookup that began in the store `kept`: its leases are pending on top of the `held` ones. -/
def Intact (start kept : Store σ) (held : List Nat) (s : Lookup.State σ) : Prop :=
  kept.Undisturbed s.store ∧ start.Owes (s.leases.map (·.id) ++ held) s.store

/-- A lookup that stays intact, fails with `allowed` errors only, and gives a `good` result. -/
abbrev Sound (start kept : Store σ) (held : List Nat) (allowed : Error → Prop) (good : α → Prop)
    (x : Lookup σ α) : Prop :=
  Attempt.Keeps (Intact start kept held) allowed good x

/-- An invariant that holds on, whatever leases code of the host program takes, and whatever is
remembered of members. -/
class Steady (inv : Lookup.State σ → Prop) : Prop where
  lent : ∀ {s} (releases : List (σ → σ)), inv s →
    inv ⟨(s.store.lendAll releases s.leases).2, (s.store.lendAll releases s.leases).1⟩
  looked : ∀ {s} {store : Store σ}, s.store.Undisturbed store → store.leases = s.store.leases →
    store.leaseLog = s.store.leaseLog → inv s → inv { s with store }

instance : Steady (Intact start kept held) where
  lent _ h := ⟨h.1.trans (Store.undisturbed_lendAll _ _ _), Store.Owes.lendAll h.2⟩
  looked same leases log h := ⟨h.1.trans same, h.2.of_eq leases log⟩

variable {inv : Lookup.State σ → Prop} [Steady inv]

theorem sound_ask {question : σ → Reply σ α} {good : α → Prop}
    (h : ∀ host, good (question host).result) : Attempt.Keeps inv allowed good (ask question) := by
  intro s holds
  have answered : s.store.Undisturbed { s.store with host := (question s.store.host).host } :=
    ⟨rfl, rfl, rfl, rfl, rfl, rfl, rfl, rfl⟩
  exact ⟨Steady.lent _ (Steady.looked answered rfl rfl holds), h _⟩

theorem sound_askFallible {question : σ → Reply σ (Except Error α)}
    (h : ∀ host err, (question host).result = .error err → allowed err) :
    Attempt.Keeps inv allowed (fun _ => True) (askFallible question) :=
  have asked : Attempt.Keeps inv allowed (fun r => ∀ err, r = .error err → allowed err)
      (ask question) := sound_ask h
  asked.bind fun _ error => .ofExcept (fun _ _ => trivial) error

omit [Steady inv] in
theorem sound_pure {good : α → Prop} {a : α} (h : good a) :
    Attempt.Keeps inv allowed good (pure a) :=
  Attempt.Keeps.pure h

end Lookup

/-! ### Hints and resolvers -/

variable {σ : Type} {inv : Lookup.State σ → Prop} [Lookup.Steady inv] {allowed : Error → Prop}

theorem Hint.sound_resolve {h : Hint σ} (admits : h.Admits allowed) (scope : Option Value)
    (name : String) :
    Attempt.Keeps inv allowed (fun _ => True) (h.resolve scope name) := by
  cases h with
  | custom h => exact Lookup.sound_askFallible fun host => admits scope name host
  | this => exact Lookup.sound_pure trivial
  | entry => exact Lookup.sound_pure trivial
  | member typeName index => exact Lookup.sound_pure trivial
  | inapplicable => exact Lookup.sound_pure trivial

namespace Resolver

theorem memberIndex_of_none {shelf : Option Nat} {store : Store σ}
    (none : (shelf.bind fun i => store.members[i]?.map (i, ·)) = none) (o : HostObject Value)
    (name : String) : memberIndex shelf o name store = (.ok (o.indexOf? name), store) := by
  simp only [memberIndex, Attempt.state, Attempt.bind_apply, none]
  rfl

theorem memberIndex_of_some {shelf : Option Nat} {store : Store σ} {i : Nat}
    {positions : Shelf σ MemberKey (Option Nat)}
    (some : (shelf.bind fun i => store.members[i]?.map (i, ·)) = some (i, positions))
    (o : HostObject Value) (name : String) : memberIndex shelf o name store =
      Store.fetch positions (Store.putMembers i) (fun _ => pure (o.indexOf? name))
        ⟨o.typeName, name⟩ store := by
  simp only [memberIndex, Attempt.state, Attempt.bind_apply, some]

/-- The positions of members are computed without failure; only their cache can fail. -/
theorem memberIndex_kept {shelf : Option Nat} {o : HostObject Value} {name : String}
    {store store' : Store σ} {r : Except Error (Option Nat)}
    (ran : memberIndex shelf o name store = (r, store')) :
    store.Undisturbed store' ∧ store'.leases = store.leases ∧ store'.leaseLog = store.leaseLog ∧
      ∀ err, r = .error err →
        (∃ consumer, err = .cacheTypeMismatch consumer) ∨ ∃ reason, err = .cacheComputation reason := by
  cases shelved : shelf.bind fun i => store.members[i]?.map (i, ·) with
  | none =>
    rw [memberIndex_of_none shelved] at ran
    cases ran
    exact ⟨.refl _, rfl, rfl, fun _ fails => by cases fails⟩
  | some positions =>
    rw [memberIndex_of_some shelved] at ran
    have fetched := positions.2.fetched (Store.putMembers positions.1)
      (fun _ => pure (o.indexOf? name)) ⟨o.typeName, name⟩ store
    rw [ran] at fetched
    cases fetched with
    | answered _ shelf' host answers _ =>
      refine ⟨⟨rfl, rfl, rfl, rfl, rfl, rfl, rfl, rfl⟩, rfl, rfl, ?_⟩
      rintro err rfl
      cases answers with
      | foreign _ => exact Or.inl ⟨_, rfl⟩
      | inFlight _ reason => exact Or.inr ⟨reason, rfl⟩
    | loaded _ shelf' before after loaded loads _ =>
      cases loads
      exact ⟨⟨rfl, rfl, rfl, rfl, rfl, rfl, rfl, rfl⟩, rfl, rfl, fun _ fails => by cases fails⟩

theorem sound_memberIndex {good : Option Nat → Prop} (ok : ∀ i, good i)
    (mismatch : ∀ consumer, allowed (.cacheTypeMismatch consumer))
    (computation : ∀ reason, allowed (.cacheComputation reason)) (shelf : Option Nat)
    (o : HostObject Value) (name : String) :
    Attempt.Keeps inv allowed good (Lookup.onStore (memberIndex shelf o name)) := by
  intro s holds
  rcases ran : memberIndex shelf o name s.store with ⟨r, store'⟩
  obtain ⟨undisturbed, numbered, log, errors⟩ := memberIndex_kept ran
  simp only [Lookup.onStore, ran]
  refine ⟨Lookup.Steady.looked undisturbed numbered log holds, ?_⟩
  cases r with
  | ok index => exact ok index
  | error err =>
    rcases errors err rfl with ⟨consumer, rfl⟩ | ⟨reason, rfl⟩
    · exact mismatch consumer
    · exact computation reason

variable {e : Engine σ}

theorem sound_resolve (admits : e.Admits allowed) {r : Resolver σ} (member : r ∈ e.resolvers)
    (scope : Option Value) (name : String) :
    Attempt.Keeps inv allowed (fun _ => True) (r.resolve scope name) := by
  have host := admits.resolvers r member
  unfold Resolver.resolve
  unfold Resolver.Admits at host
  split
  · exact Lookup.sound_pure trivial
  · exact Lookup.sound_pure trivial
  · exact Lookup.sound_pure trivial
  · next shelf _ =>
    split
    · next o =>
      exact (sound_memberIndex (fun _ => trivial) admits.mismatch admits.computation shelf o name).bind
        fun index _ => Lookup.sound_pure trivial
    · exact Lookup.sound_pure trivial
  · exact Lookup.sound_pure trivial
  · next c kind =>
    rw [kind] at host
    exact Lookup.sound_askFallible fun h => host.1 scope name h

/-- A hint that a lookup gives is one whose code fails with `allowed` errors only. -/
def Offers (allowed : Error → Prop) (hint : Option (Hint σ)) : Prop :=
  ∀ h, hint = some h → h.Admits allowed

theorem sound_hint (admits : e.Admits allowed) {r : Resolver σ} (member : r ∈ e.resolvers)
    (scope : Option Value) (name : String) :
    Attempt.Keeps inv allowed (Offers allowed) (r.hint scope name) := by
  have host := admits.resolvers r member
  unfold Resolver.hint
  unfold Resolver.Admits at host
  split
  · refine Lookup.sound_pure ?_
    rintro h ⟨⟩
    split <;> trivial
  · exact Lookup.sound_pure fun h given => by cases given
  · refine Lookup.sound_pure ?_
    rintro h ⟨⟩
    trivial
  · refine Lookup.sound_pure ?_
    rintro h ⟨⟩
    split
    · split <;> trivial
    · trivial
  · refine Lookup.sound_pure ?_
    rintro h ⟨⟩
    trivial
  · next c kind =>
    rw [kind] at host
    exact Lookup.sound_ask fun h => host.2 scope name h

end Resolver

/-! ### Keys -/

namespace Lookup

variable {e : Engine σ}

def Offers (allowed : Error → Prop) (found : Option (Value × Option (Hint σ))) : Prop :=
  ∀ v hint, found = some (v, hint) → Resolver.Offers allowed hint

theorem sound_first (admits : e.Admits allowed) {resolvers : List (Resolver σ)}
    (members : ∀ r ∈ resolvers, r ∈ e.resolvers) (scope : Option Value) (name : String)
    (wanted : Bool) :
    Attempt.Keeps inv allowed (Offers allowed) (first resolvers scope name wanted) := by
  induction resolvers with
  | nil => exact sound_pure fun _ _ found => by cases found
  | cons r rest ih =>
    have member := members r List.mem_cons_self
    refine (Resolver.sound_resolve admits member scope name).bind fun matched _ => ?_
    cases matched with
    | none => exact ih fun r' h => members r' (List.mem_cons_of_mem r h)
    | some v =>
      have matched (hint : Option (Hint σ)) (good : Resolver.Offers allowed hint) :
          Attempt.Keeps inv allowed (Offers allowed) (pure (some (v, hint))) := by
        refine sound_pure ?_
        rintro v' hint' ⟨⟩
        exact good
      cases wanted with
      | true => exact (Resolver.sound_hint admits member scope name).bind matched
      | false => exact matched none fun _ given => by cases given

theorem sound_innermost (admits : e.Admits allowed) (scopes : List Value) (name : String)
    (wanted : Bool) :
    Attempt.Keeps inv allowed (Offers allowed) (innermost e.resolvers scopes name wanted) := by
  induction scopes with
  | nil => exact sound_first admits (fun _ h => h) none name wanted
  | cons scope rest ih =>
    refine (sound_first admits (fun _ h => h) (some scope) name wanted).bind fun found good => ?_
    cases found with
    | some found => exact sound_pure good
    | none => exact ih

theorem sound_descend (admits : e.Admits allowed) (names : List String) (v : Value) :
    Attempt.Keeps inv allowed (fun _ => True) (descend e.resolvers names v) := by
  induction names generalizing v with
  | nil => exact sound_pure trivial
  | cons name rest ih =>
    refine (sound_first admits (fun _ h => h) (some v) name false).bind fun found _ => ?_
    cases found with
    | none => exact sound_pure trivial
    | some found => exact ih found.1

theorem sound_hinted {hint : Option (Hint σ)} (good : Resolver.Offers allowed hint)
    (scope : Option Value) (name : String) :
    Attempt.Keeps inv allowed (Offers allowed) (hinted hint scope name) := by
  unfold hinted
  cases usable : hint.filter (·.isApplicable) with
  | none => exact sound_pure fun _ _ found => by cases found
  | some h =>
    have admits : h.Admits allowed := good h (Option.filter_eq_some_iff.mp usable).1
    refine (Hint.sound_resolve admits scope name).bind fun matched _ => sound_pure ?_
    intro v hint' found
    obtain ⟨_, _, same⟩ := Option.map_eq_some_iff.mp found
    cases same
    rintro _ ⟨⟩
    exact admits

def OffersHint (allowed : Error → Prop) (found : Option Value × Option (Hint σ)) : Prop :=
  Resolver.Offers allowed found.2

theorem sound_key (admits : e.Admits allowed) (scopes : List Value) (parts : List String)
    {slot : Option (Option (Hint σ))} (good : Resolver.Offers allowed slot.join) :
    Attempt.Keeps inv allowed (OffersHint allowed) (key e.resolvers scopes parts slot) := by
  have unmatched : OffersHint allowed ((none, none) : Option Value × Option (Hint σ)) :=
    fun _ given => by cases given
  unfold key
  split
  · exact sound_pure unmatched
  · next name =>
    refine (sound_hinted good scopes.head? name).bind fun found matched => ?_
    cases found with
    | some found => exact sound_pure (matched _ _ rfl)
    | none =>
      refine (sound_innermost admits scopes name _).bind fun found matched => ?_
      cases found with
      | some found => exact sound_pure (matched _ _ rfl)
      | none => exact sound_pure unmatched
  · next name rest _ =>
    refine (sound_innermost admits scopes name false).bind fun found _ => ?_
    cases found with
    | none => exact sound_pure unmatched
    | some found =>
      exact (sound_descend admits rest found.1).bind fun v _ => sound_pure fun _ given => by cases given

end Lookup

/-- How a lookup ends that began in the store `kept`: what it found holds the leases it took, and
a failed one has released them. -/
def Engine.Finds {σ : Type} (start kept : Store σ) (held : List Nat) (allowed : Error → Prop) :
    Except Error (Found σ) × Store σ → Prop
  | (.ok found, store) => kept.Undisturbed store ∧
      start.Owes (found.leases.map (·.id) ++ held) store ∧ Resolver.Offers allowed found.hint
  | (.error err, store) => kept.Undisturbed store ∧ start.Owes held store ∧ allowed err

variable {start : Store σ} {held : List Nat}

theorem Engine.find_kept {e : Engine σ} (admits : e.Admits allowed) (scopes : List Value)
    (parts : List String) {slot : Option (Option (Hint σ))}
    (good : Resolver.Offers allowed slot.join) {store : Store σ} (owes : start.Owes held store) :
    Engine.Finds start store held allowed (e.find scopes parts slot store) := by
  let slot' := if e.config.hintsEnabled then slot else none
  have usable : Resolver.Offers allowed slot'.join := by
    by_cases hints : e.config.hintsEnabled = true
    · simpa only [slot', hints, if_true] using good
    · simp only [slot', hints]
      intro _ given
      cases given
  have sound : Lookup.Sound start store held allowed (Lookup.OffersHint allowed)
      (Lookup.key e.resolvers scopes parts slot') := Lookup.sound_key admits scopes parts usable
  obtain ⟨⟨same, pending⟩, out⟩ := sound ⟨store, []⟩ ⟨.refl _, owes⟩
  rcases ran : Lookup.key e.resolvers scopes parts slot' ⟨store, []⟩ with ⟨r, s⟩
  rw [ran] at same pending out
  unfold Engine.find
  dsimp only
  rw [ran]
  cases r with
  | ok matched => exact ⟨same, pending, out⟩
  | error err =>
    exact ⟨same.trans (Store.undisturbed_releaseAll _ _), Store.Owes.releaseAll pending, out⟩

end Logicless
