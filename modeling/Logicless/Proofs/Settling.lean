import Logicless.Proofs.Binding

/-!
# What lookups settle on

Resolvers are lawful if each of them goes by scope and name alone, and a hint that is right never yields
anything else than they say. With such resolvers, the value of a key depends on nothing that is
remembered (`Engine.find_lawful`). The built-in resolvers are lawful (`Lookup.builtIns_lawful`).
-/

namespace Logicless

variable {σ α β : Type} {names : String → List String} {rules : Rules σ}

def Value.Fit (names : String → List String) (scope : Option Value) : Prop :=
  ∀ v, scope = some v → v.Conforms names

/-- What the resolver answers for the scope and the name, if it goes by the rules. -/
def Resolver.tells (rules : Rules σ) (r : Resolver σ) (scope : Option Value) (name : String) :
    Except Error (Option Value) :=
  match r.kind with
  | .this => .ok (if namesThis name then scope else none)
  | .listIndex => .ok (scope.bind (·.item? name))
  | .map => .ok (scope.bind (·.get? name))
  | .members shelf =>
    match scope with
    | some (.object o) =>
      if rules.mixes shelf then .error (.cacheTypeMismatch membersConsumer)
      else .ok ((Value.object o).member? name)
    | _ => .ok none
  | .globals data => .ok (if scope.isSome then none else data.lookup name)
  | .custom c => rules.answer c scope name

namespace Lookup

variable (rules : Rules σ) (resolvers : List (Resolver σ))

/-! ### What resolvers say -/

def saidFirst (scope : Option Value) (name : String) : List (Resolver σ) → Except Error (Option Value)
  | [] => .ok none
  | r :: rest =>
    match r.tells rules scope name with
    | .ok none => saidFirst scope name rest
    | said => said

def saidIn (name : String) : List Value → Except Error (Option Value)
  | [] => saidFirst rules none name resolvers
  | scope :: rest =>
    match saidFirst rules (some scope) name resolvers with
    | .ok none => saidIn name rest
    | said => said

def saidBelow : List String → Value → Except Error (Option Value)
  | [], v => .ok (some v)
  | name :: rest, v =>
    match saidFirst rules (some v) name resolvers with
    | .ok (some next) => saidBelow rest next
    | said => said

def said (scopes : List Value) : List String → Except Error (Option Value)
  | [] => .ok none
  | name :: rest =>
    match saidIn rules resolvers name scopes with
    | .ok (some v) => saidBelow rules resolvers rest v
    | said => said

/-- The resolver is the first that does not pass, and it knows the name. -/
def Wins (scope : Option Value) (name : String) (r : Resolver σ) (v : Value) : Prop :=
  ∃ before after, resolvers = before ++ r :: after ∧
    (∀ q ∈ before, q.tells rules scope name = .ok none) ∧ r.tells rules scope name = .ok (some v)

variable {rules resolvers} {scope : Option Value} {name : String} {scopes : List Value}

theorem saidFirst_of_passed {before : List (Resolver σ)} (rest : List (Resolver σ))
    (passed : ∀ q ∈ before, q.tells rules scope name = .ok none) :
    saidFirst rules scope name (before ++ rest) = saidFirst rules scope name rest := by
  induction before with
  | nil => rfl
  | cons q before ih =>
    rw [List.cons_append, saidFirst, passed q List.mem_cons_self]
    exact ih fun q' member => passed q' (List.mem_cons_of_mem q member)

theorem saidFirst_some_iff {v : Value} :
    saidFirst rules scope name resolvers = .ok (some v) ↔ ∃ r, Wins rules resolvers scope name r v := by
  constructor
  · intro said
    induction resolvers with
    | nil => cases said
    | cons r rest ih =>
      rw [saidFirst] at said
      split at said
      · next passes =>
        obtain ⟨r', before, after, rfl, passed, knows⟩ := ih said
        exact ⟨r', r :: before, after, rfl, List.forall_mem_cons.mpr ⟨passes, passed⟩, knows⟩
      · exact ⟨r, [], rest, rfl, nofun, said⟩
  · rintro ⟨r, before, after, rfl, passed, knows⟩
    rw [saidFirst_of_passed _ passed, saidFirst, knows]

theorem Wins.member {r : Resolver σ} {v : Value} (wins : Wins rules resolvers scope name r v) :
    r ∈ resolvers := by
  obtain ⟨before, after, split, _⟩ := wins
  rw [split]
  simp

theorem Wins.knows {r : Resolver σ} {v : Value} (wins : Wins rules resolvers scope name r v) :
    r.tells rules scope name = .ok (some v) := by
  obtain ⟨_, _, _, _, knows⟩ := wins
  exact knows

theorem saidIn_cons_of_some {first : Value} {rest : List Value} {v : Value}
    (said : saidFirst rules (some first) name resolvers = .ok (some v)) :
    saidIn rules resolvers name (first :: rest) = .ok (some v) := by
  rw [saidIn, said]

theorem said_single : said rules resolvers scopes [name] = saidIn rules resolvers name scopes := by
  rw [said]
  split
  · next v found => exact found.symm
  · rfl

/-! ### What passes to parts -/

structure Hereditary (rules : Rules σ) (resolvers : List (Resolver σ)) (P : Value → Prop) : Prop where
  tells : ∀ {r scope name v}, r ∈ resolvers → (∀ u, scope = some u → P u) →
    r.tells rules scope name = .ok (some v) → P v

section

variable {P : Value → Prop} (hereditary : Hereditary rules resolvers P)

include hereditary

theorem Hereditary.saidFirst {v : Value} (fit : ∀ u, scope = some u → P u)
    (said : saidFirst rules scope name resolvers = .ok (some v)) : P v := by
  obtain ⟨r, wins⟩ := saidFirst_some_iff.mp said
  exact hereditary.tells wins.member fit wins.knows

theorem Hereditary.saidIn {v : Value} (fit : ∀ scope ∈ scopes, P scope)
    (said : saidIn rules resolvers name scopes = .ok (some v)) : P v := by
  induction scopes with
  | nil => exact hereditary.saidFirst (fun _ none => by cases none) said
  | cons scope rest ih =>
    rw [Lookup.saidIn] at said
    split at said
    · exact ih (fun v member => fit v (List.mem_cons_of_mem scope member)) said
    · refine hereditary.saidFirst ?_ said
      rintro _ ⟨⟩
      exact fit scope List.mem_cons_self

theorem Hereditary.saidBelow {parts : List String} {v u : Value} (fit : P v)
    (said : saidBelow rules resolvers parts v = .ok (some u)) : P u := by
  induction parts generalizing v with
  | nil =>
    cases said
    exact fit
  | cons name rest ih =>
    rw [Lookup.saidBelow] at said
    split at said
    · next next found =>
      refine ih (hereditary.saidFirst ?_ found) said
      rintro _ ⟨⟩
      exact fit
    · next other => exact absurd said (other u)

theorem Hereditary.said {parts : List String} {v : Value} (fit : ∀ scope ∈ scopes, P scope)
    (said : said rules resolvers scopes parts = .ok (some v)) : P v := by
  cases parts with
  | nil => cases said
  | cons name rest =>
    rw [Lookup.said] at said
    split at said
    · next first found => exact hereditary.saidBelow (hereditary.saidIn fit found) said
    · next other => exact absurd said (other v)

end

/-! ### Settling -/

/-- The lookup takes no leases, and leaves the store as it is but for positions of members. -/
def Settles (rules : Rules σ) (good : Except Error α → Prop) (x : Lookup σ α) : Prop :=
  ∀ s, s.store.Indexed rules → ∃ r store, x s = (r, ⟨store, s.leases⟩) ∧ good r ∧
    s.store.Undisturbed store ∧ store.Indexed rules

section

variable {good : Except Error α → Prop} {good' : Except Error β → Prop}

theorem settles_except {r : Except Error α} (h : good r) :
    Settles rules good (Attempt.ofExcept r : Lookup σ α) :=
  fun s indexed => ⟨r, s.store, rfl, h, .refl _, indexed⟩

theorem settles_pure {a : α} (h : good (.ok a)) : Settles rules good (pure a : Lookup σ α) :=
  settles_except h

theorem Settles.bind {x : Lookup σ α} {f : α → Lookup σ β} (hx : Settles rules good x)
    (ok : ∀ a, good (.ok a) → Settles rules good' (f a))
    (error : ∀ err, good (.error err) → good' (.error err)) : Settles rules good' (x >>= f) := by
  intro s indexed
  obtain ⟨r, store, ran, h, same, indexed⟩ := hx s indexed
  cases r with
  | error err => exact ⟨.error err, store, Attempt.bind_of_error ran, error err h, same, indexed⟩
  | ok a =>
    obtain ⟨r, store', ran', h', same', indexed'⟩ := ok a h ⟨store, s.leases⟩ indexed
    exact ⟨r, store', (Attempt.bind_of_ok ran).trans ran', h', same.trans same', indexed'⟩

end

def Hints (rules : Rules σ) (name : String) (r : Except Error (Option (Hint σ))) : Prop :=
  ∃ hint, r = .ok hint ∧ ∀ h, hint = some h → rules.right name h

/-- Each of the resolvers goes by scope and name alone. The hints that they give are right, and what a
hint that is right yields for a scope, they say as well. -/
structure Lawful (rules : Rules σ) (resolvers : List (Resolver σ)) : Prop where
  settled : ∀ {r scope}, r ∈ resolvers → Value.Fit rules.names scope → ∀ name,
    Settles rules (· = r.tells rules scope name) (r.resolve scope name)
  fit : ∀ {r scope name v}, r ∈ resolvers → Value.Fit rules.names scope →
    r.tells rules scope name = .ok (some v) → v.Conforms rules.names
  offers : ∀ {scope name r v}, Value.Fit rules.names scope → Wins rules resolvers scope name r v →
    Settles rules (Hints rules name) (r.hint scope name)
  plain : ∀ {name h}, rules.right name h → ∀ scope, h.resolve scope name = pure (h.yield? name scope)
  yields : ∀ {name h scope v}, rules.right name h → Value.Fit rules.names scope →
    h.yield? name scope = some v → saidFirst rules scope name resolvers = .ok (some v)

inductive Matches (rules : Rules σ) (name : String) :
    Except Error (Option Value) → Except Error (Option (Value × Option (Hint σ))) → Prop where
  | failed (err : Error) : Matches rules name (.error err) (.error err)
  | unknown : Matches rules name (.ok none) (.ok none)
  | known {v : Value} {hint : Option (Hint σ)} (right : ∀ h, hint = some h → rules.right name h) :
      Matches rules name (.ok (some v)) (.ok (some (v, hint)))

inductive Answers (rules : Rules σ) (parts : List String) :
    Except Error (Option Value) → Except Error (Option Value × Option (Hint σ)) → Prop where
  | failed (err : Error) : Answers rules parts (.error err) (.error err)
  | found {v : Option Value} {hint : Option (Hint σ)}
      (right : ∀ h, hint = some h → ∃ name, parts = [name] ∧ rules.right name h) :
      Answers rules parts (.ok v) (.ok (v, hint))

section

variable {told : Except Error (Option Value)}

theorem Matches.answers {r : Except Error (Option (Value × Option (Hint σ)))}
    (h : Matches rules name told r) :
    Answers rules [name] told (r.map fun found => (found.map (·.1), found.bind (·.2))) := by
  cases h with
  | failed err => exact .failed err
  | unknown => exact .found nofun
  | known right => exact .found fun h given => ⟨name, rfl, right h given⟩

/-- Go on as the resolvers have told. -/
theorem Settles.matched {good : Except Error α → Prop}
    {x : Lookup σ (Option (Value × Option (Hint σ)))}
    {f : Option (Value × Option (Hint σ)) → Lookup σ α} (hx : Settles rules (Matches rules name told) x)
    (failed : ∀ err, told = .error err → good (.error err))
    (unknown : told = .ok none → Settles rules good (f none))
    (known : ∀ v hint, told = .ok (some v) → (∀ h, hint = some h → rules.right name h) →
      Settles rules good (f (some (v, hint)))) : Settles rules good (x >>= f) := by
  refine hx.bind (fun found matched => ?_) fun err matched => ?_
  · cases matched with
    | unknown => exact unknown rfl
    | known right => exact known _ _ rfl right
  · cases matched
    exact failed err rfl

end

variable {wanted : Bool}

theorem fit_none : Value.Fit names none := nofun

theorem fit_some {v : Value} (conforms : v.Conforms names) : Value.Fit names (some v) := by
  rintro _ ⟨⟩
  exact conforms

namespace Lawful

variable (lawful : Lawful rules resolvers)

include lawful

theorem hereditary : Hereditary rules resolvers fun v => v.Conforms rules.names :=
  ⟨lawful.fit⟩

/-- When those before have passed, the others settle it. -/
theorem settles_rest (fit : Value.Fit rules.names scope) {before rest : List (Resolver σ)}
    (split : resolvers = before ++ rest) (passed : ∀ q ∈ before, q.tells rules scope name = .ok none) :
    Settles rules (Matches rules name (saidFirst rules scope name rest))
      (first rest scope name wanted) := by
  induction rest generalizing before with
  | nil => exact settles_pure .unknown
  | cons r rest ih =>
    have member : r ∈ resolvers := by
      rw [split]
      simp
    rw [saidFirst]
    refine (lawful.settled member fit name).bind (fun answer said => ?_) fun err said => ?_
    · rw [← said]
      cases answer with
      | none =>
        have further : resolvers = (before ++ [r]) ++ rest := by
          rw [split, List.append_assoc, List.singleton_append]
        refine ih further fun q within => ?_
        rcases List.mem_append.mp within with within | within
        · exact passed q within
        · obtain rfl := List.mem_singleton.mp within
          exact said.symm
      | some v =>
        cases wanted with
        | true =>
          refine (lawful.offers fit ⟨before, rest, split, passed, said.symm⟩).bind (fun hint given => ?_) ?_
          · obtain ⟨_, ⟨⟩, right⟩ := given
            exact settles_pure (.known right)
          · rintro err ⟨_, ⟨⟩, _⟩
        | false => exact settles_pure (.known nofun)
    · rw [← said]
      exact .failed err

theorem settles_first (fit : Value.Fit rules.names scope) :
    Settles rules (Matches rules name (saidFirst rules scope name resolvers))
      (first resolvers scope name wanted) :=
  lawful.settles_rest fit (List.nil_append resolvers).symm nofun

theorem settles_innermost (conforms : ∀ scope ∈ scopes, scope.Conforms rules.names) :
    Settles rules (Matches rules name (saidIn rules resolvers name scopes))
      (innermost resolvers scopes name wanted) := by
  induction scopes with
  | nil => exact lawful.settles_first fit_none
  | cons scope rest ih =>
    have here : Settles rules (Matches rules name (saidFirst rules (some scope) name resolvers))
        (first resolvers (some scope) name wanted) :=
      lawful.settles_first (fit_some (conforms scope List.mem_cons_self))
    rw [saidIn]
    refine here.matched (fun err said => ?_) (fun said => ?_) fun v hint said right => ?_ <;> rw [said]
    · exact .failed err
    · exact ih fun v member => conforms v (List.mem_cons_of_mem scope member)
    · exact settles_pure (.known right)

theorem settles_descend {parts : List String} {v : Value} (conforms : v.Conforms rules.names) :
    Settles rules (· = saidBelow rules resolvers parts v) (descend resolvers parts v) := by
  induction parts generalizing v with
  | nil => exact settles_pure rfl
  | cons name rest ih =>
    have here : Settles rules (Matches rules name (saidFirst rules (some v) name resolvers))
        (first resolvers (some v) name false) := lawful.settles_first (fit_some conforms)
    rw [saidBelow]
    refine here.matched (fun err said => ?_) (fun said => ?_) fun next hint said _ => ?_ <;> rw [said]
    · exact settles_pure rfl
    · exact ih (lawful.hereditary.saidFirst (fit_some conforms) said)

/-- What a right hint yields in the innermost scope, the resolvers say as well. -/
theorem settles_hinted {hint : Option (Hint σ)} (right : ∀ h, hint = some h → rules.right name h)
    (conforms : ∀ scope ∈ scopes, scope.Conforms rules.names) :
    Settles rules
      (fun r => r = .ok none ∨ Matches rules name (saidIn rules resolvers name scopes) r)
      (hinted hint scopes.head? name) := by
  unfold hinted
  cases usable : hint.filter (·.isApplicable) with
  | none => exact settles_pure (Or.inl rfl)
  | some h =>
    have right : rules.right name h := right h (Option.filter_eq_some_iff.mp usable).1
    simp only [lawful.plain right, pure_bind]
    refine settles_pure ?_
    cases yield : h.yield? name scopes.head? with
    | none => exact Or.inl rfl
    | some v =>
      refine Or.inr ?_
      have said : saidIn rules resolvers name scopes = .ok (some v) := by
        cases scopes with
        | nil => exact lawful.yields right fit_none yield
        | cons scope rest =>
          exact saidIn_cons_of_some
            (lawful.yields right (fit_some (conforms scope List.mem_cons_self)) yield)
      rw [said]
      refine .known ?_
      rintro h' ⟨⟩
      exact right

theorem settles_key {parts : List String} {slot : Option (Option (Hint σ))}
    (right : ∀ h, slot.join = some h → ∀ name, parts = [name] → rules.right name h)
    (conforms : ∀ scope ∈ scopes, scope.Conforms rules.names) :
    Settles rules (Answers rules parts (said rules resolvers scopes parts))
      (key resolvers scopes parts slot) := by
  unfold key
  split
  · exact settles_pure (.found nofun)
  · next name =>
    rw [said_single]
    refine (lawful.settles_hinted (fun h given => right h given name rfl) conforms).bind
      (fun found hinted => ?_) fun err hinted => ?_
    · cases found with
      | some found =>
        rcases hinted with none | matched
        · cases none
        · exact settles_pure matched.answers
      | none =>
        refine (lawful.settles_innermost conforms).bind (fun found matched => ?_) fun err matched =>
          matched.answers
        cases found <;> exact settles_pure matched.answers
    · rcases hinted with none | matched
      · cases none
      · exact matched.answers
  · next name rest _ =>
    rw [said]
    refine (lawful.settles_innermost conforms).matched (fun err said => ?_) (fun said => ?_)
      fun v hint said _ => ?_ <;> rw [said]
    · exact .failed err
    · exact settles_pure (.found nofun)
    · refine (lawful.settles_descend (lawful.hereditary.saidIn conforms said)).bind
        (fun u below => settles_pure ?_) fun err below => ?_
      · show Answers rules _ (saidBelow rules resolvers rest v) _
        rw [← below]
        exact .found nofun
      · show Answers rules _ (saidBelow rules resolvers rest v) _
        rw [← below]
        exact .failed err

end Lawful

end Lookup

namespace Engine

/-- How a lookup ends: as the resolvers say, without leases, and with a right hint, if with any. -/
inductive Discovers (rules : Rules σ) (parts : List String) (store : Store σ) :
    Except Error (Option Value) → Except Error (Found σ) × Store σ → Prop where
  | failed {err : Error} {store' : Store σ} (same : store.Undisturbed store')
      (indexed : store'.Indexed rules) : Discovers rules parts store (.error err) (.error err, store')
  | found {v : Option Value} {hint : Option (Hint σ)} {store' : Store σ}
      (right : ∀ h, hint = some h → ∃ name, parts = [name] ∧ rules.right name h)
      (same : store.Undisturbed store') (indexed : store'.Indexed rules) :
      Discovers rules parts store (.ok v) (.ok ⟨v, hint, []⟩, store')

/-- With lawful resolvers, the value of a key is what they say, whatever the store remembers. -/
theorem find_lawful {e : Engine σ} (lawful : Lookup.Lawful rules e.resolvers)
    {scopes : List Value} {parts : List String} {slot : Option (Option (Hint σ))}
    (right : ∀ h, slot.join = some h → ∀ name, parts = [name] → rules.right name h)
    (conforms : ∀ scope ∈ scopes, scope.Conforms rules.names) {store : Store σ}
    (indexed : store.Indexed rules) :
    Discovers rules parts store (Lookup.said rules e.resolvers scopes parts)
      (e.find scopes parts slot store) := by
  let slot' := if e.config.hintsEnabled then slot else none
  have right' : ∀ h, slot'.join = some h → ∀ name, parts = [name] → rules.right name h := by
    intro h given
    by_cases hints : e.config.hintsEnabled = true
    · simp only [slot', hints, if_true] at given
      exact right h given
    · simp only [slot', hints] at given
      cases given
  -- The lookup starts without leases, and keeps those it starts with.
  obtain ⟨r, store', ran, answers, same, indexed'⟩ :=
    lawful.settles_key right' conforms ⟨store, []⟩ indexed
  simp only [find]
  rw [show (if e.config.hintsEnabled then slot else none) = slot' from rfl, ran]
  generalize Lookup.said rules e.resolvers scopes parts = said at answers ⊢
  cases answers with
  | failed err => exact .failed same indexed'
  | found offers => exact .found offers same indexed'

end Engine

/-! ### The built-in resolvers -/

namespace Resolver

def isBuiltIn (r : Resolver σ) : Bool :=
  match r.kind with
  | .custom _ => false
  | _ => true

inductive Gives (names : String → List String) (name : String) : ResolverKind σ → Hint σ → Prop where
  | this (this : namesThis name = true) : Gives names name .this .this
  | entry : Gives names name .map .entry
  | member {shelf : Option Nat} {typeName : String} {index : Nat}
      (position : position? (names typeName) name = some index) :
      Gives names name (.members shelf) (.member typeName index)
  | inapplicable {data : List (String × Value)} : Gives names name (.globals data) .inapplicable

variable {r : Resolver σ} {scope : Option Value} {name : String}

theorem settles_tells (builtIn : r.isBuiltIn = true) (fit : Value.Fit rules.names scope) :
    Lookup.Settles rules (· = r.tells rules scope name) (r.resolve scope name) := by
  obtain ⟨priority, kind⟩ := r
  cases kind with
  | members shelf =>
    cases scope with
    | none => exact Lookup.settles_pure rfl
    | some scope =>
      cases fit scope rfl with
      | @object o listed _ =>
        intro s indexed
        obtain ⟨store, ran, same, indexed⟩ := memberIndex_indexed listed shelf name indexed
        refine ⟨_, store, ?_, rfl, same, indexed⟩
        simp only [resolve, tells, Lookup.onStore, Attempt.bind_apply, ran]
        cases rules.mixes shelf <;> rfl
      | _ => exact Lookup.settles_pure rfl
  | custom c => cases builtIn
  | _ => exact Lookup.settles_pure rfl

theorem tells_members {priority : Int} {shelf : Option Nat} {v : Value}
    (said : tells rules ⟨priority, .members shelf⟩ scope name = .ok (some v)) :
    ∃ o, scope = some (.object o) ∧ rules.mixes shelf = false ∧
      (Value.object o).member? name = some v := by
  unfold tells at said
  dsimp only at said
  split at said
  · next o =>
    split at said
    · cases said
    · next own => exact ⟨o, rfl, Bool.eq_false_iff.mpr own, Except.ok.inj said⟩
  · cases said

/-- Where a built-in resolver has a value from: it is the scope, or stands in it, or outside of all
scopes. -/
inductive Takes (kind : ResolverKind σ) (scope : Option Value) (name : String) (v : Value) : Prop where
  | scope (scope : scope = some v)
  | item {u : Value} (scope : scope = some u) (found : u.item? name = some v)
  | entry {u : Value} (scope : scope = some u) (found : u.get? name = some v)
  | member {u : Value} (scope : scope = some u) (found : u.member? name = some v)
  | outside {data : List (String × Value)} (global : kind = .globals data)
      (found : data.lookup name = some v)

theorem takes_of_tells (builtIn : r.isBuiltIn = true) {v : Value}
    (said : r.tells rules scope name = .ok (some v)) : Takes r.kind scope name v := by
  obtain ⟨priority, kind⟩ := r
  cases kind with
  | this =>
    have said := Except.ok.inj said
    split at said
    · exact .scope said
    · cases said
  | listIndex =>
    obtain ⟨u, rfl, found⟩ := Option.bind_eq_some_iff.mp (Except.ok.inj said)
    exact .item rfl found
  | map =>
    obtain ⟨u, rfl, found⟩ := Option.bind_eq_some_iff.mp (Except.ok.inj said)
    exact .entry rfl found
  | members shelf =>
    obtain ⟨o, rfl, _, found⟩ := tells_members said
    exact .member rfl found
  | globals data =>
    have said := Except.ok.inj said
    split at said
    · cases said
    · exact .outside rfl said
  | custom c => cases builtIn

theorem conforms_of_tells (builtIn : r.isBuiltIn = true)
    (outside : ∀ data, r.kind = .globals data → ∀ entry ∈ data, entry.2.Conforms rules.names)
    (fit : Value.Fit rules.names scope) {v : Value} (said : r.tells rules scope name = .ok (some v)) :
    v.Conforms rules.names := by
  cases takes_of_tells builtIn said with
  | scope same => exact fit v same
  | item same found => exact Value.conforms_of_item (fit _ same) found
  | entry same found => exact Value.conforms_of_get (fit _ same) found
  | member same found => exact Value.conforms_of_member (fit _ same) found
  | outside global found =>
    obtain ⟨l₁, l₂, split, _⟩ := List.lookup_eq_some_iff.mp found
    exact outside _ global (name, v) (by rw [split]; simp)

/-- A member that an object has stands where the hint says. -/
theorem gives_hint (builtIn : r.isBuiltIn = true) (fit : Value.Fit rules.names scope) {v : Value}
    (said : r.tells rules scope name = .ok (some v)) :
    ∃ hint, r.hint scope name = pure hint ∧ ∀ h, hint = some h → Gives rules.names name r.kind h := by
  obtain ⟨priority, kind⟩ := r
  cases kind with
  | this =>
    have this : namesThis name = true := by
      have said := Except.ok.inj said
      split at said
      · assumption
      · cases said
    refine ⟨_, rfl, ?_⟩
    rintro _ ⟨⟩
    rw [if_pos this]
    exact .this this
  | listIndex => exact ⟨none, rfl, nofun⟩
  | map =>
    refine ⟨_, rfl, ?_⟩
    rintro _ ⟨⟩
    exact .entry
  | members shelf =>
    obtain ⟨o, rfl, _, found⟩ := tells_members said
    cases fit _ rfl with
    | object listed _ =>
      obtain ⟨index, position, _⟩ := Option.bind_eq_some_iff.mp found
      refine ⟨_, rfl, ?_⟩
      rintro _ ⟨⟩
      simp only [position]
      refine .member ?_
      rw [← listed, ← o.indexOf?_eq]
      exact position
  | globals data =>
    refine ⟨_, rfl, ?_⟩
    rintro _ ⟨⟩
    exact .inapplicable
  | custom c => cases builtIn

end Resolver

namespace Lookup

def builtIns (shelf : Option Nat) (globals : List (String × Value)) : List (Resolver σ) :=
  [.this 10, .listIndex 20, .map 30, ⟨40, .members shelf⟩] ++
    if globals.isEmpty then [] else [.globals 100 globals]

variable {shelf : Option Nat} {globals : List (String × Value)} {name : String}

theorem builtIns_ascending (shelf : Option Nat) (globals : List (String × Value)) :
    (builtIns shelf globals : List (Resolver σ)).Pairwise fun q r => q.priority < r.priority := by
  unfold builtIns
  split <;> simp [Resolver.this, Resolver.listIndex, Resolver.map, Resolver.globals]

theorem builtIns_cases {P : Resolver σ → Prop} (this : P (.this 10)) (listIndex : P (.listIndex 20))
    (map : P (.map 30)) (members : P ⟨40, .members shelf⟩) (outside : P (.globals 100 globals))
    {r : Resolver σ} (member : r ∈ builtIns shelf globals) : P r := by
  rcases List.mem_append.mp member with member | member
  · simp only [List.mem_cons, List.not_mem_nil, or_false] at member
    rcases member with rfl | rfl | rfl | rfl <;> assumption
  · split at member
    · cases member
    · obtain rfl := List.mem_singleton.mp member
      exact outside

theorem le_priority_of_mem {r : Resolver σ} (member : r ∈ builtIns shelf globals) : 10 ≤ r.priority := by
  refine builtIns_cases (P := fun r => 10 ≤ r.priority) ?_ ?_ ?_ ?_ ?_ member <;>
    exact of_decide_eq_true rfl

theorem isBuiltIn_of_mem {r : Resolver σ} (member : r ∈ builtIns shelf globals) :
    r.isBuiltIn = true :=
  builtIns_cases (P := fun r => r.isBuiltIn = true) rfl rfl rfl rfl rfl member

theorem globals_of_mem {r : Resolver σ} (member : r ∈ builtIns shelf globals)
    {data : List (String × Value)} (global : r.kind = .globals data) : data = globals := by
  revert data
  refine builtIns_cases (P := fun r => ∀ {data}, r.kind = .globals data → data = globals)
    nofun nofun nofun nofun ?_ member
  rintro _ ⟨⟩
  rfl

theorem tells_own (own : rules.mixes shelf = false) (scope : Value) :
    Resolver.tells rules ⟨40, .members shelf⟩ (some scope) name = .ok (scope.member? name) := by
  cases scope with
  | object o =>
    simp only [Resolver.tells, own]
    rfl
  | _ => rfl

theorem saidFirst_builtIns (own : rules.mixes shelf = false) (scope : Value) :
    saidFirst rules (some scope) name (builtIns shelf globals) = .ok (scope.bound? name) := by
  have outside : saidFirst rules (some scope) name
      (if globals.isEmpty then [] else [.globals 100 globals]) = .ok none := by
    split <;> rfl
  simp only [builtIns, List.cons_append, List.nil_append, saidFirst, tells_own own, outside]
  simp only [Resolver.tells, Resolver.this, Resolver.listIndex, Resolver.map, Option.bind_some,
    Value.bound?]
  by_cases this : Resolver.namesThis name = true
  · simp only [this, if_true]
  · simp only [this]
    cases scope.item? name with
    | some _ => rfl
    | none =>
      cases scope.get? name with
      | some _ => rfl
      | none => cases scope.member? name <;> rfl

theorem saidFirst_builtIns_outside :
    saidFirst rules none name (builtIns shelf globals) = .ok (globals.lookup name) := by
  simp only [builtIns, List.cons_append, List.nil_append, saidFirst, Resolver.tells, Resolver.this,
    Resolver.listIndex, Resolver.map, Option.bind_none, ite_self]
  split
  · next empty =>
    rw [List.isEmpty_iff.mp empty]
    rfl
  · simp only [saidFirst, Resolver.tells, Resolver.globals]
    cases globals.lookup name <;> rfl

theorem said_builtIns (own : rules.mixes shelf = false) (scopes : List Value) (parts : List String) :
    said rules (builtIns shelf globals) scopes parts = .ok (Value.ofKey? globals scopes parts) := by
  have within (name : String) : saidIn rules (builtIns shelf globals) name scopes =
      .ok (Value.visible? globals scopes name) := by
    unfold Value.visible?
    induction scopes with
    | nil => exact saidFirst_builtIns_outside
    | cons scope rest ih =>
      rw [saidIn, saidFirst_builtIns own, List.findSome?_cons]
      cases scope.bound? name with
      | none => exact ih
      | some _ => rfl
  have below (parts : List String) (v : Value) :
      saidBelow rules (builtIns shelf globals) parts v = .ok (v.path? parts) := by
    induction parts generalizing v with
    | nil => rfl
    | cons name rest ih =>
      rw [saidBelow, saidFirst_builtIns own, Value.path?]
      cases v.bound? name with
      | none => rfl
      | some next => exact ih next
  cases parts with
  | nil => rfl
  | cons name rest =>
    rw [said, within, Value.ofKey?_cons]
    cases Value.visible? globals scopes name with
    | none => rfl
    | some v => exact below rest v

/-- A scope is left to the other resolvers for none but other names. -/
theorem other_of_wins {scope v : Value} {r : Resolver σ}
    (wins : Wins rules (builtIns shelf globals) (some scope) name r v) (other : r.kind ≠ .this) :
    Resolver.namesThis name = false := by
  obtain ⟨before, after, split, passed, _⟩ := wins
  cases before with
  | nil =>
    obtain rfl : .this 10 = r := (List.cons.inj split).1
    exact absurd rfl other
  | cons q before =>
    obtain rfl : .this 10 = q := (List.cons.inj split).1
    have passed := Except.ok.inj (passed (.this 10) List.mem_cons_self)
    split at passed
    · cases passed
    · next unnamed => exact Bool.eq_false_iff.mpr unnamed

theorem builtIns_lawful (shelf : Option Nat)
    (outside : ∀ entry ∈ globals, entry.2.Conforms names) :
    Lawful (names : Rules σ) (builtIns shelf globals) where
  settled member fit name := Resolver.settles_tells (isBuiltIn_of_mem member) fit
  fit member fit said := by
    refine Resolver.conforms_of_tells (isBuiltIn_of_mem member) (fun data global => ?_) fit said
    rw [globals_of_mem member global]
    exact outside
  offers {scope name r v} fit wins := by
    have knows := wins.knows
    have builtIn : r.isBuiltIn = true := isBuiltIn_of_mem wins.member
    obtain ⟨hint, given, gives⟩ := Resolver.gives_hint builtIn fit knows
    rw [given]
    refine settles_pure ⟨hint, rfl, fun h same => ?_⟩
    have gives := gives h same
    obtain ⟨priority, kind⟩ := r
    cases gives with
    | this this => exact this
    | entry =>
      obtain ⟨u, rfl, _⟩ := Option.bind_eq_some_iff.mp (Except.ok.inj knows)
      exact other_of_wins wins nofun
    | member position =>
      obtain ⟨o, rfl, _⟩ := Resolver.tells_members knows
      exact ⟨other_of_wins wins nofun, position⟩
    | inapplicable => trivial
  plain right scope := Hint.resolve_eq right scope
  yields {name h scope v} right fit yield := by
    cases scope with
    | none => cases h <;> cases yield
    | some scope => rw [saidFirst_builtIns (Rules.mixes_own names shelf), right.bound (fit scope rfl) yield]

end Lookup

/-- With the built-in resolvers, a lookup does not fail and takes no leases. Its value is what the
key is bound to, whatever the store remembers. -/
theorem Engine.find_builtIn {e : Engine σ} {shelf : Option Nat} {globals : List (String × Value)}
    (builtIn : e.resolvers = Lookup.builtIns shelf globals) {scopes : List Value}
    {parts : List String} {slot : Option (Option (Hint σ))}
    (right : ∀ h, slot.join = some h → ∀ name, parts = [name] → h.Right names name)
    (conforms : ∀ scope ∈ scopes, scope.Conforms names)
    (outside : ∀ entry ∈ globals, entry.2.Conforms names) {store : Store σ}
    (indexed : store.Indexed names) :
    ∃ hint store', e.find scopes parts slot store =
        (.ok ⟨Value.ofKey? globals scopes parts, hint, []⟩, store') ∧
      (∀ h, hint = some h → ∃ name, parts = [name] ∧ h.Right names name) ∧
      store.Undisturbed store' ∧ store'.Indexed names := by
  have lawful : Lookup.Lawful (names : Rules σ) e.resolvers :=
    builtIn ▸ Lookup.builtIns_lawful shelf outside
  have discovers := find_lawful lawful right conforms indexed
  rw [builtIn, Lookup.said_builtIns (Rules.mixes_own names shelf)] at discovers
  rcases ran : e.find scopes parts slot store with ⟨r, store'⟩
  rw [ran] at discovers
  cases discovers with
  | found right same indexed => exact ⟨_, store', rfl, right, same, indexed⟩

end Logicless
