import Logicless.Proofs.Chain
import Logicless.Proofs.Settling

/-!
# Resolvers of the host program beside the built-in ones

A hint of a built-in resolver is tried before a resolver of the host program is asked that has no hints
to give. It does not matter, if the latter has nothing else to say wherever such a hint yields a value
(`Lookup.Company.lawful`).
-/

namespace Logicless

variable {σ : Type}

/-- The resolver goes by scope and name alone. It takes no leases and offers no hints. -/
structure CustomResolver.Steady (names : String → List String) (c : CustomResolver σ) : Prop where
  resolves : ∀ scope name host host',
    (c.resolve scope name host').result = (c.resolve scope name host).result
  leaseless : ∀ scope name host, (c.resolve scope name host).leases = []
  unhinted : ∀ scope name host,
    (c.hint scope name host).result = none ∧ (c.hint scope name host).leases = []
  conforms : ∀ {scope name host v}, Value.Fit names scope →
    (c.resolve scope name host).result = .ok (some v) → v.Conforms names

/-- What a resolver answers when it is asked in the store as it is. -/
def Resolver.answer (store : Store σ) (r : Resolver σ) (scope : Option Value) (name : String) :
    Except Error (Option Value) :=
  (r.resolve scope name ⟨store, []⟩).1

/-- Where those before it have passed, the resolver wins the name in the scope `u`, and the hint that it
gives there yields the value `v` for the scope `u'`. -/
structure Lookup.Serves (store : Store σ) (before : List (Resolver σ)) (r : Resolver σ) (name : String)
    (u u' v : Value) : Prop where
  passed : ∀ q ∈ before, q.answer store (some u) name = .ok none
  knows : ∃ known, r.answer store (some u) name = .ok (some known)
  yields : ∃ h, (r.hint (some u) name ⟨store, []⟩).1 = .ok (some h) ∧
    (h.resolve (some u') name ⟨store, []⟩).1 = .ok (some v)

/-- Where a hint that was given in one scope yields a value for another, a resolver of the host program
that is asked there before the one with the hint passes, or answers the same. -/
def Lookup.Even (names : String → List String) (store : Store σ) (resolvers : List (Resolver σ)) : Prop :=
  ∀ {earlier q between r later}, resolvers = earlier ++ q :: (between ++ r :: later) →
    ∀ {c}, q.kind = .custom c → ∀ {name u u' v}, u.Conforms names → u'.Conforms names →
      Serves store (earlier ++ q :: between) r name u u' v →
      (∀ q' ∈ earlier, q'.answer store (some u') name = .ok none) →
      q.answer store (some u') name = .ok none ∨ q.answer store (some u') name = .ok (some v)

structure Hint.Follows (rules : Rules σ) (resolvers : List (Resolver σ)) (name : String) (h : Hint σ) :
    Prop where
  plain : ∀ scope, h.resolve scope name = pure (h.yield? name scope)
  wins : ∀ {scope v}, Value.Fit rules.names scope → h.yield? name scope = some v →
    ∃ r, Lookup.Wins rules resolvers scope name r v

variable {rules : Rules σ} {scope scope' : Option Value} {name : String} {v v' : Value}

/-! ### Built-in resolvers -/

namespace Resolver

theorem exists_custom {r : Resolver σ} (custom : r.isBuiltIn = false) : ∃ c, r.kind = .custom c := by
  obtain ⟨priority, kind⟩ := r
  cases kind with
  | custom c => exact ⟨c, rfl⟩
  | _ => cases custom

theorem tells_custom {r : Resolver σ} {c : CustomResolver σ} (custom : r.kind = .custom c) :
    r.tells rules scope name = rules.answer c scope name := by
  simp only [tells, custom]

/-- If the hint that a resolver has given in one scope yields a value for another, the resolver knows the
name there as well. -/
theorem tells_of_yields {r : Resolver σ} {h : Hint σ} (gives : Gives rules.names name r.kind h)
    (tells : r.tells rules scope name = .ok (some v)) (fit : Value.Fit rules.names scope')
    (yields : h.yield? name scope' = some v') :
    ∃ u u', scope = some u ∧ scope' = some u' ∧ r.tells rules scope' name = .ok (some v') := by
  obtain ⟨priority, kind⟩ := r
  cases gives with
  | this this =>
    have known : (if namesThis name then scope else none) = some v := Except.ok.inj tells
    rw [if_pos this] at known
    refine ⟨v, v', known, yields, ?_⟩
    show Except.ok (if namesThis name then scope' else none) = _
    rw [if_pos this]
    exact congrArg Except.ok yields
  | entry =>
    obtain ⟨u, rfl, _⟩ := Option.bind_eq_some_iff.mp (Except.ok.inj tells)
    obtain ⟨u', rfl, _⟩ := Option.bind_eq_some_iff.mp yields
    exact ⟨u, u', rfl, rfl, congrArg Except.ok yields⟩
  | @member shelf typeName index position =>
    obtain ⟨o, rfl, own, _⟩ := tells_members tells
    simp only [Hint.yield?] at yields
    split at yields
    · next o' =>
      split at yields
      · next same =>
        cases fit _ rfl with
        | object listed _ =>
          have found : (Value.object o').member? name = some v' := by
            have at_index : o'.indexOf? name = some index := by
              rw [o'.indexOf?_eq, listed, same, position]
            show (o'.indexOf? name).bind o'.valueAt? = some v'
            rw [at_index]
            exact yields
          refine ⟨_, _, rfl, rfl, ?_⟩
          simp only [Resolver.tells, own, Bool.false_eq_true, if_false, found]
      · cases yields
    · cases yields
  | inapplicable => cases yields

end Resolver

namespace Lookup

variable {shelf : Option Nat} {globals : List (String × Value)} {resolvers : List (Resolver σ)}

theorem this_passes {u u' : Value} (passed : (Resolver.this 10).tells rules (some u) name = .ok none) :
    (Resolver.this 10).tells rules (some u') name = .ok none := by
  have passed : (if Resolver.namesThis name then some u else none) = none := Except.ok.inj passed
  have other : ¬ Resolver.namesThis name = true := fun this => by
    rw [if_pos this] at passed
    cases passed
  show Except.ok (if Resolver.namesThis name then some u' else none) = _
  rw [if_neg other]

/-- A built-in resolver that has passed in a scope in which a later one has given a hint, passes as well
where the hint yields a value. -/
theorem builtIn_passes {q r : Resolver σ} (asked : q ∈ builtIns shelf globals)
    (later : r ∈ builtIns shelf globals) (before : q.priority < r.priority) {u u' : Value} {h : Hint σ}
    (gives : Resolver.Gives rules.names name r.kind h) (yields : h.yield? name (some u') = some v')
    (passed : q.tells rules (some u) name = .ok none) : q.tells rules (some u') name = .ok none := by
  revert before gives
  refine builtIns_cases (P := fun r => q.priority < r.priority → Resolver.Gives rules.names name r.kind h →
    q.tells rules (some u') name = .ok none) ?_ nofun ?_ ?_ ?_ later
  · intro before _
    exact absurd before (Int.not_lt.mpr (le_priority_of_mem asked))
  · -- Before the resolver of maps, only that of lists is asked about other names than the scope's own.
    intro before gives
    cases gives
    revert before passed
    cases u' with
    | map entries =>
      exact builtIns_cases (P := fun q => q.tells rules (some u) name = .ok none → q.priority < 30 →
        q.tells rules (some (.map entries)) name = .ok none) (fun passed _ => this_passes passed)
        (fun _ _ => rfl) nofun nofun nofun asked
    | _ => cases yields
  · intro before gives
    cases gives
    revert before passed
    cases u' with
    | object o =>
      exact builtIns_cases (P := fun q => q.tells rules (some u) name = .ok none → q.priority < 40 →
        q.tells rules (some (.object o)) name = .ok none) (fun passed _ => this_passes passed)
        (fun _ _ => rfl) (fun _ _ => rfl) nofun nofun asked
    | _ => cases yields
  · intro _ gives
    cases gives
    cases yields

/-! ### Even resolvers -/

/-- The built-in resolvers are there, and steady ones that are even. Hints are right that follow them. -/
structure Company (rules : Rules σ) (start : Store σ) (resolvers : List (Resolver σ)) : Prop where
  builtIns : ∃ shelf globals, resolvers.filter (·.isBuiltIn) = Lookup.builtIns shelf globals ∧
    ∀ entry ∈ globals, entry.2.Conforms rules.names
  steady : ∀ {r c}, r ∈ resolvers → r.kind = .custom c → c.Steady rules.names
  answer : rules.answer = fun c scope name => (c.resolve scope name start.host).result
  indexed : start.Indexed rules
  even : Even rules.names start resolvers
  right : ∀ {name h}, rules.right name h ↔ h.Follows rules resolvers name

namespace Company

variable {start : Store σ} {r : Resolver σ} (company : Company rules start resolvers)

include company

theorem among : ∃ shelf globals,
    (∀ {q : Resolver σ}, q ∈ resolvers → q.isBuiltIn = true → q ∈ Lookup.builtIns shelf globals) ∧
      (resolvers.filter (·.isBuiltIn)).Pairwise (·.priority < ·.priority) ∧
        ∀ entry ∈ globals, entry.2.Conforms rules.names := by
  obtain ⟨shelf, globals, builtIns, outside⟩ := company.builtIns
  rw [builtIns]
  refine ⟨shelf, globals, fun member builtIn => ?_, builtIns_ascending shelf globals, outside⟩
  rw [← builtIns]
  exact List.mem_filter.mpr ⟨member, builtIn⟩

theorem tells_asked {c : CustomResolver σ} (custom : r.kind = .custom c) (scope : Option Value)
    (name : String) : r.tells rules scope name = (c.resolve scope name start.host).result := by
  rw [Resolver.tells_custom custom, company.answer]

/-- A steady resolver answers by the rules, and leaves everything as it is but the host. -/
theorem settles_custom {c : CustomResolver σ} (member : r ∈ resolvers) (custom : r.kind = .custom c)
    (scope : Option Value) (name : String) :
    Settles rules (· = r.tells rules scope name) (r.resolve scope name) := by
  intro s indexed
  have steady := company.steady member custom
  have asked : r.resolve scope name s = ((c.resolve scope name s.store.host).result,
      ⟨{ s.store with host := (c.resolve scope name s.store.host).host }, s.leases⟩) := by
    simp only [Resolver.resolve, custom, askFallible, ask, Attempt.bind_apply,
      steady.leaseless scope name s.store.host, Store.lendAll]
    rfl
  refine ⟨_, _, asked, ?_, ⟨rfl, rfl, rfl, rfl, rfl, rfl, rfl, rfl⟩, indexed.of_eq rfl⟩
  rw [company.tells_asked custom]
  exact steady.resolves scope name start.host s.store.host

theorem settled (member : r ∈ resolvers) (fit : Value.Fit rules.names scope) (name : String) :
    Settles rules (· = r.tells rules scope name) (r.resolve scope name) := by
  cases kind : r.isBuiltIn with
  | true => exact Resolver.settles_tells kind fit
  | false =>
    obtain ⟨c, custom⟩ := Resolver.exists_custom kind
    exact company.settles_custom member custom scope name

/-- The resolvers have told the same from the start. -/
theorem answer_eq (member : r ∈ resolvers) (fit : Value.Fit rules.names scope) (name : String) :
    r.answer start scope name = r.tells rules scope name := by
  obtain ⟨_, _, ran, told, _⟩ := company.settled member fit name ⟨start, []⟩ company.indexed
  rw [Resolver.answer, ran]
  exact told

/-- Where the hint of a winner yields a value, a resolver that was asked before it passes or says the
same. -/
theorem tells_again {earlier between later : List (Resolver σ)} {q : Resolver σ}
    (split : resolvers = earlier ++ q :: (between ++ r :: later)) (builtIn : r.isBuiltIn = true) {u u' : Value}
    (conforms : u.Conforms rules.names) (conforms' : u'.Conforms rules.names) {h : Hint σ}
    (gives : Resolver.Gives rules.names name r.kind h) (yields : h.yield? name (some u') = some v')
    (serves : Serves start (earlier ++ q :: between) r name u u' v')
    (passed : ∀ q' ∈ earlier, q'.tells rules (some u') name = .ok none) :
    q.tells rules (some u') name = .ok none ∨ q.tells rules (some u') name = .ok (some v') := by
  have among {q' : Resolver σ} (member : q' ∈ earlier ++ q :: (between ++ r :: later)) : q' ∈ resolvers :=
    split ▸ member
  have asked : q ∈ resolvers := among (by simp)
  cases kind : q.isBuiltIn with
  | true =>
    obtain ⟨shelf, globals, builtIns, ascending, _⟩ := company.among
    rw [split, List.filter_append, List.filter_cons_of_pos kind, List.filter_append,
      List.filter_cons_of_pos builtIn] at ascending
    have sooner : q.priority < r.priority :=
      (List.pairwise_cons.mp (List.pairwise_append.mp ascending).2.1).1 r (by simp)
    have before := serves.passed q (by simp)
    rw [company.answer_eq asked (fit_some conforms)] at before
    exact Or.inl (builtIn_passes (builtIns asked kind) (builtIns (among (by simp)) builtIn) sooner gives yields
      before)
  | false =>
    obtain ⟨c, custom⟩ := Resolver.exists_custom kind
    have even := company.even split custom conforms conforms' serves fun q' member => by
      rw [company.answer_eq (among (List.mem_append_left _ member)) (fit_some conforms')]
      exact passed q' member
    rwa [company.answer_eq asked (fit_some conforms')] at even

/-- A hint of the winner follows: where it yields a value, the resolvers say the same. -/
theorem follows (fit : Value.Fit rules.names scope) (wins : Wins rules resolvers scope name r v)
    (builtIn : r.isBuiltIn = true) {h : Hint σ} (given : r.hint scope name = pure (some h))
    (gives : Resolver.Gives rules.names name r.kind h) : h.Follows rules resolvers name := by
  have plain (scope : Option Value) : h.resolve scope name = pure (h.yield? name scope) := by
    generalize r.kind = kind at gives
    cases gives <;> rfl
  refine ⟨plain, fun {scope' v'} fit' yields => ?_⟩
  obtain ⟨before, after, split, passed, knows⟩ := wins
  obtain ⟨u, u', rfl, rfl, again⟩ := Resolver.tells_of_yields gives knows fit' yields
  have asked {q : Resolver σ} (member : q ∈ before ++ r :: after) : q ∈ resolvers := split ▸ member
  have serves : Serves start before r name u u' v' := by
    refine ⟨fun q member => ?_, ⟨v, ?_⟩, h, by rw [given]; rfl, by rw [plain, yields]; rfl⟩
    · rw [company.answer_eq (asked (List.mem_append_left _ member)) fit]
      exact passed q member
    · rw [company.answer_eq (asked (by simp)) fit]
      exact knows
  -- Of those before the winner, each passes as well, or the first that does not says the same.
  have scan (rest earlier : List (Resolver σ)) (all : before = earlier ++ rest)
      (quiet : ∀ q ∈ earlier, q.tells rules (some u') name = .ok none) :
      saidFirst rules (some u') name (rest ++ r :: after) = .ok (some v') := by
    induction rest generalizing earlier with
    | nil => rw [List.nil_append, saidFirst, again]
    | cons q rest ih =>
      rw [all] at serves split
      rw [List.append_assoc, List.cons_append] at split
      rw [List.cons_append, saidFirst]
      rcases company.tells_again split builtIn (fit u rfl) (fit' u' rfl) gives yields serves quiet with
        passes | answers
      · rw [passes]
        refine ih (earlier ++ [q]) (by rw [all, List.append_assoc, List.singleton_append]) fun q' member => ?_
        rcases List.mem_append.mp member with member | member
        · exact quiet q' member
        · obtain rfl := List.mem_singleton.mp member
          exact passes
      · rw [answers]
  rw [← saidFirst_some_iff, split]
  exact scan before [] rfl (List.forall_mem_nil _)

theorem hint_custom {c : CustomResolver σ} (member : r ∈ resolvers) (custom : r.kind = .custom c)
    (scope : Option Value) (name : String) (s : Lookup.State σ) :
    ∃ host, r.hint scope name s = (.ok none, ⟨{ s.store with host }, s.leases⟩) := by
  obtain ⟨none, leaseless⟩ := (company.steady member custom).unhinted scope name s.store.host
  refine ⟨(c.hint scope name s.store.host).host, ?_⟩
  simp only [Resolver.hint, custom, ask, none, leaseless, Store.lendAll]

/-- With steady resolvers that are even, too, whatever is remembered does not matter. -/
theorem lawful : Lawful rules resolvers where
  settled := company.settled
  fit {r scope name v} member fit said := by
    cases kind : r.isBuiltIn with
    | true =>
      obtain ⟨shelf, globals, among, _, outside⟩ := company.among
      refine Resolver.conforms_of_tells kind (fun data global => ?_) fit said
      rw [globals_of_mem (among member kind) global]
      exact outside
    | false =>
      obtain ⟨c, custom⟩ := Resolver.exists_custom kind
      rw [company.tells_asked custom] at said
      exact (company.steady member custom).conforms fit said
  offers {scope name r v} fit wins := by
    cases kind : r.isBuiltIn with
    | true =>
      obtain ⟨hint, given, gives⟩ := Resolver.gives_hint kind fit wins.knows
      rw [given]
      refine settles_pure ⟨hint, rfl, fun h same => ?_⟩
      exact company.right.mpr (company.follows fit wins kind (same ▸ given) (gives h same))
    | false =>
      obtain ⟨c, custom⟩ := Resolver.exists_custom kind
      intro s indexed
      obtain ⟨host, given⟩ := company.hint_custom wins.member custom scope name s
      exact ⟨_, _, given, ⟨none, rfl, nofun⟩, ⟨rfl, rfl, rfl, rfl, rfl, rfl, rfl, rfl⟩, indexed.of_eq rfl⟩
  plain right := (company.right.mp right).plain
  yields right fit yields := saidFirst_some_iff.mpr ((company.right.mp right).wins fit yields)

end Company

/-! ### Who wins -/

/-- Who wins the name in the scopes by the rules, whatever is remembered. -/
inductive WinsIn (rules : Rules σ) (resolvers : List (Resolver σ)) (name : String) :
    List Value → Option Value → Resolver σ → Value → Prop where
  | outside {r : Resolver σ} {v : Value} (wins : Wins rules resolvers none name r v) :
      WinsIn rules resolvers name [] none r v
  | here {scope : Value} {rest : List Value} {r : Resolver σ} {v : Value}
      (wins : Wins rules resolvers (some scope) name r v) :
      WinsIn rules resolvers name (scope :: rest) (some scope) r v
  | outer {scope : Value} {rest : List Value} {scope' : Option Value} {r : Resolver σ} {v : Value}
      (passed : ∀ q ∈ resolvers, q.tells rules (some scope) name = .ok none)
      (wins : WinsIn rules resolvers name rest scope' r v) :
      WinsIn rules resolvers name (scope :: rest) scope' r v

theorem WinsIn.member {scopes : List Value} {r : Resolver σ}
    (wins : WinsIn rules resolvers name scopes scope r v) : r ∈ resolvers := by
  induction wins with
  | outside wins => exact wins.member
  | here wins => exact wins.member
  | outer _ _ ih => exact ih

theorem Wins.unique {r r' : Resolver σ} (wins : Wins rules resolvers scope name r v)
    (wins' : Wins rules resolvers scope name r' v') : v' = v := by
  have said := saidFirst_some_iff.mpr ⟨r, wins⟩
  have said' := saidFirst_some_iff.mpr ⟨r', wins'⟩
  exact Option.some.inj (Except.ok.inj (said'.symm.trans said))

/-- Who wins in the innermost scope wins with the same value. -/
theorem WinsIn.unique {r r' : Resolver σ} {scopes : List Value}
    (wins : WinsIn rules resolvers name scopes scope r v)
    (wins' : Wins rules resolvers scopes.head? name r' v') : v' = v := by
  cases wins with
  | outside wins => exact wins.unique wins'
  | here wins => exact wins.unique wins'
  | outer passed _ => cases (passed r' wins'.member).symm.trans wins'.knows

namespace Lawful

variable {s t : Lookup.State σ} {r : Resolver σ} {scopes : List Value}
  (lawful : Lawful rules resolvers)

include lawful

end Lawful

namespace Company

variable {start : Store σ} {s : Lookup.State σ} {r : Resolver σ} {scopes : List Value}
  (company : Company rules start resolvers)

include company

end Company

end Lookup

end Logicless
