import Logicless.Engine.Build
import Logicless.Proofs.Lookup

/-!
# What names are bound to

What the built-in resolvers make of a key: it depends on the scopes and on the data outside of them.
Positions of members and hints that are right do not change it (`Resolver.memberIndex_indexed`,
`Hint.Right.bound`).
-/

namespace Logicless

/-! ### Values -/

/-- In the value, the members of an object are those that `names` lists for its type. -/
inductive Value.Conforms (names : String → List String) : Value → Prop where
  | null : Conforms names .null
  | bool (b : Bool) : Conforms names (.bool b)
  | int (n : Int64) : Conforms names (.int n)
  | float (x : Float) : Conforms names (.float x)
  | string (s : String) : Conforms names (.string s)
  | lambda (l : Lambda) : Conforms names (.lambda l)
  | list {items : List Value} (h : ∀ item ∈ items, Conforms names item) : Conforms names (.list items)
  | map {entries : List (String × Value)} (h : ∀ entry ∈ entries, Conforms names entry.2) :
      Conforms names (.map entries)
  | object {o : HostObject Value} (listed : o.members.map (·.1) = names o.typeName)
      (h : ∀ member ∈ o.members, ∀ v, member.2 = some v → Conforms names v) :
      Conforms names (.object o)

def position? (names : List String) (name : String) : Option Nat :=
  names.findIdx? (· == name)

theorem HostObject.indexOf?_eq {V : Type} (o : HostObject V) (name : String) :
    o.indexOf? name = position? (o.members.map (·.1)) name := by
  rw [position?, List.findIdx?_map]
  rfl

namespace Value

def member? (name : String) : Value → Option Value
  | .object o => (o.indexOf? name).bind o.valueAt?
  | _ => none

def bound? (name : String) (scope : Value) : Option Value :=
  if Resolver.namesThis name then some scope
  else (scope.item? name).or ((scope.get? name).or (scope.member? name))

/-- What the innermost scope that binds the name binds it to, or else the data outside of them. -/
def visible? (globals : List (String × Value)) (scopes : List Value) (name : String) : Option Value :=
  (scopes.findSome? (bound? name)).or (globals.lookup name)

def path? : List String → Value → Option Value
  | [], v => some v
  | name :: rest, v => (v.bound? name).bind (path? rest)

def ofKey? (globals : List (String × Value)) (scopes : List Value) : List String → Option Value
  | [] => none
  | name :: rest => (visible? globals scopes name).bind (path? rest)

theorem ofKey?_cons (globals : List (String × Value)) (scopes : List Value) (name : String)
    (rest : List String) : ofKey? globals scopes (name :: rest) =
      (visible? globals scopes name).bind (path? rest) := rfl

variable {names : String → List String} {v u : Value} {name : String}

theorem conforms_of_item (h : v.Conforms names) (found : v.item? name = some u) : u.Conforms names := by
  cases h with
  | list h =>
    obtain ⟨i, _, found⟩ := Option.bind_eq_some_iff.mp found
    exact h u (List.mem_of_getElem? found)
  | _ => cases found

theorem conforms_of_get (h : v.Conforms names) (found : v.get? name = some u) : u.Conforms names := by
  cases h with
  | map h =>
    obtain ⟨l₁, l₂, split, _⟩ := List.lookup_eq_some_iff.mp found
    exact h (name, u) (by rw [split]; simp)
  | _ => cases found

theorem conforms_of_member (h : v.Conforms names) (found : v.member? name = some u) :
    u.Conforms names := by
  cases h with
  | object _ h =>
    obtain ⟨i, _, found⟩ := Option.bind_eq_some_iff.mp found
    obtain ⟨member, at_i, found⟩ := Option.bind_eq_some_iff.mp found
    exact h member (List.mem_of_getElem? at_i) u found
  | _ => cases found

end Value

variable {σ α β : Type} {names : String → List String}

/-! ### Hints -/

/-- For the name, the hint gives nothing but what the innermost scope binds the name to. -/
def Hint.Right (names : String → List String) (name : String) : Hint σ → Prop
  | .this => Resolver.namesThis name = true
  | .entry => Resolver.namesThis name = false
  | .member typeName index =>
    Resolver.namesThis name = false ∧ position? (names typeName) name = some index
  | .inapplicable => True
  | .custom _ => False

/-- What a hint yields for a scope, without asking code of the host program. -/
def Hint.yield? (name : String) (scope : Option Value) : Hint σ → Option Value
  | .this => scope
  | .entry => scope.bind (·.get? name)
  | .member typeName index =>
    match scope with
    | some (.object o) => if o.typeName = typeName then o.valueAt? index else none
    | _ => none
  | _ => none

theorem Hint.resolve_eq {h : Hint σ} {name : String} (right : h.Right names name)
    (scope : Option Value) : h.resolve scope name = pure (h.yield? name scope) := by
  cases h with
  | custom h => cases right
  | _ => rfl

/-- A right hint is right in any scope. -/
theorem Hint.Right.bound {h : Hint σ} {name : String} (right : h.Right names name) {scope v : Value}
    (conforms : scope.Conforms names) (found : h.yield? name (some scope) = some v) :
    scope.bound? name = some v := by
  unfold Value.bound?
  cases h with
  | this =>
    have this : Resolver.namesThis name = true := right
    rw [if_pos this]
    exact found
  | entry =>
    have other : ¬ Resolver.namesThis name = true := Bool.eq_false_iff.mp right
    rw [if_neg other]
    cases scope with
    | map entries =>
      have got : (Value.map entries).get? name = some v := found
      rw [got]
      rfl
    | _ => cases found
  | member typeName index =>
    obtain ⟨this, position⟩ := right
    rw [if_neg (Bool.eq_false_iff.mp this)]
    cases conforms with
    | @object o listed _ =>
      simp only [yield?] at found
      split at found
      · next same =>
        have at_index : o.indexOf? name = some index := by
          rw [o.indexOf?_eq, listed, same]
          exact position
        show (o.indexOf? name).bind o.valueAt? = some v
        rw [at_index]
        exact found
      · cases found
    | _ => cases found
  | inapplicable => cases found
  | custom h => cases right

/-! ### Rules -/

structure Rules (σ : Type) where
  /-- The names of the members of each type. -/
  names : String → List String
  /-- The hints that are right for a name. -/
  right : String → Hint σ → Prop
  /-- The answers of resolvers of the host program. -/
  answer : CustomResolver σ → Option Value → String → Except Error (Option Value)
  /-- For each cache of positions of members, whether it holds values of another type. -/
  mixedMembers : List Bool
  /-- Whether the cache of templates does. -/
  mixedTemplates : Bool

/-- The rules for the built-in resolvers alone, with caches of their own. -/
instance : Coe (String → List String) (Rules σ) :=
  ⟨fun names => ⟨names, Hint.Right names, fun _ _ _ => .ok none, [false], false⟩⟩

namespace Rules

/-- The cache of positions is there, and it holds values of another type. -/
def mixes (rules : Rules σ) (shelf : Option Nat) : Bool :=
  (shelf.bind fun i => rules.mixedMembers[i]?).getD false

theorem mixes_own (names : String → List String) (shelf : Option Nat) :
    (names : Rules σ).mixes shelf = false := by
  match shelf with
  | none => rfl
  | some 0 => rfl
  | some (i + 1) => rfl

def Position (rules : Rules σ) (key : MemberKey) (i : Option Nat) : Prop :=
  i = position? (rules.names key.typeName) key.name

end Rules

/-! ### Positions of members -/

theorem Store.map_foreign_set {shelves : List (Shelf σ MemberKey (Option Nat))} {i : Nat}
    {shelf shelf' : Shelf σ MemberKey (Option Nat)} (at_i : shelves[i]? = some shelf)
    (same : shelf'.foreign = shelf.foreign) :
    (shelves.set i shelf').map (·.foreign) = shelves.map (·.foreign) := by
  obtain ⟨bound, rfl⟩ := List.getElem?_eq_some_iff.mp at_i
  rw [List.map_set, same]
  refine List.ext_getElem (by simp) fun j _ _ => ?_
  rw [List.getElem_set]
  split
  · next here =>
    subst here
    rw [List.getElem_map]
  · rfl

structure Store.Indexed (rules : Rules σ) (store : Store σ) : Prop where
  flags : store.members.map (·.foreign) = rules.mixedMembers
  kept : ∀ shelf ∈ store.members,
    shelf.Keeps shelf.foreign Resolver.membersConsumer rules.Position

variable {rules : Rules σ}

namespace Store.Indexed

variable {store : Store σ}

theorem of_eq {store' : Store σ} (h : store.Indexed rules) (members : store'.members = store.members) :
    store'.Indexed rules := by
  constructor <;> rw [members]
  · exact h.flags
  · exact h.kept

theorem putMembers (h : store.Indexed rules) {i : Nat} {shelf shelf' : Shelf σ MemberKey (Option Nat)}
    (at_i : store.members[i]? = some shelf) (same : shelf'.foreign = shelf.foreign)
    (kept : shelf'.Keeps shelf'.foreign Resolver.membersConsumer rules.Position) :
    (store.putMembers i shelf').Indexed rules := by
  refine ⟨(map_foreign_set at_i same).trans h.flags, fun other member => ?_⟩
  · rcases List.mem_or_eq_of_mem_set member with member | rfl
    · exact h.kept other member
    · exact kept

theorem mixes_of_none (h : store.Indexed rules) {shelf : Option Nat}
    (none : (shelf.bind fun i => store.members[i]?.map (i, ·)) = none) : rules.mixes shelf = false := by
  cases shelf with
  | none => rfl
  | some i =>
    have absent : store.members[i]? = .none := Option.map_eq_none_iff.mp none
    rw [Rules.mixes, ← h.flags, Option.bind_some, List.getElem?_map, absent]
    rfl

theorem mixes_of_some (h : store.Indexed rules) {shelf : Option Nat} {i : Nat}
    {positions : Shelf σ MemberKey (Option Nat)}
    (some : (shelf.bind fun i => store.members[i]?.map (i, ·)) = some (i, positions)) :
    store.members[i]? = .some positions ∧ rules.mixes shelf = positions.foreign := by
  obtain ⟨j, rfl, found⟩ := Option.bind_eq_some_iff.mp some
  obtain ⟨kept, at_j, same⟩ := Option.map_eq_some_iff.mp found
  cases same
  refine ⟨at_j, ?_⟩
  rw [Rules.mixes, ← h.flags, Option.bind_some, List.getElem?_map, at_j]
  rfl

end Store.Indexed

/-- Positions are right, whether they are remembered or not. They cannot be had if their cache holds
values of another type. -/
theorem Resolver.memberIndex_indexed {o : HostObject Value}
    (listed : o.members.map (·.1) = rules.names o.typeName) (shelf : Option Nat) (name : String)
    {store : Store σ} (indexed : store.Indexed rules) :
    ∃ store', memberIndex shelf o name store =
        (if rules.mixes shelf then .error (.cacheTypeMismatch membersConsumer)
          else .ok (o.indexOf? name), store') ∧
      store.Undisturbed store' ∧ store'.Indexed rules := by
  have position : o.indexOf? name = position? (rules.names o.typeName) name := by
    rw [o.indexOf?_eq, listed]
  cases shelved : shelf.bind fun i => store.members[i]?.map (i, ·) with
  | none =>
    rw [memberIndex_of_none shelved, indexed.mixes_of_none shelved]
    exact ⟨store, rfl, .refl _, indexed⟩
  | some positions =>
    obtain ⟨i, positions⟩ := positions
    obtain ⟨at_i, mixes⟩ := indexed.mixes_of_some shelved
    have elsewhere (host : σ) : ({ store with host } : Store σ).Indexed rules := ⟨indexed.flags, indexed.kept⟩
    have held := indexed.kept positions (List.mem_of_getElem? at_i)
    rw [memberIndex_of_some shelved, mixes]
    cases mixed : positions.foreign with
    | true =>
      rw [mixed] at held
      obtain ⟨shelf', host, ran, kept⟩ :=
        held.refuses (Store.putMembers i) (fun _ => pure (o.indexOf? name)) ⟨o.typeName, name⟩ store
      rw [ran]
      refine ⟨_, rfl, ⟨rfl, rfl, rfl, rfl, rfl, rfl, rfl, rfl⟩, ?_⟩
      exact (elsewhere host).putMembers at_i (kept.foreign.trans mixed.symm) (by rwa [kept.foreign])
    | false =>
      rw [mixed] at held
      have fetched := positions.fetched (Store.putMembers i) (fun _ => pure (o.indexOf? name))
        ⟨o.typeName, name⟩ store
      generalize Store.fetch positions (Store.putMembers i) (fun _ => pure (o.indexOf? name))
        ⟨o.typeName, name⟩ store = out at fetched ⊢
      -- Nothing but a right position goes to the shelf.
      have put {shelf' : Shelf σ MemberKey (Option Nat)} {host : σ}
          (kept : shelf'.Keeps false Resolver.membersConsumer rules.Position) :
          (Store.putMembers i shelf' { store with host }).Indexed rules :=
        (elsewhere host).putMembers at_i (kept.foreign.trans mixed.symm) (by rwa [kept.foreign])
      cases fetched with
      | answered r shelf' host answers updated =>
        have kept := held.updated updated fun e foreign => by
          rw [mixed] at foreign
          cases foreign.1
        obtain ⟨_, rfl, rfl⟩ := held.answers answers
        exact ⟨_, congrArg (·, _) (congrArg Except.ok position.symm),
          ⟨rfl, rfl, rfl, rfl, rfl, rfl, rfl, rfl⟩, put kept⟩
      | loaded r shelf' before after store' ran updated =>
        cases ran
        have kept := held.updated updated fun e new => by
          obtain ⟨same, v, ok, value⟩ := new
          cases ok
          rw [value]
          exact ⟨rfl, by rw [Rules.Position, same, position]⟩
        exact ⟨_, rfl, ⟨rfl, rfl, rfl, rfl, rfl, rfl, rfl, rfl⟩, put kept⟩

end Logicless
