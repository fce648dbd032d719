import Logicless.Proofs.Transparency
import Mathlib.Data.List.Induction

/-!
# Lexical scoping

A name stands for what the innermost scope that binds it says, and further names lead on from there
(`Value.Denotes`). With the built-in resolvers a lookup finds just that, whatever has been done with
the engine and its hints before (`Blueprint.find_denotes`).
-/

namespace Logicless

/-! ### What is bound -/

/-- The digits are a decimal numeral, which may have zeros in front. -/
inductive Decimal.Spells : List Char → Nat → Prop where
  | digit {c : Char} (digit : c.isDigit = true) : Spells [c] (c.toNat - '0'.toNat)
  | more {ds : List Char} {n : Nat} {c : Char} (h : Spells ds n) (digit : c.isDigit = true) :
      Spells (ds ++ [c]) (10 * n + (c.toNat - '0'.toNat))

namespace Decimal

theorem digitsValue_append (ds : List Char) (c : Char) :
    digitsValue (ds ++ [c]) = 10 * digitsValue ds + (c.toNat - '0'.toNat) := by
  simp [digitsValue]

theorem spells_digitsValue {ds : List Char} (nonempty : ds ≠ []) (digits : ∀ c ∈ ds, c.isDigit = true) :
    Spells ds (digitsValue ds) := by
  induction ds using List.reverseRecOn with
  | nil => exact absurd rfl nonempty
  | append_singleton ds c ih =>
    have digit : c.isDigit = true := digits c (by simp)
    rw [digitsValue_append]
    by_cases first : ds = []
    · subst first
      simpa [digitsValue] using Spells.digit digit
    · exact .more (ih first fun d member => digits d (List.mem_append_left _ member)) digit

theorem Spells.digits {ds : List Char} {n : Nat} (h : Spells ds n) :
    ds ≠ [] ∧ (∀ c ∈ ds, c.isDigit = true) ∧ digitsValue ds = n := by
  induction h with
  | digit digit => simpa [digitsValue] using digit
  | more _ digit ih =>
    obtain ⟨_, digits, value⟩ := ih
    refine ⟨by simp, ?_, by rw [digitsValue_append, value]⟩
    intro d member
    rcases List.mem_append.mp member with member | member
    · exact digits d member
    · obtain rfl := List.mem_singleton.mp member
      exact digit

theorem readIndex?_eq_some_iff {s : String} {n : Nat} :
    readIndex? s = some n ↔ Spells s.toList n := by
  have readable : (s.toList.isEmpty || !s.toList.all Char.isDigit) = true ↔
      ¬ (s.toList ≠ [] ∧ ∀ c ∈ s.toList, c.isDigit = true) := by
    rw [Bool.or_eq_true, List.isEmpty_iff, Bool.not_eq_true', ← Bool.not_eq_true, List.all_eq_true]
    tauto
  constructor
  · intro read
    dsimp only [readIndex?] at read
    split at read
    · cases read
    · next digits =>
      cases read
      obtain ⟨nonempty, digits⟩ := not_not.mp (readable.not.mp digits)
      exact spells_digitsValue nonempty digits
  · intro spells
    obtain ⟨nonempty, digits, rfl⟩ := spells.digits
    exact if_neg (readable.not.mpr (not_not.mpr ⟨nonempty, digits⟩))

end Decimal

namespace Value

inductive Binds : Value → String → Value → Prop where
  | this (v : Value) : Binds v "this" v
  | dot (v : Value) : Binds v "." v
  | item {items : List Value} {name : String} {i : Nat} {u : Value}
      (index : Decimal.Spells name.toList i) (within : items[i]? = some u) : Binds (.list items) name u
  | entry {before after : List (String × Value)} {name : String} {u : Value}
      (this : name ≠ "this") (dot : name ≠ ".") (first : ∀ entry ∈ before, entry.1 ≠ name) :
      Binds (.map (before ++ (name, u) :: after)) name u
  | member {o : HostObject Value} {before after : List (String × Option Value)} {name : String}
      {u : Value} (this : name ≠ "this") (dot : name ≠ ".")
      (members : o.members = before ++ (name, some u) :: after)
      (first : ∀ member ∈ before, member.1 ≠ name) : Binds (.object o) name u

/-- The innermost scope that binds the name, or else the data outside of all scopes, says what it
stands for. -/
inductive Sees (globals : List (String × Value)) : List Value → String → Value → Prop where
  | inside {inner outer : List Value} {scope : Value} {name : String} {u : Value}
      (innermost : ∀ v ∈ inner, ∀ w, ¬ v.Binds name w) (bound : scope.Binds name u) :
      Sees globals (inner ++ scope :: outer) name u
  | outside {scopes : List Value} {name : String} {u : Value}
      (unbound : ∀ v ∈ scopes, ∀ w, ¬ v.Binds name w) (known : globals.lookup name = some u) :
      Sees globals scopes name u

inductive Leads : Value → List String → Value → Prop where
  | here (v : Value) : Leads v [] v
  | on {v next u : Value} {name : String} {rest : List String} (bound : v.Binds name next)
      (leads : Leads next rest u) : Leads v (name :: rest) u

inductive Denotes (globals : List (String × Value)) (scopes : List Value) :
    List String → Value → Prop where
  | key {name : String} {rest : List String} {v u : Value} (sees : Sees globals scopes name v)
      (leads : v.Leads rest u) : Denotes globals scopes (name :: rest) u

theorem namesThis_iff {name : String} :
    Resolver.namesThis name = true ↔ name = "this" ∨ name = "." := by
  simp [Resolver.namesThis]

variable {v u : Value} {name : String}

theorem Binds.ofThis (this : Resolver.namesThis name = true) : v.Binds name v := by
  rcases namesThis_iff.mp this with rfl | rfl
  · exact .this v
  · exact .dot v

theorem binds_of_item (found : v.item? name = some u) : v.Binds name u := by
  cases v with
  | list items =>
    obtain ⟨i, read, within⟩ := Option.bind_eq_some_iff.mp found
    exact .item (Decimal.readIndex?_eq_some_iff.mp read) within
  | _ => cases found

theorem binds_of_get (other : ¬ Resolver.namesThis name = true) (found : v.get? name = some u) :
    v.Binds name u := by
  rw [namesThis_iff, not_or] at other
  cases v with
  | map entries =>
    obtain ⟨before, after, rfl, first⟩ := List.lookup_eq_some_iff.mp found
    refine .entry other.1 other.2 fun entry member same => ?_
    have differs := first entry member
    simp [same] at differs
  | _ => cases found

/-- A member that has a value is the first listed of its name. -/
theorem member?_eq_some_iff {o : HostObject Value} :
    (Value.object o).member? name = some u ↔ ∃ before after,
      o.members = before ++ (name, some u) :: after ∧ ∀ member ∈ before, member.1 ≠ name := by
  constructor
  · intro found
    obtain ⟨i, position, value⟩ := Option.bind_eq_some_iff.mp found
    obtain ⟨bound, named, first⟩ := List.findIdx?_eq_some_iff_getElem.mp position
    obtain ⟨member, at_i, value⟩ := Option.bind_eq_some_iff.mp value
    rw [List.getElem?_eq_getElem bound] at at_i
    cases at_i
    have member_eq : o.members[i] = (name, some u) := Prod.ext (by simpa using named) value
    refine ⟨o.members.take i, o.members.drop (i + 1), ?_, fun member within => ?_⟩
    · rw [← member_eq, List.getElem_cons_drop, List.take_append_drop]
    · obtain ⟨j, before, rfl⟩ := List.mem_take_iff_getElem.mp within
      simpa using first j (by omega)
  · rintro ⟨before, after, members, first⟩
    have position : o.indexOf? name = some before.length := by
      rw [HostObject.indexOf?, members, List.findIdx?_append,
        List.findIdx?_eq_none_iff.mpr fun member within => by simpa using first member within]
      simp [List.findIdx?_cons]
    show (o.indexOf? name).bind o.valueAt? = some u
    simp [position, HostObject.valueAt?, members]

theorem binds_of_member (other : ¬ Resolver.namesThis name = true)
    (found : v.member? name = some u) : v.Binds name u := by
  rw [namesThis_iff, not_or] at other
  cases v with
  | object o =>
    obtain ⟨before, after, members, first⟩ := member?_eq_some_iff.mp found
    exact .member other.1 other.2 members first
  | _ => cases found

theorem binds_of_bound (found : v.bound? name = some u) : v.Binds name u := by
  unfold bound? at found
  split at found
  · next this =>
    cases found
    exact .ofThis this
  · next other =>
    rcases Option.or_eq_some_iff.mp found with found | ⟨_, found⟩
    · exact binds_of_item found
    · rcases Option.or_eq_some_iff.mp found with found | ⟨_, found⟩
      · exact binds_of_get other found
      · exact binds_of_member other found

theorem not_namesThis (this : name ≠ "this") (dot : name ≠ ".") : ¬ Resolver.namesThis name = true := by
  rw [namesThis_iff, not_or]
  exact ⟨this, dot⟩

/-- A numeral is neither of the names of a scope itself. -/
theorem not_namesThis_of_spells {i : Nat} (index : Decimal.Spells name.toList i) :
    ¬ Resolver.namesThis name = true := by
  obtain ⟨_, digits, _⟩ := index.digits
  refine not_namesThis ?_ ?_ <;> rintro rfl
  · exact absurd (digits 't' (by decide)) (by decide)
  · exact absurd (digits '.' (by decide)) (by decide)

theorem Binds.bound (binds : v.Binds name u) : v.bound? name = some u := by
  unfold bound?
  cases binds with
  | this => rfl
  | dot => rfl
  | @item items _ i _ index within =>
    have item : (Value.list items).item? name = some u := by
      show (Decimal.readIndex? name).bind (items[·]?) = some u
      rw [Decimal.readIndex?_eq_some_iff.mpr index]
      exact within
    rw [if_neg (not_namesThis_of_spells index), item]
    rfl
  | @entry before after _ _ this dot first =>
    have got : (Value.map (before ++ (name, u) :: after)).get? name = some u :=
      List.lookup_eq_some_iff.mpr ⟨before, after, rfl, fun entry member => by
        simpa using (first entry member).symm⟩
    rw [if_neg (not_namesThis this dot), got]
    rfl
  | member this dot members first =>
    rw [if_neg (not_namesThis this dot)]
    exact member?_eq_some_iff.mpr ⟨_, _, members, first⟩

theorem bound?_eq_some_iff : v.bound? name = some u ↔ v.Binds name u :=
  ⟨binds_of_bound, Binds.bound⟩

theorem bound?_eq_none_iff : v.bound? name = none ↔ ∀ w, ¬ v.Binds name w := by
  simp only [← bound?_eq_some_iff, Option.eq_none_iff_forall_ne_some, ne_eq]

theorem visible?_eq_some_iff {globals : List (String × Value)} {scopes : List Value} :
    visible? globals scopes name = some u ↔ Sees globals scopes name u := by
  constructor
  · intro found
    rcases Option.or_eq_some_iff.mp found with inside | ⟨none, known⟩
    · obtain ⟨inner, scope, outer, rfl, bound, innermost⟩ := List.findSome?_eq_some_iff.mp inside
      exact .inside (fun v member => bound?_eq_none_iff.mp (innermost v member))
        (bound?_eq_some_iff.mp bound)
    · exact .outside (fun v member => bound?_eq_none_iff.mp (List.findSome?_eq_none_iff.mp none v member))
        known
  · intro sees
    unfold visible?
    cases sees with
    | @inside inner outer scope _ _ innermost bound =>
      have found : (inner ++ scope :: outer).findSome? (bound? name) = some u :=
        List.findSome?_eq_some_iff.mpr ⟨inner, scope, outer, rfl, bound?_eq_some_iff.mpr bound,
          fun v member => bound?_eq_none_iff.mpr (innermost v member)⟩
      rw [found]
      rfl
    | outside unbound known =>
      have none : scopes.findSome? (bound? name) = none :=
        List.findSome?_eq_none_iff.mpr fun v member => bound?_eq_none_iff.mpr (unbound v member)
      rw [none]
      exact known

theorem path?_eq_some_iff {parts : List String} : v.path? parts = some u ↔ v.Leads parts u := by
  induction parts generalizing v with
  | nil =>
    constructor
    · rintro ⟨⟩
      exact .here _
    · rintro ⟨⟩
      rfl
  | cons name rest ih =>
    constructor
    · intro found
      obtain ⟨next, bound, found⟩ := Option.bind_eq_some_iff.mp found
      exact .on (bound?_eq_some_iff.mp bound) (ih.mp found)
    · rintro (_ | ⟨bound, leads⟩)
      exact Option.bind_eq_some_iff.mpr ⟨_, bound?_eq_some_iff.mpr bound, ih.mpr leads⟩

theorem ofKey?_eq_some_iff {globals : List (String × Value)} {scopes : List Value}
    {parts : List String} : ofKey? globals scopes parts = some u ↔ Denotes globals scopes parts u := by
  constructor
  · intro found
    cases parts with
    | nil => cases found
    | cons name rest =>
      obtain ⟨v, visible, path⟩ := Option.bind_eq_some_iff.mp found
      exact .key (visible?_eq_some_iff.mp visible) (path?_eq_some_iff.mp path)
  · rintro ⟨sees, leads⟩
    exact Option.bind_eq_some_iff.mpr ⟨_, visible?_eq_some_iff.mpr sees, path?_eq_some_iff.mpr leads⟩

end Value

variable {σ : Type}

/-! ### What lookups leave behind -/

/-- A session, and the slots of each key in which lookups leave hints. -/
structure Desk (σ : Type) where
  session : Session σ
  slots : List String → Nat → Option (Hint σ)

/-- What is done at a desk: the engine is used, or a key is looked up in scopes of any kind, with one
of its slots or without, and the hint that comes with the value is left in the slot or not. -/
inductive Errand where
  | operation (o : Operation)
  | lookup (scopes : List Value) (parts : List String) (slot : Option Nat) (leaves : Bool)

def Errand.Conforms (names : String → List String) : Errand → Prop
  | .operation o => o.Conforms names
  | .lookup scopes _ _ _ => ∀ scope ∈ scopes, scope.Conforms names

namespace Desk

def new (store : Store σ) : Desk σ :=
  ⟨⟨store, []⟩, fun _ _ => none⟩

def given (d : Desk σ) (parts : List String) (slot : Option Nat) : Option (Option (Hint σ)) :=
  slot.map (d.slots parts)

/-- Leave a hint in a slot. The first hint of a slot stays. -/
def leave (d : Desk σ) (parts : List String) (slot : Option Nat) (hint : Option (Hint σ)) : Desk σ :=
  { d with slots := fun key i =>
      if key = parts ∧ slot = some i then (d.slots key i).or hint else d.slots key i }

def onStore (d : Desk σ) (store : Store σ) : Desk σ :=
  { d with session := { d.session with store } }

end Desk

namespace Engine

def errand (e : Engine σ) (d : Desk σ) : Errand → Desk σ
  | .operation o => { d with session := (e.perform d.session o).2 }
  | .lookup scopes parts slot leaves =>
    match e.find scopes parts (d.given parts slot) d.session.store with
    | (.ok found, store) =>
      (d.onStore store).leave parts slot (if leaves then found.hint else none)
    | (.error _, store) => d.onStore store

def errands (e : Engine σ) (d : Desk σ) (list : List Errand) : Desk σ :=
  list.foldl e.errand d

end Engine

/-! ### Hints stay right -/

variable {names : String → List String} {globals : List (String × Value)} {e : Engine σ}

structure Desk.Right (split : KeySplitter) (names : String → List String) (d : Desk σ) : Prop where
  recalls : d.session.store.Recalls split names d.session.templates
  hints : ∀ parts i h, d.slots parts i = some h → ∀ name, parts = [name] → h.Right names name

theorem Desk.Right.given {split : KeySplitter} {d : Desk σ} (right : d.Right split names)
    (parts : List String) (slot : Option Nat) :
    ∀ h, (d.given parts slot).join = some h → ∀ name, parts = [name] → h.Right names name := by
  intro h held
  obtain ⟨i, _, held⟩ := Option.map_eq_some_iff.mp (Option.join_eq_some_iff.mp held)
  exact right.hints parts i h held

namespace Engine

theorem errand_right (builtIn : ∃ shelf, e.resolvers = Lookup.builtIns shelf globals)
    (outside : ∀ entry ∈ globals, entry.2.Conforms names) {errand : Errand}
    (conforms : errand.Conforms names) {d : Desk σ} (right : d.Right e.split names) :
    (e.errand d errand).Right e.split names := by
  cases errand with
  | operation o =>
    obtain ⟨shelf, resolvers⟩ := builtIn
    have lawful : Lookup.Lawful (names : Rules σ) e.resolvers :=
      resolvers ▸ Lookup.builtIns_lawful shelf outside
    exact ⟨perform_recalls lawful conforms right.recalls, right.hints⟩
  | lookup scopes parts slot leaves =>
    obtain ⟨shelf, resolvers⟩ := builtIn
    obtain ⟨made, faithful, _⟩ := right.recalls
    obtain ⟨hint, store, ran, offers, same, indexed⟩ :=
      find_builtIn resolvers (right.given parts slot) conforms outside faithful.members
    simp only [Engine.errand, ran]
    refine ⟨right.recalls.looked same indexed, fun key i h held name single => ?_⟩
    dsimp only [Desk.leave] at held
    split at held
    · next at_slot =>
      obtain ⟨rfl, _⟩ := at_slot
      rcases Option.or_eq_some_iff.mp held with held | ⟨_, left⟩
      · exact right.hints key i h held name single
      · -- The hint is the one that came with the value, which is right for the name.
        split at left
        · obtain ⟨name', single', right⟩ := offers h left
          rw [single'] at single
          cases single
          exact right
        · cases left
    · exact right.hints key i h held name single

theorem errands_right (builtIn : ∃ shelf, e.resolvers = Lookup.builtIns shelf globals)
    (outside : ∀ entry ∈ globals, entry.2.Conforms names) {list : List Errand}
    (conforms : ∀ errand ∈ list, errand.Conforms names) {d : Desk σ} (right : d.Right e.split names) :
    (e.errands d list).Right e.split names := by
  induction list generalizing d with
  | nil => exact right
  | cons errand rest ih =>
    exact ih (fun errand member => conforms errand (List.mem_cons_of_mem _ member))
      (errand_right builtIn outside (conforms errand List.mem_cons_self) right)

end Engine

/-! ### Lookups are lexical -/

/-- A lookup gives what the key stands for, if anything, whatever has been done before and whatever
hint its slot holds from it. -/
theorem Blueprint.find_denotes (names : String → List String) {b : Blueprint σ}
    (contained : b.SelfContained) (outside : ∀ entry ∈ b.globals, entry.2.Conforms names) {host : σ}
    {e : Engine σ} {store : Store σ} (built : b.build host = .ok (e, store)) (list : List Errand)
    (conforms : ∀ errand ∈ list, errand.Conforms names) {scopes : List Value}
    (inside : ∀ scope ∈ scopes, scope.Conforms names) (parts : List String) (slot : Option Nat) :
    let d := e.errands (.new store) list
    ∃ found store', e.find scopes parts (d.given parts slot) d.session.store = (.ok found, store') ∧
      found.leases = [] ∧ ∀ v, found.value = some v ↔ Value.Denotes b.globals scopes parts v := by
  have founded : Founded names b host e store := build_founded contained built
  have start : (Desk.new store).Right e.split names := by
    refine ⟨?_, fun _ _ _ held => by cases held⟩
    rw [founded.split]
    exact founded.recalls
  have right := Engine.errands_right founded.builtIn outside conforms start
  obtain ⟨made, faithful, _⟩ := right.recalls
  obtain ⟨shelf, resolvers⟩ := founded.builtIn
  obtain ⟨hint, store', ran, _⟩ :=
    Engine.find_builtIn resolvers (right.given parts slot) inside outside faithful.members
  exact ⟨_, store', ran, rfl, fun v => Value.ofKey?_eq_some_iff⟩

/-- A hint learned in a map is of no use in an object that lacks the member, and the entry of the map
around it hides the data outside, though it is null. -/
theorem Blueprint.find_denotes_stale :
    let b : Blueprint Unit := { Blueprint.standard with globals := [("name", .string "c")] }
    let row : Value := .object ⟨0, "Row", [("name", none)], none⟩
    ∃ e store, b.build () = .ok (e, store) ∧
      let d := e.errands (.new store) [.lookup [.map [("name", .string "a")]] ["name"] (some 0) true]
      ∃ found store', e.find [row, .map [("name", .null)]] ["name"] (d.given ["name"] (some 0))
          d.session.store = (.ok found, store') ∧ found.leases = [] ∧ found.value = some .null := by
  intro b row
  have plain : b.Plain := ⟨rfl, rfl, rfl⟩
  obtain ⟨e, store, built⟩ := build_ok plain (by decide) (by decide +kernel) rfl ()
  have entry (v : Value) (h : v.Conforms fun _ => ["name"]) :
      (Value.map [("name", v)]).Conforms fun _ => ["name"] := .map (List.forall_mem_singleton.mpr h)
  have member : row.Conforms fun _ => ["name"] := .object rfl fun member within v value => by
    obtain rfl := List.mem_singleton.mp within
    cases value
  have unbound (w : Value) : ¬ row.Binds "name" w := by
    rw [← Value.bound?_eq_some_iff]
    rintro ⟨⟩
  obtain ⟨found, store', ran, leases, denotes⟩ := find_denotes (fun _ => ["name"]) plain.selfContained
    (List.forall_mem_singleton.mpr (.string "c")) built
    [.lookup [.map [("name", .string "a")]] ["name"] (some 0) true]
    (List.forall_mem_singleton.mpr (List.forall_mem_singleton.mpr (entry _ (.string "a"))))
    (List.forall_mem_cons.mpr ⟨member, List.forall_mem_singleton.mpr (entry _ .null)⟩) ["name"] (some 0)
  refine ⟨e, store, built, found, store', ran, leases, (denotes _).mpr (.key ?_ (.here _))⟩
  refine @Value.Sees.inside _ [row] [] _ _ _ (List.forall_mem_singleton.mpr unbound) ?_
  exact @Value.Binds.entry [] [] _ _ (by decide) (by decide) fun _ within => by cases within

end Logicless
