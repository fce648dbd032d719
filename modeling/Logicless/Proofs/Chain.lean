import Logicless.Proofs.Step

/-!
# Who wins a name

A single name is looked up in the scopes from the innermost to the outermost, and then outside of them
all. In each scope the resolvers are asked one after another, until one of them knows the name and wins
(`Lookup.innermost_some_iff`).
-/

namespace Logicless

variable {σ : Type}

namespace Lookup

inductive Lost (scope : Option Value) (name : String) :
    List (Resolver σ) → Lookup.State σ → Lookup.State σ → Prop where
  | nil (s : Lookup.State σ) : Lost scope name [] s s
  | cons {r : Resolver σ} {rest : List (Resolver σ)} {s t u : Lookup.State σ}
      (passes : r.resolve scope name s = (.ok none, t)) (lost : Lost scope name rest t u) :
      Lost scope name (r :: rest) s u

inductive Won (scope : Option Value) (name : String) :
    List (Resolver σ) → Lookup.State σ → Resolver σ → Value → Lookup.State σ → Prop where
  | here {r : Resolver σ} {rest : List (Resolver σ)} {s t : Lookup.State σ} {v : Value}
      (knows : r.resolve scope name s = (.ok (some v), t)) : Won scope name (r :: rest) s r v t
  | later {r r' : Resolver σ} {rest : List (Resolver σ)} {s t u : Lookup.State σ} {v : Value}
      (passes : r.resolve scope name s = (.ok none, t)) (won : Won scope name rest t r' v u) :
      Won scope name (r :: rest) s r' v u

/-- The name is won in the first of the scopes in which a resolver knows it, or outside of them. -/
inductive WonIn (resolvers : List (Resolver σ)) (name : String) :
    List Value → Lookup.State σ → Option Value → Resolver σ → Value → Lookup.State σ → Prop where
  | outside {s t : Lookup.State σ} {r : Resolver σ} {v : Value} (won : Won none name resolvers s r v t) :
      WonIn resolvers name [] s none r v t
  | here {scope : Value} {rest : List Value} {s t : Lookup.State σ} {r : Resolver σ} {v : Value}
      (won : Won (some scope) name resolvers s r v t) :
      WonIn resolvers name (scope :: rest) s (some scope) r v t
  | outer {scope : Value} {rest : List Value} {s t u : Lookup.State σ} {scope' : Option Value}
      {r : Resolver σ} {v : Value} (lost : Lost (some scope) name resolvers s t)
      (won : WonIn resolvers name rest t scope' r v u) :
      WonIn resolvers name (scope :: rest) s scope' r v u

def GivesHint (wanted : Bool) (r : Resolver σ) (scope : Option Value) (name : String)
    (s : Lookup.State σ) (hint : Option (Hint σ)) (t : Lookup.State σ) : Prop :=
  (if wanted then r.hint scope name else pure none) s = (.ok hint, t)

variable {scope : Option Value} {name : String} {resolvers : List (Resolver σ)} {scopes : List Value}
  {s t : Lookup.State σ} {wanted : Bool} {v : Value} {hint : Option (Hint σ)}

def answered (wanted : Bool) (r : Resolver σ) (rest : List (Resolver σ)) (scope : Option Value)
    (name : String) : Option Value → Lookup σ (Option (Value × Option (Hint σ)))
  | some v => (if wanted then r.hint scope name else pure none) >>= fun hint => pure (some (v, hint))
  | none => first rest scope name wanted

theorem first_cons (r : Resolver σ) (rest : List (Resolver σ)) :
    first (r :: rest) scope name wanted =
      r.resolve scope name >>= answered wanted r rest scope name := by
  rw [first]
  congr 1
  funext known
  cases known with
  | none => rfl
  | some v => cases wanted <;> rfl

theorem first_none_iff :
    first resolvers scope name wanted s = (.ok none, t) ↔ Lost scope name resolvers s t := by
  constructor
  · intro ran
    induction resolvers generalizing s with
    | nil =>
      cases ran
      exact .nil _
    | cons r rest ih =>
      rw [first_cons] at ran
      obtain ⟨known, u, asked, ran⟩ := Attempt.bind_ok ran
      cases known with
      | none => exact .cons asked (ih ran)
      | some v =>
        obtain ⟨_, _, _, ran⟩ := Attempt.bind_ok ran
        cases ran
  · intro lost
    induction lost with
    | nil => rfl
    | cons passes _ ih =>
      rw [first_cons, Attempt.bind_of_ok passes]
      exact ih

theorem first_some_iff :
    first resolvers scope name wanted s = (.ok (some (v, hint)), t) ↔
      ∃ r u, Won scope name resolvers s r v u ∧ GivesHint wanted r scope name u hint t := by
  constructor
  · intro ran
    induction resolvers generalizing s with
    | nil => cases ran
    | cons r rest ih =>
      rw [first_cons] at ran
      obtain ⟨known, u, asked, ran⟩ := Attempt.bind_ok ran
      cases known with
      | none =>
        obtain ⟨r', u', won, gives⟩ := ih ran
        exact ⟨r', u', .later asked won, gives⟩
      | some v' =>
        obtain ⟨hint', t', gives, ran⟩ := Attempt.bind_ok ran
        cases ran
        exact ⟨r, u, .here asked, gives⟩
  · rintro ⟨r, u, won, gives⟩
    induction won with
    | here knows =>
      rw [first_cons, Attempt.bind_of_ok knows]
      exact Attempt.bind_of_ok gives
    | later passes _ ih =>
      rw [first_cons, Attempt.bind_of_ok passes]
      exact ih gives

theorem innermost_some_iff :
    innermost resolvers scopes name wanted s = (.ok (some (v, hint)), t) ↔
      ∃ scope r u, WonIn resolvers name scopes s scope r v u ∧
        GivesHint wanted r scope name u hint t := by
  constructor
  · intro ran
    induction scopes generalizing s with
    | nil =>
      obtain ⟨r, u, won, gives⟩ := first_some_iff.mp ran
      exact ⟨none, r, u, .outside won, gives⟩
    | cons scope rest ih =>
      obtain ⟨found, u, tried, ran⟩ := Attempt.bind_ok ran
      cases found with
      | none =>
        obtain ⟨scope', r, u', won, gives⟩ := ih ran
        exact ⟨scope', r, u', .outer (first_none_iff.mp tried) won, gives⟩
      | some found =>
        cases ran
        obtain ⟨r, u', won, gives⟩ := first_some_iff.mp tried
        exact ⟨some scope, r, u', .here won, gives⟩
  · rintro ⟨scope, r, u, won, gives⟩
    induction won with
    | outside won => exact first_some_iff.mpr ⟨_, _, won, gives⟩
    | here won =>
      rw [innermost, Attempt.bind_of_ok (first_some_iff.mpr ⟨_, _, won, gives⟩)]
      rfl
    | outer lost _ ih =>
      rw [innermost, Attempt.bind_of_ok (first_none_iff.mpr lost)]
      exact ih gives

/-! ### Single names -/

/-- What an applicable hint yields is found without asking a resolver. -/
theorem key_of_hinted {h : Hint σ} (applicable : h.isApplicable = true)
    (yields : h.resolve scopes.head? name s = (.ok (some v), t)) :
    key resolvers scopes [name] (some (some h)) s = (.ok (some v, some h), t) := by
  have hinted : Lookup.hinted (some h) scopes.head? name s = (.ok (some (v, some h)), t) := by
    simp only [Lookup.hinted, Option.filter, applicable, if_true]
    exact Attempt.bind_of_ok yields
  exact Attempt.bind_of_ok hinted

/-- As long as its slot is empty, a single name is left to the resolvers, and the winner is to give a
hint. -/
theorem key_of_vacant :
    key resolvers scopes [name] (some none) s = (.ok (some v, hint), t) ↔
      ∃ scope r u, WonIn resolvers name scopes s scope r v u ∧ r.hint scope name u = (.ok hint, t) := by
  constructor
  · intro ran
    have ran : (innermost resolvers scopes name true >>= _) s = (.ok (some v, hint), t) := ran
    obtain ⟨found, u, searched, ran⟩ := Attempt.bind_ok ran
    cases found with
    | none => cases ran
    | some found =>
      cases ran
      exact innermost_some_iff.mp searched
  · intro won
    have searched : innermost resolvers scopes name true s = (.ok (some (v, hint)), t) :=
      innermost_some_iff.mpr won
    change (innermost resolvers scopes name true >>= _) s = _
    rw [Attempt.bind_of_ok searched]
    rfl

end Lookup

namespace Engine

variable {e : Engine σ} {scopes : List Value} {parts : List String} {slot : Option (Option (Hint σ))}
  {store : Store σ}

theorem find_ok_iff (enabled : e.config.hintsEnabled = true) {found : Found σ} {store' : Store σ} :
    e.find scopes parts slot store = (.ok found, store') ↔
      Lookup.key e.resolvers scopes parts slot ⟨store, []⟩ =
        (.ok (found.value, found.hint), ⟨store', found.leases⟩) := by
  simp only [find, enabled, if_true]
  rcases Lookup.key e.resolvers scopes parts slot ⟨store, []⟩ with ⟨_ | ⟨value, hint⟩, after, leases⟩
  · constructor <;> rintro ⟨⟩
  · constructor <;> rintro ⟨⟩ <;> rfl

end Engine

end Logicless
