import Logicless.Proofs.Memory
import Logicless.Proofs.Renaming.Execution

/-!
# Building engines under other names

Engines that are made of the same parts, but for the names of templates, are the same, and their first
stores differ in names (`Blueprint.build_renames`).
-/

namespace Logicless

variable {σ : Type} {ρ : String → String}

/-- The second locator stands for the first one. What is compiled in advance is so in the same order. -/
structure Locator.Twins (ρ : String → String) (precompile : Bool) (l l' : Locator) : Prop where
  answers : l.Renames ρ l'
  priority : l'.priority = l.priority
  identifiers : precompile = true → l'.identifiers = l.identifiers.map ρ

namespace Blueprint

/-- The output of lambdas keeps its name. Code of the host has no errors about templates, except for the
handler of missing values, whose errors may differ in the names of templates. Listeners are not told
names apart. -/
structure Allows (b : Blueprint σ) (ρ : String → String) : Prop where
  injective : Function.Injective ρ
  oneOff : ρ Engine.oneOffNesting = Engine.oneOffNesting
  resolvers : ∀ r ∈ b.resolvers, r.Admits Error.Unnamed
  inits : ∀ r ∈ b.resolvers, ∀ c, r.kind = .custom c → ∀ host err, (c.init host).1 = .error err →
    err.Unnamed
  support : ∀ text err, b.support text = .error err → err.Unnamed
  missing : ∀ info template, Named ρ info.template template →
    Correspond (Error.Renames ρ) Eq (b.missing info) (b.missing { info with template })
  listener : ∀ settings host listener,
    (b.factory.allot Engine.templatesConsumer settings host).1.listener = some listener →
    ∀ name, listener (Text.quote (ρ name)) = listener (Text.quote name)

/-! ### Priorities -/

section

variable {α : Type} {rel : α → α → Prop} {xs xs' : List α}

/-- Lists of the same priorities are put in the same order. -/
theorem byPriority_related {priority : α → Int} (same : ∀ a a', rel a a' → priority a' = priority a)
    (h : List.Forall₂ rel xs xs') : List.Forall₂ rel (byPriority priority xs) (byPriority priority xs') := by
  obtain ⟨length, related⟩ := List.forall₂_iff_zip.mp h
  have sorted (f : α × α → α) (keeps : ∀ p ∈ xs.zip xs', priority (f p) = priority p.1) :
      byPriority priority ((xs.zip xs').map f) = (byPriority (fun p => priority p.1) (xs.zip xs')).map f := by
    refine (List.map_mergeSort fun p member q member' => ?_).symm
    rw [keeps p member, keeps q member']
  have first := sorted (·.1) fun _ _ => rfl
  have second := sorted (·.2) fun p member => same _ _ (related member)
  rw [List.map_fst_zip (Nat.le_of_eq length)] at first
  rw [List.map_snd_zip (Nat.le_of_eq length.symm)] at second
  rw [first, second, List.forall₂_map_left_iff, List.forall₂_map_right_iff, List.forall₂_same]
  exact fun p member => related ((List.mergeSort_perm _ _).mem_iff.mp member)

theorem mapIdx_related {β : Type} {rel' : β → β → Prop} {f : Nat → α → β}
    (hf : ∀ i a a', rel a a' → rel' (f i a) (f i a')) (h : List.Forall₂ rel xs xs') :
    List.Forall₂ rel' (xs.mapIdx f) (xs'.mapIdx f) := by
  induction h generalizing f with
  | nil => exact .nil
  | cons head _ ih =>
    rw [List.mapIdx_cons, List.mapIdx_cons]
    exact .cons (hf 0 _ _ head) (ih fun i => hf (i + 1))

end

/-! ### Resolvers -/

variable {b : Blueprint σ} {locators' : List Locator} {s s' : Store σ}

theorem ofAllotment_error {K V : Type} {consumer : String} {label : K → String} {allotment : Allotment σ}
    {err : Error} (fails : (Shelf.ofAllotment consumer label allotment : Except Error (Shelf σ K V)) = .error err) :
    err = .cacheCapacity consumer := by
  unfold Shelf.ofAllotment at fails
  split at fails
  · cases fails
  · cases fails
    rfl

theorem init_renames (h : s.Renames ρ s') (factory : CacheFactory σ) (config : Config) {r : Resolver σ}
    (admits : r.Admits Error.Unnamed)
    (inits : ∀ c, r.kind = .custom c → ∀ host err, (c.init host).1 = .error err → err.Unnamed) :
    Store.Ends ρ (fun r r' => r' = r ∧ r.Admits Error.Unnamed) (r.init factory config s)
      (r.init factory config s') := by
  obtain ⟨priority, kind⟩ := r
  cases kind with
  | members shelf =>
    simp only [Resolver.init, h.agrees.host]
    have allotted := h.rehost (factory.allot Resolver.membersConsumer ⟨none, config.memberCacheMaxSize⟩ s.host).2
    split
    · next shelved =>
      obtain rfl := ofAllotment_error shelved
      exact ⟨.error (.unnamed trivial), allotted⟩
    · exact ⟨.ok ⟨rfl, trivial⟩, allotted⟩
    · refine ⟨.ok ⟨by rw [h.agrees.members], trivial⟩, { allotted with agrees := ?_ }⟩
      exact ⟨rfl, congrArg (· ++ [_]) h.agrees.members, h.agrees.leases, h.agrees.leaseLog⟩
  | custom c =>
    simp only [Resolver.init, h.agrees.host]
    refine ⟨?_, h.rehost _⟩
    cases result : (c.init s.host).1 with
    | ok _ => exact .ok ⟨rfl, admits⟩
    | error err => exact .error (.unnamed (inits c rfl s.host err result))
  | _ => exact ⟨.ok ⟨rfl, trivial⟩, h⟩

variable (allows : b.Allows ρ) (h : s.Renames ρ s')

include h

theorem initAll_renames {resolvers : List (Resolver σ)} (host : ∀ r ∈ resolvers, r.Admits Error.Unnamed ∧
      ∀ c, r.kind = .custom c → ∀ host err, (c.init host).1 = .error err → err.Unnamed) :
    Store.Ends ρ (fun rs rs' => rs' = rs ∧ ∀ r ∈ rs, r.Admits Error.Unnamed) (b.initAll resolvers s)
      ({ b with locators := locators' }.initAll resolvers s') := by
  induction resolvers generalizing s s' with
  | nil => exact ⟨.ok ⟨rfl, nofun⟩, h⟩
  | cons r rest ih =>
    obtain ⟨⟨admits, inits⟩, host⟩ := List.forall_mem_cons.mp host
    refine (init_renames h b.factory b.config admits inits).bind fun r r' t t' _ _ same related => ?_
    obtain ⟨rfl, admits⟩ := same
    refine (ih related host).bind fun rs rs' t t' _ _ same related => ?_
    obtain ⟨rfl, all⟩ := same
    exact ⟨.ok ⟨rfl, List.forall_mem_cons.mpr ⟨admits, all⟩⟩, related⟩

include allows

theorem initResolvers_renames :
    Store.Ends ρ (fun p p' => p' = p ∧ ∀ r ∈ p.1, r.Admits Error.Unnamed) (b.initResolvers s)
      ({ b with locators := locators' }.initResolvers s') := by
  unfold initResolvers
  refine (initAll_renames h fun r member => ⟨allows.resolvers r member, allows.inits r member⟩).bind
    fun added added' t t' _ _ same related => ?_
  obtain ⟨rfl, admits⟩ := same
  have sorted (members : Option (Resolver σ)) {builtIn : List (Resolver σ)}
      (plain : ∀ r ∈ builtIn, r.Admits Error.Unnamed) {u u' : Store σ} (related : u.Renames ρ u') :
      Store.Ends ρ (fun p p' => p' = p ∧ ∀ r ∈ p.1, r.Admits Error.Unnamed)
        (.ok (byPriority (·.priority) (added' ++ builtIn ++ b.globalResolvers), members), u)
        (.ok (byPriority (·.priority) (added' ++ builtIn ++ b.globalResolvers), members), u') := by
    refine ⟨.ok ⟨rfl, fun r member => ?_⟩, related⟩
    rcases List.mem_append.mp ((List.mergeSort_perm _ _).mem_iff.mp member) with member | member
    · exact (List.mem_append.mp member).elim (admits r) (plain r)
    · unfold globalResolvers at member
      split at member
      · cases member
      · obtain rfl := List.mem_singleton.mp member
        trivial
  by_cases builtIn : b.builtIn = true
  · simp only [builtIn, if_true]
    have members : (Resolver.members 40 : Resolver σ).Admits Error.Unnamed := trivial
    have inits (c : CustomResolver σ) (custom : (Resolver.members 40 : Resolver σ).kind = .custom c) :
        ∀ host err, (c.init host).1 = .error err → err.Unnamed := nomatch custom
    refine (init_renames related b.factory b.config members inits).bind fun r r' u u' _ _ same related => ?_
    obtain ⟨rfl, members⟩ := same
    refine sorted (some r') (fun r member => ?_) related
    simp only [List.mem_cons, List.not_mem_nil, or_false] at member
    rcases member with rfl | rfl | rfl | rfl
    exacts [trivial, trivial, trivial, members]
  · simp only [builtIn]
    exact sorted none (List.forall_mem_nil _) related

/-! ### Caches -/

omit allows in
theorem allotShelf_renames {V : Type} (same : V → V → Prop)
    (listener : ∀ settings host listener,
      (b.factory.allot Engine.templatesConsumer settings host).1.listener = some listener →
      ∀ name, listener (Text.quote (ρ name)) = listener (Text.quote name)) (settings : CacheSettings) :
    Store.Ends ρ (Shelf.Renames ρ same) (b.allotShelf settings s)
      ({ b with locators := locators' }.allotShelf settings s') := by
  unfold allotShelf
  simp only [h.agrees.host]
  refine ⟨?_, h.rehost _⟩
  unfold Shelf.ofAllotment
  split
  · refine .ok ⟨rfl, rfl, fun change => ?_, ⟨rfl, rfl, .nil, rfl⟩⟩
    cases change with
    | stored _ => rfl
    | removed name cause =>
      funext told
      cases heard : (b.factory.allot Engine.templatesConsumer settings s.host).1.listener with
      | none => rfl
      | some f => simp only [Change.map, Shelf.notice, listener settings s.host f heard name]
  · exact .error (.unnamed trivial)

theorem allotCaches_renames :
    Store.Ends ρ Eq (b.allotCaches s) ({ b with locators := locators' }.allotCaches s') := by
  unfold allotCaches
  simp only
  split
  · refine (allotShelf_renames h (Option.Rel (Template.Renames ρ)) allows.listener _).bind fun templates templates' t t' _ _ first related => ?_
    refine (allotShelf_renames related (Option.Rel (Source.Renames ρ)) allows.listener _).bind fun sources sources' t t' _ _ second related => ?_
    exact ⟨.ok rfl, { related with
      agrees := ⟨related.agrees.host, related.agrees.members, related.agrees.leases, related.agrees.leaseLog⟩
      templates := .some first
      sources := .some second }⟩
  · exact ⟨.ok rfl, h⟩

omit allows h in
theorem allotCaches_locators {t : Store σ} (ran : b.allotCaches s = (.ok (), t)) : t.locators = s.locators := by
  unfold allotCaches at ran
  split at ran
  · obtain ⟨templates, u, first, ran⟩ := Attempt.bind_ok ran
    obtain ⟨sources, u', second, ran⟩ := Attempt.bind_ok ran
    obtain ⟨_, rfl⟩ := Prod.mk.inj first
    obtain ⟨_, rfl⟩ := Prod.mk.inj second
    cases ran
    rfl
  · cases ran
    rfl

omit allows in
theorem precompile_renames (injective : Function.Injective ρ) (e : Engine σ) (names : List String) :
    Store.Ends ρ Eq (precompile e names s) (precompile e (names.map ρ) s') := by
  induction names generalizing s s' with
  | nil => exact ⟨.ok rfl, h⟩
  | cons name rest ih =>
    exact (e.getTemplate_renames h injective name).bind fun _ _ t t' _ _ _ related => ih related

/-! ### Engines -/

omit h allows in
theorem emptyStore_placed (locators : List.Forall₂ (Locator.Twins ρ b.config.precompile) b.locators locators')
    (host : σ) :
    List.Forall₂ (fun p p' => Locator.Twins ρ b.config.precompile p.2 p'.2) (b.emptyStore host).locators
      ({ b with locators := locators' }.emptyStore host).locators :=
  byPriority_related (fun _ _ twins => twins.priority) (mapIdx_related (fun _ _ _ twins => twins) locators)

omit h allows in
theorem identifiers_placed {precompile : Bool} (on : precompile = true) {ls ls' : List (Nat × Locator)}
    (placed : List.Forall₂ (fun p p' => Locator.Twins ρ precompile p.2 p'.2) ls ls') :
    ls'.flatMap (fun p => p.2.identifiers) = (ls.flatMap fun p => p.2.identifiers).map ρ := by
  induction placed with
  | nil => rfl
  | cons twins _ ih => rw [List.flatMap_cons, List.flatMap_cons, List.map_append, ih, twins.identifiers on]

omit h in
theorem build_renames (locators : List.Forall₂ (Locator.Twins ρ b.config.precompile) b.locators locators')
    (host : σ) :
    Correspond (Error.Renames ρ) (fun p p' => p'.1 = p.1 ∧ p.1.Allows ρ ∧ p.2.Renames ρ p'.2) (b.build host)
      ({ b with locators := locators' }.build host) := by
  have placed := emptyStore_placed locators host
  have start : (b.emptyStore host).Renames ρ ({ b with locators := locators' }.emptyStore host) :=
    ⟨⟨rfl, rfl, rfl, rfl⟩, rfl, rfl, List.forall_mem_nil _, rfl, rfl, placed.imp fun _ _ twins => twins.answers,
      .none, .none⟩
  have assembled : Store.Ends ρ (fun e e' => e' = e ∧ e.Allows ρ) (b.assemble (b.emptyStore host))
      ({ b with locators := locators' }.assemble ({ b with locators := locators' }.emptyStore host)) := by
    unfold assemble
    by_cases zero : b.config.nestingLimit = 0
    · rw [if_pos zero, if_pos zero]
      exact ⟨.error (.unnamed trivial), start⟩
    · rw [if_neg zero, if_neg zero]
      refine (initResolvers_renames allows start).bind fun p p' t t' resolved resolved' same related => ?_
      obtain ⟨rfl, admits⟩ := same
      refine (allotCaches_renames allows related).bind fun _ _ u u' allotted allotted' _ related => ?_
      let e : Engine σ := ⟨b.config, p'.1, b.missing, b.support, b.split, b.factory.label, p'.2⟩
      have answers : e.Allows ρ :=
        ⟨allows.injective, allows.oneOff, admits, allows.support, allows.missing⟩
      cases ahead : b.config.precompile with
      | false => exact ⟨.ok ⟨rfl, answers⟩, related⟩
      | true =>
        have kept : u.locators = (b.emptyStore host).locators :=
          (allotCaches_locators allotted).trans (initResolvers_untouched resolved).locators
        have kept' : u'.locators = ({ b with locators := locators' }.emptyStore host).locators :=
          (allotCaches_locators allotted').trans (initResolvers_untouched resolved').locators
        have names := identifiers_placed ahead placed
        rw [← kept, ← kept'] at names
        have compiled := precompile_renames related allows.injective e
          (u.locators.flatMap fun p => p.2.identifiers)
        rw [← names] at compiled
        exact compiled.bind fun _ _ v v' _ _ _ related => ⟨.ok ⟨rfl, answers⟩, related⟩
  unfold build
  obtain ⟨result, store⟩ := assembled
  generalize b.assemble (b.emptyStore host) = out at result store ⊢
  generalize { b with locators := locators' }.assemble ({ b with locators := locators' }.emptyStore host) = out'
    at result store ⊢
  obtain ⟨r, s⟩ := out
  obtain ⟨r', s'⟩ := out'
  cases result with
  | ok same => exact .ok ⟨same.1, same.2, store⟩
  | error fails => exact .error fails

end Blueprint

end Logicless
