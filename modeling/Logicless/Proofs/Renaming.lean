import Logicless.Proofs.Escaping
import Logicless.Proofs.Renaming.Build
import Logicless.Proofs.Renaming.Session
import Mathlib.Logic.Equiv.Basic

/-!
# Rendering under other names

Templates can be given other names, and nothing else changes (`Blueprint.observations_renamed`). One name
must stay: the output of lambdas is nested under it, as if it were the name of a template
(`Engine.not_renamed_oneOffNesting`).
-/

namespace Logicless

variable {σ : Type} {ρ : String → String}

def constantLambda (text : String) : Lambda := ⟨0, fun _ => .ok (some text), .literal, true⟩

namespace Engine

/-! ### The name that must stay -/

def shallow : Engine Unit :=
  { bare .ignore with config := { Config.standard with nestingLimit := 1 }, resolvers := [.map 30] }

def shown (name : String) : Template :=
  ⟨0, name, [.value ⟨"x", ⟨name, 1, 1⟩, false, ["x"]⟩]⟩

/-- A template of the name that all output of lambdas is nested under stands in the way of it. -/
theorem not_renamed_oneOffNesting :
    Template.ofSource 0 "t" "\x7b\x7bx\x7d\x7d" Key.dotted = .ok (shown "t") ∧
      Template.ofSource 0 oneOffNesting "\x7b\x7bx\x7d\x7d" Key.dotted = .ok (shown oneOffNesting) ∧
      let rendered (t : Template) := shallow.renderTo t
        (.map [("x", .lambda (constantLambda "hi"))]) (Sink.empty none) (Blueprint.standard.emptyStore ())
      (rendered (shown "t")).1 = .ok () ∧ (rendered (shown "t")).2.1.text = "hi" ∧
        (rendered (shown oneOffNesting)).1 = .error (.failed (.nestingLimit oneOffNesting 1)) := by
  refine ⟨?_, ?_, ?_, ?_, ?_⟩
  · with_unfolding_all rfl
  · with_unfolding_all rfl
  · with_unfolding_all rfl
  · decide +kernel
  · with_unfolding_all rfl

/-! ### Engines without resolvers -/

variable {e : Engine σ}

/-- Nothing is found, and all lambdas come from the handler of missing values. -/
theorem invokes_of_no_resolvers (none : e.resolvers = []) (hints : e.config.hintsEnabled = false)
    {p : Render.Point σ} {l : Lambda} {input : Option String} {inside : List Segment}
    (h : e.Invokes p l input inside) : ∃ info, e.missing info = .ok (some (.lambda l)) := by
  cases h with
  | @value tag rest found store u _ sees produces =>
    have slot : e.slot? p.instanceId tag = Option.none := by simp only [slot?, hints, Bool.false_and]; rfl
    rw [Sees, slot, filled, Option.map_none, find_of_no_resolvers none] at sees
    cases sees
    cases produces with
    | found value => cases value
    | missing _ given => exact ⟨tag.info, given⟩
    | silent value _ _ => cases value
  | block _ _ sees value _ =>
    rw [Sees, filled, Option.map_none, find_of_no_resolvers none] at sees
    cases sees
    cases value

theorem heedless_of_invokes (all : ∀ p l input inside, e.Invokes p l input inside → l.Heedless ρ input inside)
    (operations : List Operation) (s : Session σ) : e.Heedless ρ operations s := by
  induction operations generalizing s with
  | nil => trivial
  | cons operation rest ih =>
    refine ⟨?_, ih _⟩
    cases operation with
    | render index data limit => exact fun t _ l input inside ⟨_, p, _, invokes⟩ => all p l input inside invokes
    | _ => trivial

end Engine

/-! ### Other names -/

namespace Blueprint

/-- Templates are given other names, in the locators, in all partial tags and in what is asked of the
engine. The engine can be built as before, and whatever is done with it, the same is seen, but for the
names in errors. -/
theorem observations_renamed {b : Blueprint σ} (allows : b.Allows ρ) {locators' : List Locator}
    (locators : List.Forall₂ (Locator.Twins ρ b.config.precompile) b.locators locators') {host : σ}
    {e : Engine σ} {store : Store σ} (built : b.build host = .ok (e, store)) (oneOffs : Nat)
    {operations operations' : List Operation}
    (renames : List.Forall₂ (Operation.Renames ρ) operations operations')
    (heedless : e.Heedless ρ operations ⟨{ store with oneOffs }, []⟩) :
    ∃ store', { b with locators := locators' }.build host = .ok (e, store') ∧
      List.Forall₂ (Observation.Renames ρ) (e.observations operations ⟨{ store with oneOffs }, []⟩)
        (e.observations operations' ⟨{ store' with oneOffs }, []⟩) := by
  rcases (build_renames allows locators host).elim with
    ⟨err, err', fails, _⟩ | ⟨⟨e₁, store₁⟩, ⟨e', store'⟩, built₁, built', rfl, answers, stores⟩
  · rw [fails] at built
    cases built
  · rw [built₁] at built
    cases built
    refine ⟨store', built', ?_⟩
    exact Engine.observations_renames answers ⟨stores.renumber rfl, .nil⟩ renames heedless

def swapped : String → String := Equiv.swap "a" "b"

theorem swapped_a : swapped "a" = "b" := Equiv.swap_apply_left "a" "b"

set_option maxRecDepth 4000 in
theorem source_swapped :
    Source.Renames swapped "\x7b\x7bx\x7d\x7d\x7b\x7b>a\x7d\x7d" "\x7b\x7bx\x7d\x7d\x7b\x7b>b\x7d\x7d" := by
  let d := Delimiters.standard
  let first : Tag.Reading "x\x7d\x7d\x7b\x7b>a\x7d\x7d".toList :=
    ⟨.escaped, ['x'], d, "x\x7d\x7d".toList, "\x7b\x7b>a\x7d\x7d".toList, by decide⟩
  let second : Tag.Reading ">a\x7d\x7d".toList := ⟨.inclusion, ['a'], d, ">a\x7d\x7d".toList, [], by decide⟩
  let bare : Padding := ⟨[], [], [], List.forall_mem_nil _⟩
  have name : String.ofList second.content = "a" := by decide
  have last : Token.Renames swapped d "\x7b\x7b>a\x7d\x7d".toList
      ([] ++ (d.opening ++ (bare.body d (swapped "a") ++ []))) := by
    refine Token.Renames.renamed (r := second) (p := bare) (by decide) rfl rfl (by decide) ?_ ?_
      (.text (by decide))
    · rw [name, swapped_a]
      exact ⟨by decide, by decide, List.forall_mem_singleton.mpr (by decide)⟩
    · rw [name, swapped_a]
      decide
  rw [swapped_a] at last
  have cut : Text.splitAt? d.opening "\x7b\x7bx\x7d\x7d\x7b\x7b>a\x7d\x7d".toList =
      some ([], "x\x7d\x7d\x7b\x7b>a\x7d\x7d".toList) := by decide
  exact Token.Renames.kept (r := first) cut rfl nofun last

/-- A template that includes itself. Its values are missing, and a lambda takes their place. -/
def lavish (locators : List Locator) : Blueprint Unit :=
  { Blueprint.standard with
    config := { Config.standard with hintsEnabled := false }
    builtIn := false
    locators
    missing := fun _ => .ok (some (.lambda (constantLambda "hi"))) }

def circling (name : String) : Locator :=
  .ofTable 0 [(name, .ok ("\x7b\x7bx\x7d\x7d\x7b\x7b>" ++ name ++ "\x7d\x7d"))] [] "circling"

theorem circling_swapped (precompile : Bool) : (circling "a").Twins swapped precompile (circling "b") := by
  refine ⟨fun name => ?_, rfl, fun _ => rfl⟩
  by_cases same : name = "a"
  · subst same
    rw [swapped_a]
    exact .ok (.some source_swapped)
  · have other : swapped name ≠ "b" := fun h => same (Equiv.injective _ (h.trans swapped_a.symm))
    have unknown {known name : String} (apart : name ≠ known) : (circling known).answer name = .ok none := by
      simp only [circling, Locator.ofTable, Locator.tableAnswer, List.lookup_cons,
        beq_eq_false_iff_ne.mpr apart, List.lookup_nil]
    rw [unknown same, unknown other]
    exact .ok .none

theorem observations_renamed_swapped :
    ∃ (e : Engine Unit) (store store' : Store Unit), (lavish [circling "a"]).build () = .ok (e, store) ∧
      (lavish [circling "b"]).build () = .ok (e, store') ∧
      List.Forall₂ (Observation.Renames swapped)
        (e.observations [.get "a", .render 0 .null none] ⟨{ store with oneOffs := 0 }, []⟩)
        (e.observations [.get "b", .render 0 .null none] ⟨{ store' with oneOffs := 0 }, []⟩) := by
  have allows : (lavish [circling "a"]).Allows swapped := by
    refine ⟨Equiv.injective _, Equiv.swap_apply_of_ne_of_ne (by decide) (by decide), nofun, nofun, nofun, ?_, nofun⟩
    exact fun _ _ _ => .ok rfl
  have locators : List.Forall₂ (Locator.Twins swapped false) [circling "a"] [circling "b"] :=
    .cons (circling_swapped false) .nil
  have operations : List.Forall₂ (Operation.Renames swapped) [.get "a", .render 0 .null none]
      [.get (swapped "a"), .render 0 .null none] := .cons (.get "a") (.cons (.render 0 .null none) .nil)
  rw [swapped_a] at operations
  obtain ⟨e, store, built, bare, hints, given⟩ : ∃ e store, (lavish [circling "a"]).build () = .ok (e, store) ∧
      e.resolvers = [] ∧ e.config.hintsEnabled = false ∧
      ∀ info, e.missing info = .ok (some (.lambda (constantLambda "hi"))) :=
    ⟨_, _, rfl, List.mergeSort_nil, rfl, fun _ => rfl⟩
  have heedless : e.Heedless swapped [.get "a", .render 0 .null none] ⟨{ store with oneOffs := 0 }, []⟩ := by
    refine Engine.heedless_of_invokes (fun p l input inside invokes => ?_) _ _
    obtain ⟨info, answer⟩ := Engine.invokes_of_no_resolvers bare hints invokes
    rw [given] at answer
    cases answer
    refine ⟨fun output interpolates => ?_, fun _ _ _ _ _ _ _ => rfl⟩
    obtain ⟨returns, _⟩ := interpolates
    cases returns
    exact Token.nameless_of_text (by decide)
  obtain ⟨store', built', seen⟩ := observations_renamed allows locators built 0 operations heedless
  exact ⟨e, store, store', built, built', seen⟩

end Blueprint

end Logicless
