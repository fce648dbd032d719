import Logicless.Error
import Logicless.Text.Record

/-!
# Locators

A locator knows the sources of finitely many templates by name.
-/

namespace Logicless

structure Locator where
  /-- Locators of lower priority are asked first. -/
  priority : Int
  /-- The source of a template, or nothing if the name is unknown. -/
  answer : String → Except Error (Option String)
  /-- All names with a source. -/
  known : List String
  complete : ∀ name source, answer name = .ok (some source) → name ∈ known
  /-- The names that are compiled when an engine is built with `Config.precompile`. -/
  identifiers : List String
  /-- How the locator shows itself in diagnostics. -/
  label : String

namespace Locator

/-- The answers of a table, in which the first entry of a name counts. -/
def tableAnswer (table : List (String × Except Error String)) (name : String) :
    Except Error (Option String) :=
  match table.lookup name with
  | none => .ok none
  | some (.ok source) => .ok (some source)
  | some (.error e) => .error e

theorem mem_of_tableAnswer {table : List (String × Except Error String)} {name source : String}
    (h : tableAnswer table name = .ok (some source)) : name ∈ table.map (·.1) := by
  unfold tableAnswer at h
  split at h
  · simp at h
  · next found =>
    obtain ⟨before, after, split, _⟩ := List.lookup_eq_some_iff.mp found
    simp [split]
  · simp at h

/-- A locator over a table. -/
def ofTable (priority : Int) (table : List (String × Except Error String))
    (identifiers : List String) (label : String) : Locator where
  priority
  answer := tableAnswer table
  known := table.map (·.1)
  complete _ _ := mem_of_tableAnswer
  identifiers
  label

/-- A locator over sources. All its names are compiled in advance, in ascending order. -/
def ofSources (priority : Int) (sources : List (String × String)) : Locator :=
  let sorted := sources.mergeSort fun a b => a.1 ≤ b.1
  ofTable priority (sources.map fun (name, source) => (name, .ok source)) (sorted.map (·.1)) <|
    Text.record "MapTemplateLocator"
      [Text.field "templates" (Text.entries (sorted.map fun (name, source) =>
        (Text.quote name, Text.quote source))),
       Text.field "priority" (toString priority)]

/-- A locator that gives only the sources of the names in `known`. -/
def restricted (priority : Int) (answer : String → Except Error (Option String))
    (known : List String) (label : String) : Locator where
  priority
  answer name :=
    match answer name with
    | .ok (some source) => if name ∈ known then .ok (some source) else .ok none
    | other => other
  known
  complete name source h := by
    split at h
    · split at h
      · assumption
      · simp at h
    · next other => exact absurd h (other source)
  identifiers := []
  label

end Locator

end Logicless
