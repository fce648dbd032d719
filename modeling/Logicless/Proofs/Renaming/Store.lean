import Logicless.Proofs.Loading
import Logicless.Proofs.Renaming.Cache
import Logicless.Proofs.Renaming.Lookup
import Logicless.Proofs.Renaming.Tree

/-!
# Renaming the templates of a store

Two stores in which templates stand under other names answer requests for them with templates, or
errors, that differ in names alone (`Engine.getTemplate_renames`).
-/

namespace Logicless

variable {σ : Type} {ρ : String → String}

/-- The names of templates that stand for each other. Names of one-off templates are made of those of
the templates that their lambdas stand in. -/
inductive Named (ρ : String → String) : String → String → Prop where
  | template (name : String) : Named ρ name (ρ name)
  | oneOff {o o' : Origin} (within : Named ρ o.template o'.template) (line : o'.line = o.line)
      (number : Nat) : Named ρ (Engine.oneOffName o number) (Engine.oneOffName o' number)

def Error.Unnamed : Error → Prop
  | .lambda .. | .resolver .. | .escaping .. => True
  | .cacheComputation .. | .cacheTypeMismatch .. | .cacheCapacity .. => True
  | .output | .invalidConfiguration .. => True
  | _ => False

inductive Error.Renames (ρ : String → String) : Error → Error → Prop where
  | unnamed {err : Error} (h : err.Unnamed) : Renames ρ err err
  | compilation {name name' : String} (named : Named ρ name name') (line : Nat) (fault : Fault) :
      Renames ρ (.compilation name line fault) (.compilation name' line fault)
  | lambda {err err' : Error} (tag : String) (reason : Renames ρ err err') :
      Renames ρ (.lambda tag err.message) (.lambda tag err'.message)
  | missingValue {name name' : String} (tag : String) (named : Named ρ name name') (line : Nat) :
      Renames ρ (.missingValue tag name line) (.missingValue tag name' line)
  | partialNotFound {template template' : String} (name : String) (named : Named ρ template template')
      (line : Nat) : Renames ρ (.partialNotFound name template line) (.partialNotFound (ρ name) template' line)
  | templateLocation (name reason : String) :
      Renames ρ (.templateLocation name reason) (.templateLocation (ρ name) reason)
  | nestingLimit (name : String) (limit : Nat) :
      Renames ρ (.nestingLimit name limit) (.nestingLimit (ρ name) limit)
  | engineUnavailable (name : String) : Renames ρ (.engineUnavailable name) (.engineUnavailable (ρ name))

theorem Error.Renames.ofSourceFault {name name' : String} (named : Named ρ name name') (f : SourceFault) :
    Error.Renames ρ (.ofSourceFault name f) (.ofSourceFault name' f) :=
  .compilation named f.line f.fault

structure Template.Alike (ρ : String → String) (t t' : Template) : Prop where
  instanceId : t'.instanceId = t.instanceId
  segments : List.Forall₂ (Segment.Renames ρ (Named ρ)) t.segments t'.segments

structure Template.Renames (ρ : String → String) (t t' : Template) : Prop extends t.Alike ρ t' where
  name : t'.name = ρ t.name

/-- The second locator knows under other names what the first one knows. -/
def Locator.Renames (ρ : String → String) (l l' : Locator) : Prop :=
  ∀ name, Correspond (Error.Renames ρ) (Option.Rel (Source.Renames ρ)) (l.answer name) (l'.answer (ρ name))

/-- The stores differ in the names of templates, and their hints fail with no errors about templates.
What locators have been asked for makes no difference. -/
structure Store.Renames (ρ : String → String) (s s' : Store σ) : Prop where
  agrees : s.Agrees s'
  isOpen : s'.isOpen = s.isOpen
  hints : s'.hints = s.hints
  admits : ∀ p ∈ s.hints, p.2.Admits Error.Unnamed
  compiled : s'.compiled = s.compiled
  oneOffs : s'.oneOffs = s.oneOffs
  locators : List.Forall₂ (fun p p' => Locator.Renames ρ p.2 p'.2) s.locators s'.locators
  templates : Option.Rel (Shelf.Renames ρ (Option.Rel (Template.Renames ρ))) s.templates s'.templates
  sources : Option.Rel (Shelf.Renames ρ (Option.Rel (Source.Renames ρ))) s.sources s'.sources

namespace Store.Renames

variable {s s' t t' : Store σ} (h : s.Renames ρ s')

include h

theorem rehost (host : σ) : Renames ρ { s with host } { s' with host } :=
  { h with agrees := ⟨rfl, h.agrees.members, h.agrees.leases, h.agrees.leaseLog⟩ }

/-- Lookups leave the templates alone. -/
theorem undisturbed (same : s.Undisturbed t) (same' : s'.Undisturbed t') (agrees : t.Agrees t') :
    t.Renames ρ t' := by
  refine ⟨agrees, ?_, ?_, same.hints.symm ▸ h.admits, ?_, ?_, ?_, ?_, ?_⟩
  · rw [same.isOpen, same'.isOpen, h.isOpen]
  · rw [same.hints, same'.hints, h.hints]
  · rw [same.compiled, same'.compiled, h.compiled]
  · rw [same.oneOffs, same'.oneOffs, h.oneOffs]
  · rw [same.locators, same'.locators]
    exact h.locators
  · rw [same.templates, same'.templates]
    exact h.templates
  · rw [same.sources, same'.sources]
    exact h.sources

theorem releaseAll (leases : List (Lease σ)) :
    Renames ρ (s.releaseAll leases) (s'.releaseAll leases) :=
  h.undisturbed (undisturbed_releaseAll leases s) (undisturbed_releaseAll leases s')
    (h.agrees.releaseAll leases)

theorem consult (name name' : String) : Renames ρ (s.consult name) (s'.consult name') :=
  { h with agrees := ⟨h.agrees.host, h.agrees.members, h.agrees.leases, h.agrees.leaseLog⟩ }

theorem compiles : Renames ρ { s with compiled := s.compiled + 1 } { s' with compiled := s'.compiled + 1 } :=
  { h with
    agrees := ⟨h.agrees.host, h.agrees.members, h.agrees.leases, h.agrees.leaseLog⟩
    compiled := congrArg (· + 1) h.compiled }

theorem renumber {oneOffs oneOffs' : Nat} (same : oneOffs' = oneOffs) :
    Renames ρ { s with oneOffs } { s' with oneOffs := oneOffs' } :=
  { h with
    agrees := ⟨h.agrees.host, h.agrees.members, h.agrees.leases, h.agrees.leaseLog⟩
    oneOffs := same }

theorem learn (slot : Slot) {hint : Hint σ} (admits : hint.Admits Error.Unnamed) :
    Renames ρ (s.learn slot hint) (s'.learn slot hint) := by
  unfold Store.learn hint?
  rw [h.hints]
  split
  · exact h
  · exact { h with
      agrees := ⟨h.agrees.host, h.agrees.members, h.agrees.leases, h.agrees.leaseLog⟩
      hints := rfl
      admits := List.forall_mem_cons.mpr ⟨admits, h.admits⟩ }

theorem putTemplates {shelf shelf' : Shelf σ String (Option Template)}
    (shelves : Shelf.Renames ρ (Option.Rel (Template.Renames ρ)) shelf shelf') :
    Renames ρ (s.putTemplates shelf) (s'.putTemplates shelf') :=
  { h with
    agrees := ⟨h.agrees.host, h.agrees.members, h.agrees.leases, h.agrees.leaseLog⟩
    templates := .some shelves }

theorem putSources {shelf shelf' : Shelf σ String (Option String)}
    (shelves : Shelf.Renames ρ (Option.Rel (Source.Renames ρ)) shelf shelf') :
    Renames ρ (s.putSources shelf) (s'.putSources shelf') :=
  { h with
    agrees := ⟨h.agrees.host, h.agrees.members, h.agrees.leases, h.agrees.leaseLog⟩
    sources := .some shelves }

end Store.Renames

structure Store.Ends {α : Type} (ρ : String → String) (rel : α → α → Prop)
    (out out' : Except Error α × Store σ) : Prop where
  result : Correspond (Error.Renames ρ) rel out.1 out'.1
  store : out.2.Renames ρ out'.2

theorem Store.Ends.bind {α β : Type} {rel : α → α → Prop} {rel' : β → β → Prop} {s s' : Store σ}
    {x x' : Attempt (Store σ) Error α} {f f' : α → Attempt (Store σ) Error β}
    (hx : Store.Ends ρ rel (x s) (x' s'))
    (hf : ∀ a a' t t', x s = (.ok a, t) → x' s' = (.ok a', t') → rel a a' → t.Renames ρ t' →
      Store.Ends ρ rel' (f a t) (f' a' t')) :
    Store.Ends ρ rel' ((x >>= f) s) ((x' >>= f') s') := by
  rcases ran : x s with ⟨r, t⟩
  rcases ran' : x' s' with ⟨r', t'⟩
  rw [ran, ran'] at hx
  obtain ⟨result, store⟩ := hx
  cases result with
  | error fails =>
    rw [Attempt.bind_of_error ran, Attempt.bind_of_error ran']
    exact ⟨.error fails, store⟩
  | ok same =>
    rw [Attempt.bind_of_ok ran, Attempt.bind_of_ok ran']
    exact hf _ _ t t' ran ran' same store

theorem Locator.answerIn_renames {locators locators' : List (Nat × Locator)}
    (h : List.Forall₂ (fun p p' => Locator.Renames ρ p.2 p'.2) locators locators') (name : String) :
    Correspond (Error.Renames ρ) (Option.Rel (Source.Renames ρ)) (answerIn name locators)
      (answerIn (ρ name) locators') := by
  induction h with
  | nil => exact .ok .none
  | @cons p p' _ _ head _ ih =>
    have answers := head name
    unfold answerIn
    generalize p.2.answer name = r, p'.2.answer (ρ name) = r' at answers ⊢
    cases answers with
    | error fails => exact .error fails
    | ok found =>
      cases found with
      | none => exact ih
      | some source => exact .ok (.some source)

namespace Engine

theorem content_renames (split : KeySplitter) {locators locators' : List (Nat × Locator)}
    (h : List.Forall₂ (fun p p' => Locator.Renames ρ p.2 p'.2) locators locators') (name : String) :
    Correspond (Error.Renames ρ) (Option.Rel (List.Forall₂ (Segment.Renames ρ (Named ρ))))
      (content split locators name) (content split locators' (ρ name)) := by
  have answers := Locator.answerIn_renames h name
  unfold content
  generalize Locator.answerIn name locators = r, Locator.answerIn (ρ name) locators' = r' at answers ⊢
  cases answers with
  | error fails => exact .error fails
  | ok found =>
    cases found with
    | none => exact .ok .none
    | @some source source' sources =>
      have names : Named ρ name (ρ name) := .template name
      have trees := Tree.ofSource_renames split sources names
      simp only
      generalize Tree.ofSource name source split = r, Tree.ofSource (ρ name) source' split = r' at trees ⊢
      cases trees with
      | error same => exact .error (same ▸ .ofSourceFault names _)
      | ok segments => exact .ok (.some segments)

variable (e : Engine σ) {s s' : Store σ} (h : s.Renames ρ s')

include h

/-- The source of a template, with other names in it and under another name. -/
theorem compile_renames (name : String) {source source' : String}
    (sources : Source.Renames ρ source source') :
    Store.Ends ρ (Template.Renames ρ) (e.compile name source s) (e.compile (ρ name) source' s') := by
  have names : Named ρ name (ρ name) := .template name
  rcases (Tree.ofSource_renames e.split sources names).elim with
    ⟨f, f', tree, tree', same⟩ | ⟨segments, segments', tree, tree', alike⟩
  · rw [e.compile_of_fault tree, e.compile_of_fault tree', ← same]
    exact ⟨.error (.ofSourceFault names f), h⟩
  · rw [e.compile_of_ok tree, e.compile_of_ok tree']
    exact ⟨.ok ⟨⟨h.compiled, alike⟩, rfl⟩, h.compiles⟩

/-- The output of a lambda that has no partial tags, in a template of another name. -/
theorem compileOneOff_renames {o o' : Origin} (origin : o.Renames (Named ρ) o') (tag : String)
    {output : String} (nameless : Token.Nameless output) :
    Store.Ends ρ (Template.Alike ρ) (e.compileOneOff o tag output s) (e.compileOneOff o' tag output s') := by
  have names : Named ρ (oneOffName o s.oneOffs) (oneOffName o' s'.oneOffs) := by
    rw [h.oneOffs]
    exact .oneOff origin.template origin.line s.oneOffs
  rcases (Tree.ofSource_nameless e.split nameless names).elim with
    ⟨f, f', tree, tree', same⟩ | ⟨segments, segments', tree, tree', alike⟩
  · rw [e.compileOneOff_of_fault tree, e.compileOneOff_of_fault tree', ← same]
    exact ⟨.error (.lambda tag (.ofSourceFault names f)), h.renumber (congrArg (· + 1) h.oneOffs)⟩
  · rw [e.compileOneOff_of_ok tree, e.compileOneOff_of_ok tree']
    exact ⟨.ok ⟨h.compiled, alike⟩, (h.renumber (congrArg (· + 1) h.oneOffs)).compiles⟩

theorem load_renames (name : String) :
    Store.Ends ρ (Option.Rel (Template.Renames ρ)) (e.load name s) (e.load (ρ name) s') := by
  have consulted := h.consult name (ρ name)
  rcases (content_renames e.split h.locators name).elim with
    ⟨err, err', given, given', fails⟩ | ⟨found, found', given, given', alike⟩
  · rw [e.load_of_error given, e.load_of_error given']
    exact ⟨.error fails, consulted⟩
  · cases alike with
    | none =>
      rw [e.load_of_none given, e.load_of_none given']
      exact ⟨.ok .none, consulted⟩
    | some segments =>
      rw [e.load_of_some given, e.load_of_some given']
      exact ⟨.ok (.some ⟨⟨h.compiled, segments⟩, rfl⟩), consulted.compiles⟩

/-- A request for a template under its other name. -/
theorem getTemplate_renames (injective : Function.Injective ρ) (name : String) :
    Store.Ends ρ (Option.Rel (Template.Renames ρ)) (e.getTemplate name s) (e.getTemplate (ρ name) s') := by
  have shelves := h.templates
  cases on : s.templates with
  | none =>
    rw [on] at shelves
    cases on' : s'.templates with
    | none =>
      rw [e.getTemplate_of_none on, e.getTemplate_of_none on']
      exact e.load_renames h name
    | some shelf' =>
      rw [on'] at shelves
      cases shelves
  | some shelf =>
    rw [on] at shelves
    cases on' : s'.templates with
    | none =>
      rw [on'] at shelves
      cases shelves
    | some shelf' =>
      rw [on'] at shelves
      cases shelves with
      | some shelves =>
        rw [e.getTemplate_of_some on, e.getTemplate_of_some on']
        have hosts {t t' : Store σ} (h : t.Renames ρ t') : t'.host = t.host := h.agrees.host
        have rehost {t t' : Store σ} (host : σ) (h : t.Renames ρ t') :
            Store.Renames ρ { t with host } { t' with host } := h.rehost host
        have loads {t t' : Store σ} (h : t.Renames ρ t') := And.intro (e.load_renames h name).result
          (e.load_renames h name).store
        obtain ⟨results, after, after', t, t', kept, stores, same, same'⟩ :=
          Shelf.fetch_renames injective (fun _ => .unnamed trivial) (fun _ => .unnamed trivial) hosts rehost loads
            Store.putTemplates Store.putTemplates shelves h
        refine ⟨results, ?_⟩
        rw [same, same']
        exact stores.putTemplates kept

end Engine

end Logicless
