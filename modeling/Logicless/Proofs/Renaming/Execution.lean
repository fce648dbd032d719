import Logicless.Proofs.Renaming.Step

/-!
# Executions under other names

A template is executed as it is under another name, with other names in its partial tags
(`Engine.finish_renames`). The lambdas that the execution comes upon must not go by names.
-/

namespace Logicless

open Engine
open Render (Point)

variable {σ α : Type} {ρ : String → String}

/-- The lambda takes no notice of the names of templates when it is invoked with the input, the source or
the text of the segments `inside` a section: its output has no partial tags, and if there are any in
the source, it makes the same of that source with other names. -/
structure Lambda.Heedless (ρ : String → String) (l : Lambda) (input : Option String)
    (inside : List Segment) : Prop where
  output : ∀ output, l.Interpolates input output → Token.Nameless output
  literal : l.input = .literal → (∃ s ∈ inside, s.Includes) → ∀ (d : Delimiters) (source source' : String),
    input = some source → Token.Renames ρ d source.toList source'.toList →
    l.invoke (some source') = l.invoke (some source)

namespace Engine

/-- The output of lambdas keeps its name. The handler of missing values gives the same for templates of
other names, or an error that differs in them, and other code of the host has no errors about templates. -/
structure Allows (e : Engine σ) (ρ : String → String) : Prop where
  injective : Function.Injective ρ
  oneOff : ρ oneOffNesting = oneOffNesting
  resolvers : ∀ r ∈ e.resolvers, r.Admits Error.Unnamed
  support : ∀ text err, e.support text = .error err → err.Unnamed
  missing : ∀ info template, Named ρ info.template template →
    Correspond (Error.Renames ρ) Eq (e.missing info) (e.missing { info with template })

/-- What stands at the point is a value tag, or a section with segments inside, that the lambda is
invoked for with the input. -/
inductive Invokes (e : Engine σ) (p : Point σ) (l : Lambda) : Option String → List Segment → Prop where
  | value {tag : ValueTag} {rest : List Segment} {found : Found σ} {store : Store σ} {u : Render.State σ}
      (stands : p.segments = .value tag :: rest)
      (sees : e.Sees tag.parts (e.slot? p.instanceId tag) p.state found store)
      (produces : e.Produces tag (e.slot? p.instanceId tag) found { p.state with store } l u) :
      Invokes e p l none []
  | block {tag : SectionTag} {children rest : List Segment} {found : Found σ} {store : Store σ}
      {input : String} {u : Render.State σ} (stands : p.segments = .block tag children :: rest)
      (straight : tag.inverted = false) (sees : e.Sees tag.parts none p.state found store)
      (value : found.value = some (.lambda l))
      (given : Given tag (e.runAll (e.nestedIn p.depth) p.instanceId children) l { p.state with store }
        input u) : Invokes e p l (some input) children

def Follows (e : Engine σ) (ρ : String → String) (p : Point σ) : Prop :=
  ∀ segments s, List.Forall₂ (Segment.Renames ρ (Named ρ)) p.segments segments → p.state.Renames ρ s →
    Exec.Ends ρ (e.finish p) (e.finish ⟨p.depth, p.instanceId, segments, s⟩)

section

variable {e : Engine σ} (allows : e.Allows ρ) {s s' : Render.State σ} (h : s.Renames ρ s')

include allows h in
theorem findHere_ends {parts : List String} {slot : Option Slot} {k k' : Found σ → Exec σ α}
    (hk : ∀ found store store', e.Sees parts slot s found store → Resolver.Offers Error.Unnamed found.hint →
      Render.State.Renames ρ { s with store } { s' with store := store' } →
      Exec.Ends ρ (k found { s with store }) (k' found { s' with store := store' })) :
    Exec.Ends ρ ((e.findHere parts slot >>= k) s) ((e.findHere parts slot >>= k') s') := by
  obtain ⟨same, stores⟩ := e.find_renames h parts slot
  obtain ⟨unnamed, offers⟩ := find_unnamed allows.resolvers h.store.admits s.context.values parts slot
  rcases ran : e.find s.context.values parts (filled slot s.store) s.store with ⟨r, store⟩
  rcases ran' : e.find s'.context.values parts (filled slot s'.store) s'.store with ⟨r', store'⟩
  rw [ran, ran'] at same stores
  rw [ran] at unnamed offers
  obtain rfl : r' = r := same
  cases r' with
  | error err =>
    rw [findHere_of_error ran, findHere_of_error ran']
    exact ⟨.error (.failed (.unnamed (unnamed err rfl))), h.withStore stores⟩
  | ok found =>
    rw [findHere_of_ok ran, findHere_of_ok ran']
    exact hk found store store' ran (offers found rfl) (h.withStore stores)

include h in
theorem invoke_ends {l : Lambda} {tag : String} {input input' : Option String}
    {f f' : Option String → Exec σ α} (same : l.invoke input' = l.invoke input)
    (hf : ∀ output, l.invoke input = .ok output → Exec.Ends ρ (f output s) (f' output s')) :
    Exec.Ends ρ ((invoke l tag input >>= f) s) ((invoke l tag input' >>= f') s') := by
  unfold invoke
  rw [same]
  cases returns : l.invoke input with
  | ok output => exact hf output returns
  | error reason => exact ⟨.error (.failed (.unnamed trivial)), h⟩

include allows h in
theorem writeValue_ends {tag tag' : ValueTag} (tags : tag.Renames (Named ρ) tag') (text : String) :
    Exec.Ends ρ (e.writeValue tag text s) (e.writeValue tag' text s') := by
  unfold writeValue
  rw [tags.unescaped]
  split
  · exact .write text h
  · cases escapes : e.support text with
    | ok escaped => exact .write escaped h
    | error err => exact ⟨.error (.failed (.unnamed (allows.support text err escapes))), h⟩

/-! ### Templates within templates -/

include h

/-- The template is entered under both of its names. -/
theorem inner_ends {depth : Nat} {t t' : Template} (alike : t.Alike ρ t')
    (follows : ∀ d, depth = d + 1 → e.Follows ρ ⟨d, t.instanceId, t.segments, s⟩) :
    Exec.Ends ρ (e.nestedIn depth t s) (e.nestedIn depth t' s') := by
  cases depth with
  | zero => exact .endless h
  | succ depth =>
    rw [nestedIn, nestedIn, alike.instanceId]
    exact follows depth rfl t'.segments s' alike.segments h

include allows

theorem renderOneOff_ends {depth : Nat} {o o' : Origin} (origin : o.Renames (Named ρ) o') {tag output : String}
    (nameless : Token.Nameless output)
    (follows : ∀ d t store, depth = d + 1 → e.EntersOutput o tag output s t store →
      e.Follows ρ (entry d t oneOffNesting { s with store })) :
    Exec.Ends ρ (e.renderOneOff (e.nestedIn depth) o tag output s)
      (e.renderOneOff (e.nestedIn depth) o' tag output s') := by
  have compiles := e.compileOneOff_renames h.store origin tag nameless
  refine Exec.Ends.onStore h compiles fun t t' store store' compiled alike related => ?_
  have entered := related.context.entered allows.injective oneOffNesting
  have nested := Exec.Ends.nested e.config.nestingLimit oneOffNesting related
    ((e.nestedIn_kept depth).template t) ((e.nestedIn_kept depth).template t') fun room =>
      inner_ends (related.withContext entered) alike fun d same =>
        follows d t store same ⟨compiled, room⟩
  rwa [allows.oneOff] at nested

/-! ### Value tags -/

section

variable {depth id : Nat} {tag tag' : ValueTag} (tags : tag.Renames (Named ρ) tag')

include tags

theorem writeLambda_ends {missing missing' : Exec σ Unit} {l : Lambda} (heedless : l.Heedless ρ none [])
    (hmissing : l.invoke none = .ok none → Exec.Ends ρ (missing s) (missing' s'))
    (follows : ∀ d output t store, depth = d + 1 → l.Interpolates none output →
      e.EntersOutput tag.origin tag.text output s t store →
      e.Follows ρ (entry d t oneOffNesting { s with store, sink := Sink.empty none })) :
    Exec.Ends ρ (e.writeLambda (e.nestedIn depth) tag missing l s)
      (e.writeLambda (e.nestedIn depth) tag' missing' l s') := by
  unfold writeLambda
  rw [tags.text]
  refine invoke_ends h rfl fun output returns => ?_
  cases output with
  | none => exact hmissing returns
  | some output =>
    simp only
    cases empty : output.isEmpty with
    | true => exact .pure () h
    | false =>
      cases interpolated : l.interpolated with
      | false => exact writeValue_ends allows h tags output
      | true =>
        have interpolates : l.Interpolates none output := ⟨returns, empty, interpolated⟩
        refine (Exec.Ends.captured h ?_).bind fun text t t' _ related =>
          writeValue_ends allows related tags text
        exact renderOneOff_ends allows (h.withSink (Sink.empty none)) tags.origin
          (heedless.output output interpolates) fun d t store same enters =>
            follows d output t store same interpolates ⟨enters.compiled, enters.room⟩

theorem writeFound_ends {missing missing' : Exec σ Unit} (v : Value)
    (heedless : ∀ l, v = .lambda l → l.Heedless ρ none [])
    (hmissing : ∀ l, v = .lambda l → l.invoke none = .ok none → Exec.Ends ρ (missing s) (missing' s'))
    (follows : ∀ l d output t store, v = .lambda l → depth = d + 1 → l.Interpolates none output →
      e.EntersOutput tag.origin tag.text output s t store →
      e.Follows ρ (entry d t oneOffNesting { s with store, sink := Sink.empty none })) :
    Exec.Ends ρ (e.writeFound (e.nestedIn depth) tag missing v s)
      (e.writeFound (e.nestedIn depth) tag' missing' v s') := by
  cases v with
  | lambda l =>
    exact writeLambda_ends allows h tags (heedless l rfl) (hmissing l rfl) fun d output t store =>
      follows l d output t store rfl
  | _ => exact writeValue_ends allows h tags _

theorem writeMissing_ends
    (heedless : ∀ l, e.missing tag.info = .ok (some (.lambda l)) → l.Heedless ρ none [])
    (follows : ∀ l d output t store, e.missing tag.info = .ok (some (.lambda l)) → depth = d + 1 →
      l.Interpolates none output → e.EntersOutput tag.origin tag.text output s t store →
      e.Follows ρ (entry d t oneOffNesting { s with store, sink := Sink.empty none })) :
    Exec.Ends ρ (e.writeMissing (e.nestedIn depth) tag s) (e.writeMissing (e.nestedIn depth) tag' s') := by
  have answers := allows.missing tag.info tag'.origin.template tags.origin.template
  have info : tag'.info = { tag.info with template := tag'.origin.template } := by
    simp only [ValueTag.info, tags.text, tags.unescaped, tags.origin.line]
  rw [← info] at answers
  unfold writeMissing
  change Exec.Ends ρ ((Exec.ofExcept (e.missing tag.info) >>= _) s)
    ((Exec.ofExcept (e.missing tag'.info) >>= _) s')
  rcases answers.elim with ⟨err, err', given, given', fails⟩ | ⟨answer, answer', given, given', rfl⟩
  · rw [given, given']
    exact ⟨.error (.failed fails), h⟩
  · rw [given] at heedless follows
    rw [given, given']
    cases answer with
    | none => exact .pure () h
    | some v =>
      let written (tag : ValueTag) : Exec σ Unit :=
        if v.isNull then pure () else e.writeFound (e.nestedIn depth) tag (Attempt.fail .endless) v
      change Exec.Ends ρ (written tag s) (written tag' s')
      unfold written
      split
      · exact .pure () h
      · refine writeFound_ends allows h tags v (fun l same => heedless l (by rw [same])) ?_ ?_
        · exact fun _ _ _ => .endless h
        · exact fun l d output t store same => follows l d output t store (by rw [same])

theorem runValue_ends {rest : List Segment}
    (sub : ∀ q, e.Step true ⟨depth, id, .value tag :: rest, s⟩ q → e.Follows ρ q)
    (heedless : ∀ l input inside, e.Invokes ⟨depth, id, .value tag :: rest, s⟩ l input inside →
      l.Heedless ρ input inside) :
    Exec.Ends ρ (e.runValue (e.nestedIn depth) id tag s) (e.runValue (e.nestedIn depth) id tag' s') := by
  have slots : e.slot? id tag' = e.slot? id tag := by simp only [slot?, tags.parts, tags.origin.index]
  unfold runValue
  simp only
  rw [tags.parts, slots]
  refine findHere_ends allows h fun found store store' sees offers related => Exec.Ends.ensuring ?_ found
  have follows {l : Lambda} {u : Render.State σ}
      (produces : e.Produces tag (e.slot? id tag) found { s with store } l u) (d : Nat) (output : String)
      (t : Template) (store'' : Store σ) (deeper : depth = d + 1) (interpolates : l.Interpolates none output)
      (enters : e.EntersOutput tag.origin tag.text output u t store'') :
      e.Follows ρ (entry d t oneOffNesting { u with store := store'', sink := Sink.empty none }) := by
    subst deeper
    exact sub _ (.value sees produces interpolates enters)
  have invoked {l : Lambda} {u : Render.State σ}
      (produces : e.Produces tag (e.slot? id tag) found { s with store } l u) : l.Heedless ρ none [] :=
    heedless l none [] (.value rfl sees produces)
  have unfound (value : found.isNull = true) :
      Exec.Ends ρ (e.writeMissing (e.nestedIn depth) tag { s with store })
        (e.writeMissing (e.nestedIn depth) tag' { s' with store := store' }) :=
    writeMissing_ends allows related tags (fun l given => invoked (.missing value given))
      fun l d output t store'' given => follows (.missing value given) d output t store''
  cases value : found.value with
  | none => exact unfound (by rw [Found.isNull, value])
  | some v =>
    simp only
    cases null : v.isNull with
    | true => exact unfound (by rw [Found.isNull, value]; exact null)
    | false =>
      have learned := related.learnHint (e.slot? id tag) offers
      refine writeFound_ends allows learned tags v (fun l same => ?_) (fun l same silent => ?_)
        fun l d output t store'' same => follows (.found (value.trans (congrArg some same))) d output t store''
      · exact invoked (.found (value.trans (congrArg some same)))
      · have value := value.trans (congrArg some same)
        exact writeMissing_ends allows learned tags (fun l' given => invoked (.silent value silent given))
          fun l' d output t store'' given => follows (.silent value silent given) d output t store''

end

/-! ### Sections -/

section

variable {depth id : Nat} {tag tag' : SectionTag} (tags : tag.Renames ρ (Named ρ) tag')
  {children children' rest : List Segment}
  (inside : List.Forall₂ (Segment.Renames ρ (Named ρ)) children children')

include tags

/-- The lambda gives the same for both inputs. -/
theorem sectionOutput_ends {l : Lambda} {input input' : String} (heedless : l.Heedless ρ (some input) children)
    (same : l.invoke (some input') = l.invoke (some input))
    (follows : ∀ d output t store, depth = d + 1 → l.Interpolates (some input) output →
      e.EntersOutput tag.origin tag.text output s t store →
      e.Follows ρ (entry d t oneOffNesting { s with store })) :
    Exec.Ends ρ (e.sectionOutput (e.nestedIn depth) tag l input s)
      (e.sectionOutput (e.nestedIn depth) tag' l input' s') := by
  unfold sectionOutput
  rw [tags.text]
  refine invoke_ends h same fun output returns => ?_
  cases output with
  | none => exact .pure () h
  | some output =>
    simp only
    cases empty : output.isEmpty with
    | true => exact .pure () h
    | false =>
      cases interpolated : l.interpolated with
      | false => exact .write output h
      | true =>
        have interpolates : l.Interpolates (some input) output := ⟨returns, empty, interpolated⟩
        exact renderOneOff_ends allows h tags.origin (heedless.output output interpolates)
          fun d t store same => follows d output t store same interpolates

include inside

variable (sub : ∀ q, e.Step true ⟨depth, id, .block tag children :: rest, s⟩ q → e.Follows ρ q)

include sub

omit h in
theorem runSectionLambda_ends {found : Found σ} {store store' : Store σ} {l : Lambda}
    (plain : (∀ child ∈ children, ¬ child.Includes) → tag'.content = tag.content)
    (straight : tag.inverted = false) (sees : e.Sees tag.parts none s found store)
    (value : found.value = some (.lambda l))
    (heedless : ∀ input u, Given tag (e.runAll (e.nestedIn depth) id children) l { s with store } input u →
      l.Heedless ρ (some input) children)
    (related : Render.State.Renames ρ { s with store } { s' with store := store' }) :
    Exec.Ends ρ
      (e.runSectionLambda (e.nestedIn depth) tag (e.runAll (e.nestedIn depth) id children) l { s with store })
      (e.runSectionLambda (e.nestedIn depth) tag' (e.runAll (e.nestedIn depth) id children') l
        { s' with store := store' }) := by
  have follows {input : String} {u : Render.State σ}
      (given : Given tag (e.runAll (e.nestedIn depth) id children) l { s with store } input u) (d : Nat)
      (output : String) (t : Template) (store'' : Store σ) (deeper : depth = d + 1)
      (interpolates : l.Interpolates (some input) output)
      (enters : e.EntersOutput tag.origin tag.text output u t store'') :
      e.Follows ρ (entry d t oneOffNesting { u with store := store'' }) := by
    subst deeper
    exact sub _ (.output straight sees value given interpolates enters)
  cases kind : l.input with
  | literal =>
    rw [runSectionLambda_of_literal kind, runSectionLambda_of_literal kind]
    have heedless := heedless _ _ (.literal kind)
    refine sectionOutput_ends allows related tags heedless ?_ (follows (.literal kind))
    by_cases includes : ∃ s ∈ children, s.Includes
    · obtain ⟨d, sources⟩ := tags.content
      exact heedless.literal kind includes d _ _ rfl sources
    · rw [plain fun child member inside => includes ⟨child, member, inside⟩]
  | processed =>
    rw [runSectionLambda_of_processed kind, runSectionLambda_of_processed kind]
    have body := sub _ (.input straight sees value kind) children' _ inside (related.withSink (Sink.empty none))
    exact (Exec.Ends.captured related body).bind fun text u u' ran related =>
      sectionOutput_ends allows related tags (heedless text u (.processed kind ran)) rfl
        (follows (.processed kind ran))

omit allows h tags in
/-- The elements `after` of a list, when those `before` have been done. -/
theorem forEachItem_ends {found : Found σ} {store : Store σ} (before : List Value) {after : List Value}
    {t t' : Render.State σ} (straight : tag.inverted = false) (sees : e.Sees tag.parts none s found store)
    (value : found.value = some (.list (before ++ after)))
    (ran : forEachItem (e.runAll (e.nestedIn depth) id children) before { s with store } = (.ok (), t))
    (related : t.Renames ρ t') :
    Exec.Ends ρ (forEachItem (e.runAll (e.nestedIn depth) id children) after t)
      (forEachItem (e.runAll (e.nestedIn depth) id children') after t') := by
  induction after generalizing before t t' with
  | nil => exact .pure () related
  | cons item after ih =>
    let body : Exec σ Unit := e.runAll (e.nestedIn depth) id children
    have entered := related.withContext (related.context.push item [])
    have one := Exec.Ends.withScope item [] (sub _ (.item straight sees value ran) children' _ inside entered)
    refine one.bind fun _ u u' done related => ?_
    have further : forEachItem body (before ++ [item]) { s with store } = (.ok (), u) := by
      rw [forEachItem_append, Attempt.bind_of_ok ran, forEachItem, Attempt.bind_of_ok done]
      rfl
    have value : found.value = some (.list ((before ++ [item]) ++ after)) := by
      rw [value, List.append_assoc, List.singleton_append]
    exact ih _ value further related

theorem runSection_ends (plain : (∀ child ∈ children, ¬ child.Includes) → tag'.content = tag.content)
    (straight : tag.inverted = false)
    (heedless : ∀ l input inside, e.Invokes ⟨depth, id, .block tag children :: rest, s⟩ l input inside →
      l.Heedless ρ input inside) :
    Exec.Ends ρ (e.runSection (e.nestedIn depth) tag (e.runAll (e.nestedIn depth) id children) s)
      (e.runSection (e.nestedIn depth) tag' (e.runAll (e.nestedIn depth) id children') s') := by
  unfold runSection
  rw [tags.parts]
  refine findHere_ends allows h fun found store store' sees _ related => ?_
  have skipped : Exec.Ends ρ ((Attempt.update (Exec.release found) : Exec σ Unit) { s with store })
      ((Attempt.update (Exec.release found) : Exec σ Unit) { s' with store := store' }) :=
    ⟨.ok rfl, related.release found⟩
  cases value : found.value with
  | none => exact skipped
  | some v =>
    simp only
    cases falsy : v.isFalsy with
    | true => exact skipped
    | false =>
      have within (scope : (∀ items, v ≠ .list items) ∧ ∀ l, v ≠ .lambda l) :
          Exec.Ends ρ
            (Exec.withScope v found.leases (e.runAll (e.nestedIn depth) id children) { s with store })
            (Exec.withScope v found.leases (e.runAll (e.nestedIn depth) id children')
              { s' with store := store' }) :=
        Exec.Ends.withScope v found.leases (sub _ (.scope straight sees value falsy scope) children' _ inside
          (related.withContext (related.context.push v found.leases)))
      cases v with
      | list items =>
        exact (forEachItem_ends inside sub [] straight sees value rfl related).ensuring found
      | lambda l =>
        exact (runSectionLambda_ends allows tags inside sub plain straight sees value
          (fun input u given => heedless l _ _ (.block rfl straight sees value given)) related).ensuring
            found
      | _ => exact within ⟨nofun, nofun⟩

theorem runInverted_ends (inverted : tag.inverted = true) :
    Exec.Ends ρ (e.runInverted tag (e.runAll (e.nestedIn depth) id children) s)
      (e.runInverted tag' (e.runAll (e.nestedIn depth) id children') s') := by
  unfold runInverted
  rw [tags.parts]
  refine findHere_ends allows h fun found store store' sees _ related => ?_
  let rest (children : List Segment) : Exec σ Unit :=
    if found.value.all (·.isFalsy) then e.runAll (e.nestedIn depth) id children else pure ()
  change Exec.Ends ρ (rest children (Exec.release found { s with store }))
    (rest children' (Exec.release found { s' with store := store' }))
  unfold rest
  by_cases falsy : found.value.all (·.isFalsy) = true
  · rw [if_pos falsy, if_pos falsy]
    exact sub _ (.inverted inverted sees falsy) children' _ inside (related.release found)
  · rw [if_neg falsy, if_neg falsy]
    exact .pure () (related.release found)

end

/-! ### Templates -/

theorem runInclusion_ends {depth id : Nat} (name : String) {o o' : Origin} (origin : o.Renames (Named ρ) o')
    {rest : List Segment}
    (sub : ∀ q, e.Step true ⟨depth, id, .inclusion name o :: rest, s⟩ q → e.Follows ρ q) :
    Exec.Ends ρ (e.runInclusion (e.nestedIn depth) name o s)
      (e.runInclusion (e.nestedIn depth) (ρ name) o' s') := by
  have gets := e.getTemplate_renames h.store allows.injective name
  refine Exec.Ends.onStore h gets fun found found' store store' got alike related => ?_
  cases alike with
  | none =>
    rw [origin.line]
    exact Exec.Ends.fail (.partialNotFound name origin.template o.line) related
  | @some t t' alike =>
    have entered := related.context.entered allows.injective t.name
    have nested := Exec.Ends.nested e.config.nestingLimit t.name related
      ((e.nestedIn_kept depth).template t) ((e.nestedIn_kept depth).template t') fun room =>
        inner_ends (related.withContext entered) alike.toAlike fun d same => by
          subst same
          exact sub _ (.inclusion got room)
    rwa [← alike.name] at nested

end

/-- The execution from a point on, when no lambda that it comes upon goes by names. -/
theorem finish_renames {e : Engine σ} (allows : e.Allows ρ) (p : Point σ)
    (heedless : ∀ q l input inside, e.Reaches true p q → e.Invokes q l input inside →
      l.Heedless ρ input inside) :
    e.Follows ρ p := by
  -- The induction is on the points that the execution gets to.
  induction p using Point.induction e true with | _ p ih => ?_
  have sub (q : Point σ) (step : e.Step true p q) : e.Follows ρ q :=
    ih q step fun q' l input inside reaches => heedless q' l input inside (.head step reaches)
  have here (l : Lambda) (input : Option String) (inside : List Segment)
      (invokes : e.Invokes p l input inside) : l.Heedless ρ input inside :=
    heedless p l input inside .refl invokes
  obtain ⟨depth, id, segments, s⟩ := p
  intro segments' s' alike h
  cases alike with
  | nil => exact .pure () h
  | @cons segment segment' rest rest' first others =>
    have one : Exec.Ends ρ (e.run (e.nestedIn depth) id segment s)
        (e.run (e.nestedIn depth) id segment' s') := by
      cases first with
      | text literal _ => exact .write literal h
      | value tags => exact runValue_ends allows h tags sub here
      | @block tag tag' children children' tags inside plain =>
        simp only [run, tags.inverted]
        cases kind : tag.inverted with
        | true => exact runInverted_ends allows h tags inside sub kind
        | false => exact runSection_ends allows h tags inside sub plain kind here
      | inclusion name origin => exact runInclusion_ends allows h name origin sub
      | comment _ _ => exact .pure () h
    exact one.bind fun _ t t' ran related => sub _ (.next ran) rest' t' others related

end Engine

end Logicless
