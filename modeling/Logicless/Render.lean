import Logicless.Engine
import Logicless.Value.Text

/-!
# Rendering

`Engine.renderTo` renders a template with data. Segments are executed one after another, and each
writes its part to the sink. A template within a template is executed through `inner`, which
`nestedIn` supplies for as many levels as the nesting limit can allow.
-/

namespace Logicless

/-- `limit` counts bytes. The latest write comes first. -/
structure Sink where
  limit : Option Nat
  writes : List String
deriving Repr

namespace Sink

def empty (limit : Option Nat) : Sink := ⟨limit, []⟩

def text (s : Sink) : String :=
  String.join s.writes.reverse

def byteSize (s : Sink) : Nat :=
  s.writes.foldr (fun t n => t.utf8ByteSize + n) 0

def accepts (s : Sink) (t : String) : Bool :=
  match s.limit with
  | none => true
  | some limit => s.byteSize + t.utf8ByteSize ≤ limit

/-- A refused write leaves nothing behind. -/
def write? (s : Sink) (t : String) : Option Sink :=
  if s.accepts t then some { s with writes := t :: s.writes } else none

end Sink

/-- Why a render stops early. -/
inductive Halt where
  | failed (e : Error)
  /-- The render would go on for ever, or deeper than it may. -/
  | endless
deriving DecidableEq, Repr

namespace Render

structure State (σ : Type) where
  store : Store σ
  context : Context σ
  sink : Sink

end Render

/-- The execution of a part of a template. -/
abbrev Exec (σ α : Type) : Type :=
  Attempt (Render.State σ) Halt α

namespace Exec

variable {σ α : Type}

def fail (e : Error) : Exec σ α :=
  Attempt.fail (.failed e)

def ofExcept (r : Except Error α) : Exec σ α :=
  Attempt.ofExcept (r.mapError .failed)

/-- An attempt on the store alone. -/
def onStore (x : Attempt (Store σ) Error α) : Exec σ α := fun s =>
  let (r, store) := x s.store
  (r.mapError .failed, { s with store })

def write (t : String) : Exec σ Unit := fun s =>
  match s.sink.write? t with
  | some sink => (.ok (), { s with sink })
  | none => (.error (.failed .output), s)

/-- What `x` writes, kept from the sink. -/
def captured (x : Exec σ Unit) : Exec σ String := fun s =>
  let (r, t) := x { s with sink := Sink.empty none }
  (r.map fun _ => t.sink.text, { t with sink := s.sink })

def release (found : Found σ) (s : Render.State σ) : Render.State σ :=
  { s with store := found.release s.store }

def pop (s : Render.State σ) : Render.State σ :=
  let (_, context, store) := s.context.pop s.store
  { s with context, store }

/-- Execute within a scope. The scope is left whether `x` succeeds or not. -/
def withScope (value : Value) (leases : List (Lease σ)) (x : Exec σ α) : Exec σ α := do
  Attempt.update fun s => { s with context := s.context.push value leases }
  Attempt.ensuring x pop

def leave (name : String) (s : Render.State σ) : Render.State σ :=
  { s with context := s.context.leave name }

/-- Execute as part of the template `name`, which is nested within itself `limit` times at most. -/
def nested (limit : Nat) (name : String) (x : Exec σ α) : Exec σ α := do
  match (← Attempt.state).context.enter limit name with
  | .error context => do
    Attempt.update fun s => { s with context }
    fail (.nestingLimit name limit)
  | .ok context => do
    Attempt.update fun s => { s with context }
    Attempt.ensuring x (leave name)

end Exec

namespace Engine

variable {σ : Type} (e : Engine σ)

/-- Look up a key in the scopes of the context. -/
def findHere (parts : List String) (slot : Option Slot) : Exec σ (Found σ) := do
  let s ← Attempt.state
  Exec.onStore (e.find s.context.values parts (slot.map fun slot => s.store.hint? slot))

/-- Write a value, escaped unless the tag or the configuration says otherwise. -/
def writeValue (tag : ValueTag) (text : String) : Exec σ Unit := do
  if tag.unescaped || e.config.skipEscaping then Exec.write text
  else Exec.write (← Exec.ofExcept (e.support text))

/-! ### Lambdas -/

/-- The name under which all templates made of the output of lambdas are nested. -/
def oneOffNesting : String := "oneoff_lambda"

/-- The name of a template made of the output of a lambda. -/
def oneOffName (origin : Origin) (number : Nat) : String :=
  "oneoff_lambda_" ++ origin.template ++ "_" ++ toString origin.line ++ "_" ++ toString number

/-- Compile the output of a lambda. That it does not compile is a failure of the lambda. -/
def compileOneOff (origin : Origin) (tag source : String) : Attempt (Store σ) Error Template := do
  let number := (← Attempt.state).oneOffs
  Attempt.update fun store => { store with oneOffs := number + 1 }
  fun store =>
    match e.compile (oneOffName origin number) source store with
    | (.ok t, store) => (.ok t, store)
    | (.error err, store) => (.error (.lambda tag err.message), store)

/-- Render the output of a lambda in the current context. -/
def renderOneOff (inner : Template → Exec σ Unit) (origin : Origin) (tag source : String) :
    Exec σ Unit := do
  let t ← Exec.onStore (e.compileOneOff origin tag source)
  Exec.nested e.config.nestingLimit oneOffNesting (inner t)

def invoke (l : Lambda) (tag : String) (input : Option String) : Exec σ (Option String) :=
  match l.invoke input with
  | .ok output => pure output
  | .error reason => Exec.fail (.lambda tag reason)

/-! ### Value tags -/

/-- Write what a lambda produces in the place of a value. If it produces no value, do `missing`. -/
def writeLambda (inner : Template → Exec σ Unit) (tag : ValueTag) (missing : Exec σ Unit)
    (l : Lambda) : Exec σ Unit := do
  match ← invoke l tag.text none with
  | none => missing
  | some output =>
    if output.isEmpty then pure ()
    else if l.interpolated then
      let text ← Exec.captured (e.renderOneOff inner tag.origin tag.text output)
      e.writeValue tag text
    else e.writeValue tag output

def writeFound (inner : Template → Exec σ Unit) (tag : ValueTag) (missing : Exec σ Unit) :
    Value → Exec σ Unit
  | .lambda l => e.writeLambda inner tag missing l
  | v => e.writeValue tag v.text

/-- Do what the handler asks for. A lambda it gives in place of the value is its answer again when
that lambda produces no value, and so on for ever. -/
def writeMissing (inner : Template → Exec σ Unit) (tag : ValueTag) : Exec σ Unit := do
  let info : TagInfo := ⟨tag.text, tag.unescaped, tag.origin.line, tag.origin.template⟩
  match ← Exec.ofExcept (e.missing info) with
  | none => pure ()
  | some v =>
    if v.isNull then pure ()
    else e.writeFound inner tag (Attempt.fail .endless) v

/-- The slot of a value tag. Only single names may be hinted. -/
def slot? (e : Engine σ) (instanceId : Nat) (tag : ValueTag) : Option Slot :=
  if e.config.hintsEnabled && tag.parts.length == 1 then some ⟨instanceId, tag.origin.index⟩
  else none

/-- Remember the hint of a lookup. -/
def learnHint (slot : Option Slot) (hint : Option (Hint σ)) (s : Render.State σ) : Render.State σ :=
  match slot, hint with
  | some slot, some hint => { s with store := s.store.learn slot hint }
  | _, _ => s

def runValue (inner : Template → Exec σ Unit) (instanceId : Nat) (tag : ValueTag) : Exec σ Unit := do
  let slot := e.slot? instanceId tag
  let found ← e.findHere tag.parts slot
  let body : Exec σ Unit := do
    match found.value with
    | none => e.writeMissing inner tag
    | some v =>
      if v.isNull then e.writeMissing inner tag
      else
        Attempt.update (learnHint slot found.hint)
        e.writeFound inner tag (e.writeMissing inner tag) v
  Attempt.ensuring body (Exec.release found)

/-! ### Sections -/

/-- Render what a lambda makes of a section. `body` renders the children. -/
def runSectionLambda (inner : Template → Exec σ Unit) (tag : SectionTag) (body : Exec σ Unit)
    (l : Lambda) : Exec σ Unit := do
  let input ← match l.input with
    | .literal => pure tag.content
    | .processed => Exec.captured body
  match ← invoke l tag.text (some input) with
  | none => pure ()
  | some output =>
    if output.isEmpty then pure ()
    else if l.interpolated then e.renderOneOff inner tag.origin tag.text output
    else Exec.write output

/-- Execute once for each element, with the element as the scope. -/
def forEachItem (body : Exec σ Unit) : List Value → Exec σ Unit
  | [] => pure ()
  | item :: items => do
    Exec.withScope item [] body
    forEachItem body items

/-- Render a section. `body` renders the children. The leases of a value that becomes a scope are
released with the scope. -/
def runSection (inner : Template → Exec σ Unit) (tag : SectionTag) (body : Exec σ Unit) :
    Exec σ Unit := do
  let found ← e.findHere tag.parts none
  match found.value with
  | none => Attempt.update (Exec.release found)
  | some v =>
    if v.isFalsy then Attempt.update (Exec.release found)
    else
      match v with
      | .list items => Attempt.ensuring (forEachItem body items) (Exec.release found)
      | .lambda l => Attempt.ensuring (e.runSectionLambda inner tag body l) (Exec.release found)
      | v => Exec.withScope v found.leases body

/-- Render the children of an inverted section if its value is missing or falsy. -/
def runInverted (tag : SectionTag) (body : Exec σ Unit) : Exec σ Unit := do
  let found ← e.findHere tag.parts none
  Attempt.update (Exec.release found)
  if found.value.all (·.isFalsy) then body else pure ()

/-! ### Templates -/

/-- Execute another template in the current context. -/
def runInclusion (inner : Template → Exec σ Unit) (name : String) (origin : Origin) :
    Exec σ Unit := do
  match ← Exec.onStore (e.getTemplate name) with
  | none => Exec.fail (.partialNotFound name origin.template origin.line)
  | some t => Exec.nested e.config.nestingLimit t.name (inner t)

mutual

/-- Execute a segment of the template instance `instanceId`. -/
def run (inner : Template → Exec σ Unit) (instanceId : Nat) : Segment → Exec σ Unit
  | .text s _ => Exec.write s
  | .value tag => e.runValue inner instanceId tag
  | .block tag children =>
    if tag.inverted then e.runInverted tag (runAll inner instanceId children)
    else e.runSection inner tag (runAll inner instanceId children)
  | .inclusion name origin => e.runInclusion inner name origin
  | .comment .. => pure ()

def runAll (inner : Template → Exec σ Unit) (instanceId : Nat) : List Segment → Exec σ Unit
  | [] => pure ()
  | s :: rest => do
    run inner instanceId s
    runAll inner instanceId rest

end

/-- The segments of a template, with at most `depth` further templates within one another. -/
def nestedIn : Nat → Template → Exec σ Unit
  | 0, _ => Attempt.fail .endless
  | depth + 1, t => e.runAll (nestedIn depth) t.instanceId t.segments

/-- The names of the templates that can be included. -/
def templateNames (store : Store σ) : List String :=
  let cached := match store.templates with
    | none => []
    | some shelf => shelf.cache.entries.filterMap fun entry =>
      match entry.value with
      | .own (some t) => some t.name
      | _ => none
  store.locators.flatMap (fun (_, l) => l.known) ++ cached

/-- How many templates can stand within one another: each name, and the output of lambdas, as
often as the limit says. -/
def depthBound (name : String) (store : Store σ) : Nat :=
  e.config.nestingLimit * (name :: oneOffNesting :: templateNames store).length + 1

/-- Execute a template in the current context, with at most `depth` templates within one another. -/
def executeWithin (depth : Nat) (t : Template) : Exec σ Unit :=
  Exec.nested e.config.nestingLimit t.name (e.nestedIn depth t)

/-- Execute a template in the current context. -/
def execute (t : Template) : Exec σ Unit := do
  let s ← Attempt.state
  e.executeWithin (e.depthBound t.name s.store) t

/-- The context that a render of the data starts with. -/
def startContext (data : Value) : Context σ :=
  if data.isNull then Context.empty else Context.empty.push data []

/-- Render a template with data. What was written before a failure stays in the sink. -/
def renderTo (t : Template) (data : Value) (sink : Sink) (store : Store σ) :
    Except Halt Unit × Sink × Store σ :=
  if store.isOpen then
    let (r, s) := e.execute t ⟨store, startContext data, sink⟩
    (r, s.sink, s.context.close s.store)
  else (.error (.failed (.engineUnavailable t.name)), sink, store)

/-- The text that a template renders to. -/
def render (t : Template) (data : Value) (store : Store σ) : Except Halt String × Store σ :=
  let (r, sink, store) := e.renderTo t data (Sink.empty none) store
  (r.map fun _ => sink.text, store)

end Engine

end Logicless
