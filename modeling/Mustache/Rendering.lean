import Mustache.Element.Source
import Mustache.Template
import Mustache.Text.Line

/-!
# Rendering

From the elements of a template and a chain of scopes to a run.

## Shape decisions

* **Every part is rendered with what is left to do behind it** (`Rest`). A run within many levels
  of sections and partials goes on from where it is and not from the outermost level, so an event
  costs the same at every depth.
* **Elements are rendered by recursion on the tree.** What leads out of the tree, a partial or a
  text that a lambda has rendered, is a template compiled on the spot. How to render one of those
  is a parameter (`Reentry`).
* **Depth is bounded from outside.** `renderAt d` allows `d` levels of templates within templates
  and stops when they are used up. A run that is not too deep is the same at every greater depth,
  so the bound is never part of a result.
* **An inverted section renders in the scope it stands in** with its innermost scope entered once
  more, and any other section in the scope of its value.
* **Leniency is decided in three places:** where a name has no value (`valueOf`), and where a
  partial has no provider or cannot be compiled (`renderInclusion`).
-/

namespace Mustache

/-- Runs a script, given what becomes of a text it has rendered. -/
def Script.run (render : String → Run (Except Error String)) : Script → Run String
  | .answer text => pure text
  | .fail text => .fail (.lambdaFailed text)
  | .render text next => do
    let outcome ← render text
    (next outcome).run render

/-- What there is left to do when a part of a template has been rendered. -/
abbrev Rest := Unit → Run Unit

/-- How to render the elements of another template against a chain of scopes. -/
abbrev Reentry := List Element → List Value → Rest → Run Unit

namespace Compiler

/-! ### Values -/

/-- The text of a value before it is escaped. -/
def stringify (c : Compiler) (v : Value) : Except Error String :=
  match c.stringer? with
  | some stringer => (stringer v).mapError .stringifyFailed
  | none =>
    match v.shown? with
    | some t => .ok t
    | none => .error .noText

/-- The value of a name. A name without one is an error where the compiler is strict. -/
def valueOf (c : Compiler) (chain : List Value) (name : String) : Run (Option Value) := do
  let s := Value.lookup chain name
  .report s.notices
  match s.found with
  | .ok v => pure (some v)
  | .error segment => if c.strict then .fail (.missingVariable segment) else pure none

/-- Writes the value of a name. -/
def interpolate (c : Compiler) (chain : List Value) (name : String) (raw : Bool) : Run Unit := do
  match ← c.valueOf chain name with
  | none => pure ()
  | some v =>
    let text ← Run.ofExcept (c.stringify v)
    .writeValue text (if raw then .raw else c.escapeMode)

/-! ### Templates within templates -/

/-- The text of a template rendered where a section stands, or its error. -/
def renderText (c : Compiler) (reenter : Reentry) (chain : List Value) (text : String) :
    Run (Except Error String) :=
  Run.captured do
    let t ← c.compile text
    reenter t.tree.elements chain pure

/-- Writes a lambda's answer for the source of its section. -/
def callLambda (c : Compiler) (reenter : Reentry) (chain : List Value) (name : String)
    (l : Lambda) (source : String) : Run Unit := do
  .notice (.calling name source)
  let answer ← (l.script source).run (c.renderText reenter chain)
  .write answer

/-- The template of a partial, its lines indented. -/
def fetch (c : Compiler) (files : FileTree) (provider : Provider) (name indent : String) :
    Run Template := do
  .notice (.fetching name)
  let fetched := provider.fetch files name
  .report fetched.notices
  let text ← Run.ofExcept (fetched.found.mapError (.partialFailed name))
  c.compile (String.ofList (Text.indent indent.toList text.toList))

/-- Renders a partial. One that cannot be fetched or compiled is left out, or is an error where
the compiler is strict; an error in its rendering is always one. -/
def renderInclusion (c : Compiler) (files : FileTree) (reenter : Reentry) (chain : List Value)
    (name indent : String) (rest : Rest) : Run Unit :=
  match c.provider? with
  | none => if c.strict then .fail (.noProvider name) else .emit (.notice (.unprovided name)) rest
  | some provider => do
    match ← (c.fetch files provider name indent).attempt with
    | .ok t => reenter t.tree.elements chain rest
    | .error e => if c.strict then .fail e else .emit (.notice (.skipped name e)) rest

/-! ### Elements -/

mutual

/-- Renders an element against a chain of scopes. -/
def renderElement (c : Compiler) (files : FileTree) (reenter : Reentry) :
    Element → List Value → Rest → Run Unit
  | .text t, _, rest => .emit (.write t) rest
  | .interpolation name raw, chain, rest => do
    c.interpolate chain name raw
    rest ()
  | .inclusion name indent _, chain, rest => c.renderInclusion files reenter chain name indent rest
  | .block name inverted _ children, chain, rest => do
    let v? ← c.valueOf chain name
    if Value.isEmpty v? != inverted then rest ()
    else if inverted then
      c.renderElements files reenter children (chain.head?.toList ++ chain) rest
    else
      let v := v?.getD .null
      match v.unwrapped with
      | .seq items =>
        Run.each items (fun item ↦ c.renderElements files reenter children (item :: chain)) rest
      | .lambda l => do
        c.callLambda reenter chain name l (Element.sources children)
        rest ()
      | .object _ o =>
        if o.kind = .seq then
          Run.each o.items (fun item ↦ c.renderElements files reenter children (item :: chain)) rest
        else c.renderElements files reenter children (v :: chain) rest
      | _ => c.renderElements files reenter children (v :: chain) rest
termination_by structural e => e

/-- Renders elements one after the other. -/
def renderElements (c : Compiler) (files : FileTree) (reenter : Reentry) :
    List Element → List Value → Rest → Run Unit
  | [], _, rest => rest ()
  | e :: es, chain, rest =>
    c.renderElement files reenter e chain fun _ ↦ c.renderElements files reenter es chain rest
termination_by structural es => es

end

/-- Renders elements with templates nested up to a depth. -/
def renderAt (c : Compiler) (files : FileTree) : Nat → Reentry
  | 0 => fun _ _ _ ↦ .tooDeep
  | depth + 1 => c.renderElements files (c.renderAt files depth)

end Compiler

/-! ### Templates -/

namespace Template

/-- How deep templates may be nested in one another during a rendering. -/
def maxDepth : Nat := 1000000

/-- Renders a template against contexts, which are searched in order. -/
def run (t : Template) (files : FileTree) (contexts : List Value) : Run Unit :=
  t.compiler.renderAt files maxDepth t.tree.elements contexts pure

/-- Renders a template and then a layout in which the result is the value of `content`, in front
of the same contexts. -/
def runInLayout (t layout : Template) (files : FileTree) (contexts : List Value) : Run Unit := do
  let content ← Run.ofExcept (← (t.run files contexts).captured)
  layout.run files (Value.ofEntries [("content", .text content)] :: contexts)

end Template

end Mustache
