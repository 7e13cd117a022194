import Mustache.Options
import Mustache.Rendering

/-!
# Workspaces

A compiler, partials and compiled templates that a series of commands works on, together with the
files they read. Templates are kept by the name of their slot, with the configuration they were
compiled with; later changes to the compiler do not reach them, changes to the files do.
-/

namespace Mustache

/-- The state of a series of commands. -/
structure Workspace where
  compiler : Compiler
  partials : Partials
  filePartials : FilePartials
  files : FileTree
  templates : List (String × Template)

namespace Workspace

/-- The state before the first command. -/
def start : Workspace :=
  ⟨.standard, .empty, .standard, .empty, []⟩

/-- The template in a slot. -/
def template? (w : Workspace) (slot : String) : Option Template :=
  w.templates.lookup slot

/-- Keeps the template of a compilation in a slot; a failed one leaves the slot empty. -/
def keep (w : Workspace) (slot : String) (r : Run Template) : Workspace :=
  let others := w.templates.filter fun e ↦ e.1 != slot
  match r.outcome with
  | .ok t => { w with templates := (slot, t) :: others }
  | .error _ => { w with templates := others }

/-- Compiles a text. -/
def compile (w : Workspace) (text : String) : Run Template :=
  w.compiler.compile text

/-- Compiles a file. -/
def compileFile (w : Workspace) (path : String) : Run Template :=
  w.compiler.compileFile w.files path

/-- Has the compiler take partials from memory, as they are now. -/
def attach (w : Workspace) : Workspace :=
  { w with compiler := w.compiler.withProvider w.partials.provider }

/-- Has the compiler take partials from files. -/
def attachFiles (w : Workspace) : Workspace :=
  { w with compiler := w.compiler.withProvider w.filePartials.provider }

/-- Fetches a partial from the files. -/
def fetchFile (w : Workspace) (name : String) : Fetched :=
  w.filePartials.get w.files name

/-- Renders the template in a slot; `none` when there is none. -/
def render? (w : Workspace) (slot : String) (contexts : List Value) : Option (Run Unit) :=
  (w.template? slot).map fun t ↦ t.run w.files contexts

/-- Renders the template in a slot within the layout in another; `none` when either is empty. -/
def renderInLayout? (w : Workspace) (slot layout : String) (contexts : List Value) :
    Option (Run Unit) := do
  let t ← w.template? slot
  let l ← w.template? layout
  return t.runInLayout l w.files contexts

end Workspace

end Mustache
