import Mustache.Compiler
import Mustache.Run
import Mustache.Tag

/-!
# Templates

Compiling a text to a template, and what can be asked of a template besides rendering it.
-/

namespace Mustache

/-- A compiled template and the configuration it was compiled with. -/
structure Template where
  tree : Tree
  compiler : Compiler

namespace Compiler

/-- The tree of a text; in raw mode every interpolation is raw. -/
def parse (c : Compiler) (text : String) : Except Malformed Tree :=
  Tree.ofText (c.escapeMode == .raw) text

/-- Compiles a text. -/
def compile (c : Compiler) (text : String) : Run Template := do
  let tree ← Run.ofExcept ((c.parse text).mapError .malformed)
  .notice (.compiled tree)
  return ⟨tree, c⟩

/-- Compiles the file at a path. -/
def compileFile (c : Compiler) (files : FileTree) (path : String) : Run Template := do
  let text ← Run.ofExcept ((files.readText path).mapError .io)
  c.compile text

end Compiler

namespace Template

/-- The tags of a template. -/
def tags (t : Template) : List Tag :=
  Tag.ofElements t.tree.elements

/-- The delimiters in effect at the end of a template. -/
def delimiters (t : Template) : Delimiters :=
  t.tree.delimiters

end Template

end Mustache
