import Mustache.Rendering
import Mustache.Value.Capture

/-!
# Templates that produce JSON

Templates whose values are written as JSON, so that a name in place of a value gives a valid
document.
-/

namespace Mustache.Template

/-- Compiles a template that produces JSON. -/
def json (text : String) : Run Template :=
  Compiler.json.compile text

/-- Renders a template that produces JSON against host data; a name without a value is an
error. -/
def runJson (text : String) (data : Datum) : Run Unit := do
  let t ← (Compiler.json.withStrict true).compile text
  let v ← Run.ofExcept ((Value.capture data).mapError .captureFailed)
  t.run .empty [v]

end Mustache.Template
