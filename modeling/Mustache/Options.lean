import Mustache.Compiler
import Mustache.Document.Json

/-!
# Options

The part of a compiler's configuration that can be kept in a document.
-/

namespace Mustache

/-- The stringers that have a name. -/
inductive NamedStringer
  | standard
  | json
  deriving DecidableEq, Repr

namespace NamedStringer

def name : NamedStringer → String
  | standard => "default"
  | json => "json"

/-- The stringer of this name. -/
def ofName? (s : String) : Option NamedStringer :=
  [standard, json].find? fun stringer ↦ stringer.name == s

end NamedStringer

/-- The settings of a compiler that a document can hold. -/
structure Options where
  escapeMode : EscapeMode
  stringer : NamedStringer
  strict : Bool
  deriving DecidableEq, Repr

namespace Options

/-- The settings where a document has none. -/
def standard : Options :=
  ⟨.html, .standard, false⟩

/-- A choice by its name: a text, or an object whose only member has that name and no content. -/
def choice? {α : Type} (ofName? : String → Option α) : Json → Option α
  | .text t => ofName? t
  | .object [(name, .null)] => ofName? name
  | _ => none

def flag? : Json → Option Bool
  | .bool b => some b
  | _ => none

/-- A setting that may be absent. -/
def setting? {α : Type} (read? : Json → Option α) (standard : α) : Option Json → Option α
  | none => some standard
  | some j => read? j

/-- The settings of an object by name, or of an array in their order. Members of other names are
passed over, further items are not. -/
def ofJson? : Json → Option Options
  | .object members => do
    let escapeMode ← setting? (choice? EscapeMode.ofName?) .html (members.lookup "escape_mode")
    let stringer ← setting? (choice? NamedStringer.ofName?) .standard (members.lookup "stringifier")
    let strict ← setting? flag? false (members.lookup "error_on_missing")
    return ⟨escapeMode, stringer, strict⟩
  | .array items => do
    let escapeMode ← setting? (choice? EscapeMode.ofName?) .html items[0]?
    let stringer ← setting? (choice? NamedStringer.ofName?) .standard items[1]?
    let strict ← setting? flag? false items[2]?
    if items.length ≤ 3 then return ⟨escapeMode, stringer, strict⟩ else none
  | _ => none

/-- The document of settings. -/
def toJson (o : Options) : Json :=
  .object [("escape_mode", .text o.escapeMode.name), ("stringifier", .text o.stringer.name),
    ("error_on_missing", .bool o.strict)]

/-- A compiler with these settings. -/
def compiler (o : Options) : Compiler :=
  let c := (Compiler.standard.withEscapeMode o.escapeMode).withStrict o.strict
  match o.stringer with
  | .standard => c
  | .json => c.withStringer .json

end Options

end Mustache
