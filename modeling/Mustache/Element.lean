import Mustache.Token

/-!
# Elements of a template

The nodes that a template consists of once its sections are matched up.
-/

namespace Mustache

/-- A node of a template. -/
inductive Element
  /-- Text written as it stands. -/
  | text (t : String)
  /-- A value written out, escaped unless `raw`. -/
  | interpolation (name : String) (raw : Bool)
  /-- A section with the line of its open tag. -/
  | block (name : String) (inverted : Bool) (line : Nat) (children : List Element)
  /-- A partial. One that stands alone on its line has the indentation of the line and the rest of
  the line behind the tag. -/
  | inclusion (name : String) (indent : String) (lineEnd? : Option String)

/-- The element of a tag that opens or closes no section, if it leaves one. Every interpolation is
raw where `forceRaw` is set. -/
def Element.ofToken? (forceRaw : Bool) (t : Token) : Option Element :=
  match t.directive with
  | .interpolation name raw => some (.interpolation name (raw || forceRaw))
  | .inclusion name =>
    match t.lineEnd? with
    | some ending =>
      some (.inclusion name (String.ofList t.padding) (some (String.ofList ending)))
    | none => some (.inclusion name "" none)
  | _ => none

end Mustache
