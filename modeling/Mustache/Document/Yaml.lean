import Mustache.Number.Style
import Mustache.Number.Whole

/-!
# YAML documents

The type of YAML documents, the equality that decides whether two keys of a mapping are the same,
and the text of a key.

## Shape decisions

* **A mapping keeps its entries in the order of their keys' first occurrence** (`ofEntries`): an
  entry whose key is there already changes the value in that place.
* **Keys are compared as data.** The zeros are equal, a NaN equals a NaN, a tag may be written with
  or without its exclamation mark, and the entries of a mapping have no order.
-/

namespace Mustache

/-- A YAML document. -/
inductive Yaml
  | null
  | bool (b : Bool)
  | whole (n : Whole)
  | float (x : Binary64)
  | text (t : String)
  | sequence (items : List Yaml)
  | mapping (entries : List (Yaml × Yaml))
  | tagged (tag : String) (content : Yaml)

instance : Inhabited Yaml := ⟨.null⟩

namespace Yaml

/-- The name of a tag, without the exclamation mark in front unless that is all. -/
def tagName (tag : String) : List Char :=
  match tag.toList with
  | '!' :: c :: rest => c :: rest
  | cs => cs

mutual

/-- Equality of keys. -/
def same : Yaml → Yaml → Bool
  | .null, .null => true
  | .bool a, .bool b => a == b
  | .whole a, .whole b => a == b
  | .float a, .float b => (a.isNaN && b.isNaN) || a.equal b
  | .text a, .text b => a == b
  | .sequence a, .sequence b => sameItems a b
  | .mapping a, .mapping b => a.length == b.length && allBound a b
  | .tagged s a, .tagged t b => tagName s == tagName t && same a b
  | _, _ => false
termination_by structural a => a

def sameItems : List Yaml → List Yaml → Bool
  | [], [] => true
  | a :: as, b :: bs => same a b && sameItems as bs
  | _, _ => false
termination_by structural as => as

/-- Whether every entry of the first mapping is in the second, in whatever place. -/
def allBound : List (Yaml × Yaml) → List (Yaml × Yaml) → Bool
  | [], _ => true
  | (k, v) :: as, bs => (bs.any fun b ↦ same k b.1 && same v b.2) && allBound as bs
termination_by structural as => as

end

/-- The entries with one more. -/
def bind (key value : Yaml) : List (Yaml × Yaml) → List (Yaml × Yaml)
  | [] => [(key, value)]
  | (k, v) :: entries =>
    if same k key then (k, value) :: entries else (k, v) :: bind key value entries

/-- The mapping of entries given one after the other. -/
def ofEntries (entries : List (Yaml × Yaml)) : Yaml :=
  .mapping (entries.foldl (fun bound e ↦ bind e.1 e.2 bound) [])

/-! ### Keys -/

/-- Floats that are keys have the fewest digits that read back and a point, and an exponent from
`10 ^ 16` on and below `10 ^ -5`. -/
def numberStyle : NumberStyle where
  tie := .even
  isPlain e := -5 ≤ e && e < 16
  marksWhole := true
  signsExponent := false
  nan := ".nan"
  infinity := ".inf"
  negativeInfinity := "-.inf"

/-- The text of a key, whatever its tags; a null or compound key has none. -/
def keyText? : Yaml → Option String
  | .text t => some t
  | .bool b => some (if b then "true" else "false")
  | .whole n => some (toString n.val)
  | .float x => some (numberStyle.write x)
  | .tagged _ content => keyText? content
  | _ => none
termination_by structural y => y

end Yaml

end Mustache
