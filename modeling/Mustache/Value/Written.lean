import Mustache.Document.Json
import Mustache.Value.Basic

/-!
# Values in writing

The document a value stands for, and the text a value is shown as.

## Shape decisions

* **Compound data is written as JSON.** A scalar is shown as it reads, a sequence, a mapping or a
  record as the compact text of its document. One that holds a lambda has no document and is shown
  as nothing.
* **Host objects stand for the data they answer with,** whatever text form they have; only a
  sealed object, which answers with nothing, stands for its text.
-/

namespace Mustache

/-- The text of an object that has no data to be written as. -/
def HostObject.ownText? {α : Type} (o : HostObject α) : Option String :=
  match o.textForm with
  | .byKind => some o.debug
  | .own t => some t
  | .failing => none

namespace Value

/-! ### Documents -/

mutual

/-- The document of a value. -/
def toJson : Value → Except Unwritable Json
  | .null => .ok .null
  | .bool b => .ok (.bool b)
  | .int n => .ok (.whole (.ofInt64 n))
  | .uint n => .ok (.whole (.ofUInt64 n))
  | .float x => .ok (.float x)
  | .text t => .ok (.text t)
  | .seq items => (itemsToJson items).map .array
  | .map entries => (entriesToJson entries).map .object
  | .record r => (entriesToJson r.fields).map .object
  | .object _ o =>
    match o.kind with
    | .record | .map =>
      (o.keys.mapM fun k ↦ memberToJson k (o.member k)).map fun ms ↦ .object ms.flatten
    | .seq => (itemsToJson o.items).map .array
    | .wrapper => innerToJson o.inner?
    | .sealed =>
      match o.ownText? with
      | some t => .ok (.text t)
      | none => .error .noText
  | .lambda _ => .error .lambda
termination_by structural v => v

def itemsToJson : List Value → Except Unwritable (List Json)
  | [] => .ok []
  | v :: items => do
    let j ← v.toJson
    let js ← itemsToJson items
    return j :: js
termination_by structural items => items

def entriesToJson : List (String × Value) → Except Unwritable (List (String × Json))
  | [] => .ok []
  | (k, v) :: entries => do
    let j ← v.toJson
    let js ← entriesToJson entries
    return (k, j) :: js
termination_by structural entries => entries

/-- The member of an object under a key; one that the object does not have leaves none. -/
def memberToJson (k : String) : Option Value → Except Unwritable (List (String × Json))
  | none => .ok []
  | some v => v.toJson.map fun j ↦ [(k, j)]
termination_by structural v => v

/-- The document of what a wrapper holds. -/
def innerToJson : Option Value → Except Unwritable Json
  | none => .ok .null
  | some v => v.toJson
termination_by structural v => v

end

/-! ### Text -/

/-- Floats that are shown have the fewest digits that read back, and never an exponent. -/
def numberStyle : NumberStyle where
  tie := .away
  isPlain _ := true
  marksWhole := false
  signsExponent := false
  nan := "NaN"
  infinity := "inf"
  negativeInfinity := "-inf"

/-- The text of compound data: its document, or nothing when it has none. -/
def compoundText (j : Except Unwritable Json) : String :=
  match j with
  | .ok j => j.write
  | .error _ => ""

mutual

/-- The text a value is shown as; `none` when a host object fails to give it. -/
def shown? : Value → Option String
  | .null => some ""
  | .bool b => some (if b then "true" else "false")
  | .int n => some (toString n.toInt)
  | .uint n => some (toString n.toNat)
  | .float x => some (numberStyle.write x)
  | .text t => some t
  | .seq items => some (compoundText (toJson (.seq items)))
  | .map entries => some (compoundText (toJson (.map entries)))
  | .record r => some (compoundText (toJson (.record r)))
  | .object i o =>
    match o.textForm, o.kind with
    | .own t, _ => some t
    | .failing, _ => none
    | .byKind, .wrapper => innerShown? o.inner?
    | .byKind, .sealed => some o.debug
    | .byKind, _ => some (compoundText (toJson (.object i o)))
  | .lambda _ => some ""
termination_by structural v => v

/-- The text of what a wrapper holds. -/
def innerShown? : Option Value → Option String
  | none => some ""
  | some v => v.shown?
termination_by structural v => v

end

end Value

end Mustache
