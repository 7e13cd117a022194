import Mustache.Value.Written

/-!
# Host data in the making

Host data as it describes itself, piece by piece, before it is captured as a value: more kinds of
data than there are values, and mappings that are a run of steps.

A value describes itself too (`Datum.ofValue`), which is how data can hold values.
-/

namespace Mustache

/-- A step in the description of a mapping. -/
inductive MapStep (α : Type)
  /-- A key and its value. -/
  | entry (key value : α)
  /-- A key; its value comes later. -/
  | key (key : α)
  /-- The value of the latest key. -/
  | value (value : α)
  deriving Inhabited

/-- Host data as it describes itself. -/
inductive Datum
  /-- Nothing: unit or an absent optional. -/
  | unit
  | bool (b : Bool)
  | int (n : Int64)
  | uint (n : UInt64)
  /-- An integer of a type that is wider than any value. -/
  | wide (type : String)
  | float (x : Binary64)
  | text (t : String)
  | bytes (bs : List UInt8)
  /-- An optional that is present, or a type made of one other. -/
  | just (content : Datum)
  | record (name : String) (fields : List (String × Datum))
  /-- One alternative of a choice, with the data it carries. -/
  | variant (name : String) (content : Datum)
  | sequence (items : List Datum)
  | mapping (steps : List (MapStep Datum))
  /-- Data that fails to describe itself. -/
  | failing (cause : CaptureError)

instance : Inhabited Datum := ⟨.unit⟩

namespace Datum

/-- A character describes itself as the text of it alone. -/
def character (c : Char) : Datum :=
  .text (String.singleton c)

/-- An alternative that carries no data describes itself as its name. -/
def bareVariant (name : String) : Datum :=
  .text name

mutual

/-- The description of a value. Records are described as mappings. -/
def ofValue : Value → Datum
  | .null => .unit
  | .bool b => .bool b
  | .int n => .int n
  | .uint n => .uint n
  | .float x => .float x
  | .text t => .text t
  | .seq items => .sequence (ofItems items)
  | .map entries => .mapping (ofEntries entries)
  | .record r => .mapping (ofEntries r.fields)
  | .object _ o =>
    match o.kind with
    | .record | .map => .mapping (o.keys.flatMap fun k ↦ ofMember k (o.member k))
    | .seq => .sequence (ofItems o.items)
    | .wrapper => ofInner o.inner?
    | .sealed =>
      match o.ownText? with
      | some t => .text t
      | none => .failing (.unwritable .noText)
  | .lambda _ => .failing (.unwritable .lambda)
termination_by structural v => v

def ofItems : List Value → List Datum
  | [] => []
  | v :: items => ofValue v :: ofItems items
termination_by structural items => items

def ofEntries : List (String × Value) → List (MapStep Datum)
  | [] => []
  | (k, v) :: entries => .entry (.text k) (ofValue v) :: ofEntries entries
termination_by structural entries => entries

/-- The step for the member of an object; one that the object does not have leaves none. -/
def ofMember (k : String) : Option Value → List (MapStep Datum)
  | none => []
  | some v => [.entry (.text k) (ofValue v)]
termination_by structural v => v

/-- The description of what a wrapper holds. -/
def ofInner : Option Value → Datum
  | none => .unit
  | some v => ofValue v
termination_by structural v => v

end

end Datum

end Mustache
