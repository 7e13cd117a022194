import Mustache.Entries
import Mustache.Error
import Mustache.Number.Binary64

/-!
# Values

Host data as the renderer sees it: plain data, records, host objects that answer questions about
themselves, and lambdas.

## Shape decisions

* **A host object is what it answers.** `HostObject` holds the answer to every question the
  renderer can ask, as functions of a name where a name is asked for. All of them may be given
  whatever the object's kind is; the kind decides which are looked at.
* **What an object answers is smaller than the object.** So objects that answer with objects end
  somewhere, and a definition or a proof may go down the answers. An object that answers with
  another of its kind without end is no value here; what stands for it is one that gives the same
  answers as deep as a rendering asks, and one that ends asks finitely many questions.
* **A lambda is a script.** Given the source of its section a lambda answers, fails, or has a text
  rendered and goes on with the outcome. A script can hold any such behaviour and no effect.
* **Objects and lambdas are told apart by identity,** a number; a copy has the identity of what it
  is a copy of.
* **A mapping is a list of entries** in the order of their keys, as `Value.ofEntries` builds it.
-/

namespace Mustache

/-- What a lambda does. -/
inductive Script
  /-- It gives the text that stands for its section. -/
  | answer (text : String)
  /-- It fails. -/
  | fail (text : String)
  /-- It has a text rendered where its section stands, and goes on with the outcome. -/
  | render (text : String) (next : Except Error String → Script)

/-- A section in code. -/
structure Lambda where
  identity : Nat
  /-- What it does for the source of its section. -/
  script : String → Script

/-- What a host object is to name resolution and to sections. -/
inductive ObjectKind
  /-- Its members are looked up by name. -/
  | record
  /-- Its keys are looked up by name. -/
  | map
  /-- Its items are iterated over. -/
  | seq
  /-- It stands for the value it wraps. -/
  | wrapper
  /-- It has neither members nor items. -/
  | sealed
  deriving DecidableEq, Repr

/-- The textual form of a host object. -/
inductive TextForm
  /-- The form that follows from its kind. -/
  | byKind
  /-- A form of its own. -/
  | own (text : String)
  /-- Asking for it fails. -/
  | failing
  deriving DecidableEq, Repr

/-- The answers of a host object, whose values are of type `α`. -/
structure HostObject (α : Type) where
  kind : ObjectKind
  /-- The outcome of calling a method without arguments; `none` when there is no such method. -/
  method : String → Except String (Option α)
  /-- The member of this name. -/
  member : String → Option α
  /-- The names under which members are written out. -/
  keys : List String
  items : List α
  /-- What a wrapper stands for; `none` for a null wrapper. -/
  inner? : Option α
  /-- Whether it is the zero of its kind. -/
  isZero : Bool
  textForm : TextForm
  /-- How it is shown in log lines. -/
  debug : String

/-- An object that has an answer to nothing. -/
def HostObject.blank {α : Type} (kind : ObjectKind) (debug : String) : HostObject α where
  kind := kind
  method _ := .ok none
  member _ := none
  keys := []
  items := []
  inner? := none
  isZero := false
  textForm := .byKind
  debug := debug

instance {α : Type} : Inhabited (HostObject α) :=
  ⟨.blank .sealed ""⟩

/-- A named record of fields in a fixed order. A field name may occur more than once; the first
occurrence is the one that counts. -/
structure Record (α : Type) where
  name : String
  fields : List (String × α)

namespace Record

variable {α : Type}

def empty (name : String) : Record α :=
  ⟨name, []⟩

/-- The record with one more field at its end. -/
def push (r : Record α) (field : String) (value : α) : Record α :=
  { r with fields := r.fields ++ [(field, value)] }

/-- The first field of this name. -/
def get? (r : Record α) (field : String) : Option α :=
  r.fields.lookup field

end Record

/-- Host data. -/
inductive Value
  | null
  | bool (b : Bool)
  | int (n : Int64)
  | uint (n : UInt64)
  | float (x : Binary64)
  | text (t : String)
  | seq (items : List Value)
  /-- Entries in increasing order of their keys. -/
  | map (entries : List (String × Value))
  | record (r : Record Value)
  | object (identity : Nat) (o : HostObject Value)
  | lambda (l : Lambda)

instance : Inhabited Value := ⟨.null⟩

namespace Value

/-- The mapping of entries bound one after the other, a later one in place of an earlier one. -/
def ofEntries (es : List (String × Value)) : Value :=
  .map (Entries.ofList es)

def isNull : Value → Bool
  | .null => true
  | _ => false

/-- The text of a value that is a text. -/
def asText? : Value → Option String
  | .text t => some t
  | _ => none

/-! ### Zero values -/

mutual

/-- Whether a value is the zero of its kind. A record is when all its fields are; a sequence or a
mapping that is present never is, and neither is a float other than positive zero. -/
def isZero : Value → Bool
  | .null => true
  | .bool b => !b
  | .int n => n == 0
  | .uint n => n == 0
  | .float x => x.bits == 0
  | .text t => t.isEmpty
  | .seq _ | .map _ | .lambda _ => false
  | .record r => areZero r.fields
  | .object _ o => o.isZero
termination_by structural v => v

/-- Whether the values of all fields are zero. -/
def areZero : List (String × Value) → Bool
  | [] => true
  | (_, v) :: fields => v.isZero && areZero fields
termination_by structural fields => fields

end

/-! ### Equality -/

mutual

/-- Equality of values: by content for data, with numeric equality for floats, and by identity for
objects and lambdas. -/
def equal : Value → Value → Bool
  | .null, .null => true
  | .bool a, .bool b => a == b
  | .int a, .int b => a == b
  | .uint a, .uint b => a == b
  | .float a, .float b => a.equal b
  | .text a, .text b => a == b
  | .seq a, .seq b => equalItems a b
  | .map a, .map b => equalEntries a b
  | .record a, .record b => a.name == b.name && equalEntries a.fields b.fields
  | .object a _, .object b _ => a == b
  | .lambda a, .lambda b => a.identity == b.identity
  | _, _ => false
termination_by structural a => a

/-- Equality of sequences, item by item. -/
def equalItems : List Value → List Value → Bool
  | [], [] => true
  | a :: as, b :: bs => a.equal b && equalItems as bs
  | _, _ => false
termination_by structural as => as

/-- Equality of entries, in order and with their keys. -/
def equalEntries : List (String × Value) → List (String × Value) → Bool
  | [], [] => true
  | (k, a) :: as, (l, b) :: bs => k == l && a.equal b && equalEntries as bs
  | _, _ => false
termination_by structural as => as

end

/-! ### Indirection -/

mutual

/-- The value behind every level of wrapping; a null wrapper stands for null. -/
def unwrapped : Value → Value
  | .object i o => if o.kind = .wrapper then unwrappedInner o.inner? else .object i o
  | v => v
termination_by structural v => v

/-- The value behind the wrapping of what a wrapper holds. -/
def unwrappedInner : Option Value → Value
  | none => .null
  | some v => v.unwrapped
termination_by structural v => v

end

end Value

end Mustache
