import Mustache.Entries
import Mustache.Number.Style
import Mustache.Number.Whole

/-!
# JSON documents

The type of JSON documents and their compact text.

## Shape decisions

* **An object is a list of members in the order they are written.** Documents that are read have
  their members in key order, one for each key (`ofMembers`); documents that a record is written
  as keep the order of the fields.
* **Numbers keep their kind.** A whole number is written by its digits and never takes the detour
  through a float.
-/

namespace Mustache

/-- A JSON document. -/
inductive Json
  | null
  | bool (b : Bool)
  | whole (n : Whole)
  | float (x : Binary64)
  | text (t : String)
  | array (items : List Json)
  | object (members : List (String × Json))

instance : Inhabited Json := ⟨.null⟩

namespace Json

/-- The object of members given one after the other, a later one in place of an earlier one. -/
def ofMembers (members : List (String × Json)) : Json :=
  .object (Entries.ofList members)

/-- A number given as a float; what is not finite is no number of JSON. -/
def ofFloat (x : Binary64) : Json :=
  if x.isNaN || x.isInfinite then .null else .float x

/-! ### Text -/

/-- Floats have the fewest digits that read back and a point, and an exponent from `10 ^ 16` on
and below `10 ^ -5`. -/
def numberStyle : NumberStyle where
  tie := .even
  isPlain e := -5 ≤ e && e < 16
  marksWhole := true
  signsExponent := true
  nan := "null"
  infinity := "null"
  negativeInfinity := "null"

/-- The digit of a half byte. -/
def hexDigit (n : Nat) : Char :=
  Nat.digitChar (n % 16)

/-- One character of a string literal. Only the quote, the backslash and the characters below the
space are escaped. -/
def literalChar (c : Char) : List Char :=
  if c = '"' then ['\\', '"']
  else if c = '\\' then ['\\', '\\']
  else if c = '\n' then ['\\', 'n']
  else if c = '\r' then ['\\', 'r']
  else if c = '\t' then ['\\', 't']
  else if c = '\x08' then ['\\', 'b']
  else if c = '\x0c' then ['\\', 'f']
  else if c.toNat < 32 then ['\\', 'u', '0', '0', hexDigit (c.toNat / 16), hexDigit c.toNat]
  else [c]

/-- The string literal of a text. -/
def literal (t : String) : String :=
  String.ofList ('"' :: (t.toList.flatMap literalChar ++ ['"']))

mutual

/-- The compact text of a document. -/
def write : Json → String
  | .null => "null"
  | .bool b => if b then "true" else "false"
  | .whole n => toString n.val
  | .float x => numberStyle.write x
  | .text t => literal t
  | .array items => "[" ++ ",".intercalate (writeItems items) ++ "]"
  | .object members => "\x7b" ++ ",".intercalate (writeMembers members) ++ "\x7d"
termination_by structural j => j

def writeItems : List Json → List String
  | [] => []
  | j :: items => j.write :: writeItems items
termination_by structural items => items

def writeMembers : List (String × Json) → List String
  | [] => []
  | (k, j) :: members => (literal k ++ ":" ++ j.write) :: writeMembers members
termination_by structural members => members

end

end Json

end Mustache
