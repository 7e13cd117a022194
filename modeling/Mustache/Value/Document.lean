import Mustache.Document.Json
import Mustache.Document.Yaml
import Mustache.Value.Basic

/-!
# Values from documents

The value of a JSON and of a YAML document. A whole number is a signed integer where it fits one
and an unsigned one above that. The tags of YAML leave no trace, and a YAML mapping keeps the
entries whose key has a text a template could name.
-/

namespace Mustache.Value

/-- The value of a whole number. -/
def ofWhole (n : Whole) : Value :=
  if n.val < 0x8000000000000000 then .int (.ofInt n.val) else .uint (.ofNat n.val.toNat)

/-! ### JSON -/

mutual

/-- The value of a JSON document. -/
def ofJson : Json → Value
  | .null => .null
  | .bool b => .bool b
  | .whole n => ofWhole n
  | .float x => .float x
  | .text t => .text t
  | .array items => .seq (ofJsonItems items)
  | .object members => ofEntries (ofJsonMembers members)
termination_by structural j => j

def ofJsonItems : List Json → List Value
  | [] => []
  | j :: items => ofJson j :: ofJsonItems items
termination_by structural items => items

def ofJsonMembers : List (String × Json) → List (String × Value)
  | [] => []
  | (k, j) :: members => (k, ofJson j) :: ofJsonMembers members
termination_by structural members => members

end

/-- The items of a list are taken over one by one. -/
theorem ofJsonItems_eq_map (items : List Json) : ofJsonItems items = items.map ofJson := by
  induction items with
  | nil => rfl
  | cons j items ih => rw [ofJsonItems, ih, List.map_cons]

/-- The members keep their keys, and their order. -/
theorem ofJsonMembers_eq_map (members : List (String × Json)) :
    ofJsonMembers members = members.map (Prod.map id ofJson) := by
  induction members with
  | nil => rfl
  | cons m members ih => rw [ofJsonMembers, ih, List.map_cons]; rfl

/-! ### YAML -/

mutual

/-- The value of a YAML document. -/
def ofYaml : Yaml → Value
  | .null => .null
  | .bool b => .bool b
  | .whole n => ofWhole n
  | .float x => .float x
  | .text t => .text t
  | .sequence items => .seq (ofYamlItems items)
  | .mapping entries => ofEntries (ofYamlEntries entries)
  | .tagged _ content => ofYaml content
termination_by structural y => y

def ofYamlItems : List Yaml → List Value
  | [] => []
  | y :: items => ofYaml y :: ofYamlItems items
termination_by structural items => items

/-- The entries whose key has a text. -/
def ofYamlEntries : List (Yaml × Yaml) → List (String × Value)
  | [] => []
  | (k, y) :: entries =>
    match k.keyText? with
    | some t => (t, ofYaml y) :: ofYamlEntries entries
    | none => ofYamlEntries entries
termination_by structural entries => entries

end

/-- Entries with a key that has no text are left out, and no other entry changes by it. -/
theorem ofYamlEntries_eq_filterMap (entries : List (Yaml × Yaml)) :
    ofYamlEntries entries = entries.filterMap fun e ↦ e.1.keyText?.map (·, ofYaml e.2) := by
  induction entries with
  | nil => rfl
  | cons e entries ih =>
    obtain ⟨k, y⟩ := e
    rw [ofYamlEntries, ih, List.filterMap_cons]
    cases k.keyText? <;> rfl

end Mustache.Value
