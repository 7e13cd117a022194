import Mustache.Datum

/-!
# Capturing host data

Host data that describes itself becomes a value. Records keep their name and the order of their
fields, an alternative of a choice becomes the mapping of its name to its content, and a mapping
is run step by step with one pending key.
-/

namespace Mustache.Value

/-- The text under which a captured key is bound. -/
def keyText : Value → Except CaptureError String
  | .text t => .ok t
  | .null => .error .nullKey
  | .bool b => .ok (if b then "true" else "false")
  | .int n => .ok (toString n.toInt)
  | .uint n => .ok (toString n.toNat)
  | .float x => .ok (numberStyle.write x)
  | _ => .error .compoundKey

mutual

/-- The value of host data, or the first failure in the order of its description. -/
def capture : Datum → Except CaptureError Value
  | .unit => .ok .null
  | .bool b => .ok (.bool b)
  | .int n => .ok (.int n)
  | .uint n => .ok (.uint n)
  | .wide type => .error (.tooWide type)
  | .float x => .ok (.float x)
  | .text t => .ok (.text t)
  | .bytes bs => .ok (.seq (bs.map fun b ↦ .uint b.toUInt64))
  | .just content => capture content
  | .record name fields => (captureFields fields).map fun fs ↦ .record ⟨name, fs⟩
  | .variant name content => (capture content).map fun v ↦ .map [(name, v)]
  | .sequence items => (captureItems items).map .seq
  | .mapping steps => (captureSteps none [] steps).map .map
  | .failing cause => .error cause
termination_by structural d => d

def captureItems : List Datum → Except CaptureError (List Value)
  | [] => .ok []
  | d :: items => do
    let v ← capture d
    let vs ← captureItems items
    return v :: vs
termination_by structural items => items

def captureFields : List (String × Datum) → Except CaptureError (List (String × Value))
  | [] => .ok []
  | (name, d) :: fields => do
    let v ← capture d
    let vs ← captureFields fields
    return (name, v) :: vs
termination_by structural fields => fields

/-- The entries of a mapping, from the pending key and the entries bound so far. -/
def captureSteps (pending? : Option String) (bound : List (String × Value)) :
    List (MapStep Datum) → Except CaptureError (List (String × Value))
  | [] => .ok bound
  | .entry k d :: steps => do
    let key ← (← capture k).keyText
    let value ← capture d
    captureSteps none (Entries.insert key value bound) steps
  | .key k :: steps => do
    let key ← (← capture k).keyText
    captureSteps (some key) bound steps
  | .value d :: steps =>
    match pending? with
    | none => .error .valueWithoutKey
    | some key => do
      let value ← capture d
      captureSteps none (Entries.insert key value bound) steps
termination_by structural steps => steps

end

end Mustache.Value
