import Mustache.Run

/-!
# Sinks

Where a run goes: its texts byte by byte, its notices one by one. A sink with limited room takes
what still fits of the text that is too long for it and fails; the run ends with that failure, and
nothing that would have come later happens.
-/

namespace Mustache

/-- The longest part at the start of a text's bytes that is a text itself. At most three bytes of
its last character can be missing a fourth. -/
def Text.readable (bytes : ByteArray) : String :=
  ((List.range 4).findSome? fun missing ↦
    String.fromUTF8? (bytes.extract 0 (bytes.size - missing))).getD ""

/-- A receiver of events. -/
structure Sink where
  /-- The bytes it has taken. -/
  written : ByteArray
  /-- The notices it has taken. -/
  noted : Array Notice
  /-- How many bytes still fit; `none` when all do. -/
  room? : Option Nat

namespace Sink

/-- A sink that takes everything. -/
def unlimited : Sink :=
  ⟨.empty, #[], none⟩

/-- A sink that takes this many bytes. -/
def limited (capacity : Nat) : Sink :=
  ⟨.empty, #[], some capacity⟩

/-- The sink with the bytes written to it that fit, and whether all of them did. -/
def write (s : Sink) (bytes : ByteArray) : Sink × Bool :=
  match s with
  | ⟨written, noted, none⟩ => (⟨written ++ bytes, noted, none⟩, true)
  | ⟨written, noted, some room⟩ =>
    if bytes.size ≤ room then (⟨written ++ bytes, noted, some (room - bytes.size)⟩, true)
    else (⟨written ++ bytes.extract 0 room, noted, some 0⟩, false)

/-- The sink behind an event, and whether it could take all of it. -/
def take (s : Sink) (e : Event) : Sink × Bool :=
  match e with
  | .notice n => ({ s with noted := s.noted.push n }, true)
  | e => s.write e.text.toUTF8

end Sink

/-- What is left of a run that went to a sink. -/
structure Delivery (α : Type) where
  sink : Sink
  outcome : Except Halt α

/-- Delivers a run to a sink, up to the first text that does not fit. The outcome is that of the
run if all of them fit. -/
def Run.deliver {α : Type} (s : Sink) : Run α → Delivery α
  | .done outcome => ⟨s, outcome⟩
  | .emit e rest =>
    match s.take e with
    | (s, true) => (rest ()).deliver s
    | (s, false) => ⟨s, .error (.error (.io .sinkFull))⟩

/-- All that a run writes, if it ends well. -/
def Run.toText (r : Run Unit) : Except Halt String :=
  let d := r.deliver .unlimited
  d.outcome.map fun _ ↦ Text.readable d.sink.written

end Mustache
