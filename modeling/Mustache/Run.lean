import Mustache.Escape
import Mustache.Notice

/-!
# Runs

What happens when a template is rendered: texts and values are written and notices given, one
after the other, and it ends well, with an error, or too deep.

## Shape decisions

* **A run unfolds event by event.** What comes behind an event is there only when it is asked for,
  so a run can be followed as far as its receiver goes along, whatever its length. Where the texts
  go, and what happens when no more can be written, is the sink's affair (`Sink`).
* **A value is written with the mode that escapes it.** Its own text is kept, so what escaping
  does to a run can be told from what the template does.
* **Events of a failed run stay.** Sequencing keeps the events of the first run and drops the
  second when the first has failed.
* **Too deep is no error of the template's.** It is kept apart from the errors, which lambdas can
  see and go on after; a run that is too deep has no result at all.
-/

namespace Mustache

/-- Something that happens during a run. -/
inductive Event
  /-- A text is written as it stands. -/
  | write (text : String)
  /-- The text of a value is written, escaped. -/
  | writeValue (text : String) (mode : EscapeMode)
  | notice (n : Notice)

namespace Event

/-- The text an event writes, which is empty for a notice. -/
def text : Event → String
  | write t => t
  | writeValue t mode => mode.escape t
  | notice _ => ""

/-- The notice an event gives. -/
def notice? : Event → Option Notice
  | write _ | writeValue _ _ => none
  | notice n => some n

end Event

/-- Why a run stops before its end. -/
inductive Halt
  | error (e : Error)
  /-- Templates were nested deeper than the run was allowed to go. -/
  | tooDeep
  deriving DecidableEq

/-- A run with a result of type `α`. -/
inductive Run (α : Type)
  /-- Nothing more happens. -/
  | done (outcome : Except Halt α)
  /-- Something happens, and then the rest of the run. -/
  | emit (e : Event) (rest : Unit → Run α)

namespace Run

variable {α β : Type}

/-! ### Sequencing -/

/-- A run and, when it has ended well, the run that its result calls for. -/
def andThen (next : α → Run β) : Run α → Run β
  | .done (.ok a) => next a
  | .done (.error h) => .done (.error h)
  | .emit e rest => .emit e fun u ↦ andThen next (rest u)

instance : Monad Run where
  pure a := .done (.ok a)
  bind r next := andThen next r

@[simp] theorem done_ok_bind (a : α) (next : α → Run β) : Run.done (.ok a) >>= next = next a := rfl

@[simp] theorem done_error_bind (h : Halt) (next : α → Run β) :
    Run.done (.error h) >>= next = .done (.error h) := rfl

/-- Events stay in front of whatever follows. -/
@[simp] theorem emit_bind (e : Event) (rest : Unit → Run α) (next : α → Run β) :
    Run.emit e rest >>= next = .emit e fun u ↦ rest u >>= next := rfl

instance : LawfulMonad Run :=
  LawfulMonad.mk' Run
    (fun r ↦ by
      induction r with
      | done outcome => cases outcome <;> rfl
      | emit e rest ih => exact congrArg (emit e) (funext ih))
    (fun _ _ ↦ rfl)
    (fun r f g ↦ by
      induction r with
      | done outcome => cases outcome <;> rfl
      | emit e rest ih => exact congrArg (emit e) (funext ih))

/-! ### Steps -/

/-- Writes a text. -/
def write (text : String) : Run Unit :=
  .emit (.write text) pure

/-- Writes the text of a value, escaped. -/
def writeValue (text : String) (mode : EscapeMode) : Run Unit :=
  .emit (.writeValue text mode) pure

/-- Gives notice. -/
def notice (n : Notice) : Run Unit :=
  .emit (.notice n) pure

/-- Gives notices, one after the other. -/
def report : List Notice → Run Unit
  | [] => pure ()
  | n :: ns => .emit (.notice n) fun _ ↦ report ns

/-- Fails. -/
def fail (e : Error) : Run α :=
  .done (.error (.error e))

/-- Stops for being too deep. -/
def tooDeep : Run α :=
  .done (.error .tooDeep)

/-- A result, or a failure, without events. -/
def ofExcept (r : Except Error α) : Run α :=
  match r with
  | .ok a => pure a
  | .error e => fail e

/-- Does the same for each item, and then what is left to do, which goes with the last item. -/
def each (items : List α) (body : α → (Unit → Run Unit) → Run Unit) (rest : Unit → Run Unit) :
    Run Unit :=
  match items with
  | [] => rest ()
  | [a] => body a rest
  | a :: b :: items => do
    body a pure
    each (b :: items) body rest

/-! ### Looking back on a run -/

/-- All that happens. -/
def events : Run α → List Event
  | .done _ => []
  | .emit e rest => e :: (rest ()).events

/-- How the run ends. -/
def outcome : Run α → Except Halt α
  | .done outcome => outcome
  | .emit _ rest => (rest ()).outcome

/-- All that is written. -/
def text (r : Run α) : String :=
  String.join (r.events.map Event.text)

/-- All notices, in order. -/
def notices (r : Run α) : List Notice :=
  r.events.filterMap Event.notice?

/-- A run is known by its events and its outcome. -/
theorem ext_events {r s : Run α} (hevents : r.events = s.events)
    (houtcome : r.outcome = s.outcome) :
    r = s := by
  induction r generalizing s with
  | done outcome =>
    cases s with
    | done _ => exact congrArg done houtcome
    | emit _ _ => cases hevents
  | emit e rest ih =>
    cases s with
    | done _ => cases hevents
    | emit f more =>
      obtain ⟨rfl, hrest⟩ := List.cons.inj hevents
      exact congrArg (emit e) (funext fun u ↦ ih u hrest houtcome)

/-! ### Runs within runs -/

/-- The run with its error as a result. -/
def attempt : Run α → Run (Except Error α)
  | .done (.ok a) => pure (.ok a)
  | .done (.error (.error e)) => pure (.error e)
  | .done (.error .tooDeep) => tooDeep
  | .emit e rest => .emit e fun u ↦ attempt (rest u)

/-- The rest of a run, with its text behind what has been written before, or its error, as a
result. -/
def capturedAfter (written : String) : Run Unit → Run (Except Error String)
  | .done (.ok _) => pure (.ok written)
  | .done (.error (.error e)) => pure (.error e)
  | .done (.error .tooDeep) => tooDeep
  | .emit (.notice n) rest => .emit (.notice n) fun u ↦ capturedAfter written (rest u)
  | .emit e rest => capturedAfter (written ++ e.text) (rest ())

/-- The run with its text, or its error, as a result. Nothing is written; notices stay. -/
def captured (r : Run Unit) : Run (Except Error String) :=
  capturedAfter "" r

end Run

end Mustache
