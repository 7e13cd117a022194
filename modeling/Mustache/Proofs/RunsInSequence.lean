import Mustache.Proofs.Delivery

/-!
# Runs in sequence

What can be seen of a run that goes on with another one: its events and its end, what it writes, and
what a sink gets of it. Each view of `r >>= next` is put together from the same view of `r` and,
when `r` has ended well, that of the run its result calls for (`Run.sequel`).

Runs that are kept from view, caught (`Run.attempt`) or captured (`Run.captured`), have their views
here too.
-/

namespace Mustache

/-- Whether two outcomes are the same error, or results in `A`. -/
inductive SameError {ε α β : Type} (A : α → β → Prop) : Except ε α → Except ε β → Prop
  | error (e : ε) : SameError A (.error e) (.error e)
  | ok {a : α} {b : β} (h : A a b) : SameError A (.ok a) (.ok b)

theorem SameError.refl {ε α : Type} {A : α → α → Prop} (h : ∀ a, A a a) (r : Except ε α) :
    SameError A r r := by
  cases r with
  | error e => exact .error e
  | ok a => exact .ok (h a)

/-- The relation between the values of two ends that are well may be widened. -/
theorem SameError.mono {ε α β : Type} {A B : α → β → Prop} (h : ∀ a b, A a b → B a b)
    {r : Except ε α} {s : Except ε β} (hrs : SameError A r s) : SameError B r s := by
  cases hrs with
  | error e => exact .error e
  | ok hab => exact .ok (h _ _ hab)

/-- With the same value or the same error, the two ends are one. -/
theorem SameError.eq {ε α : Type} {r s : Except ε α} (h : SameError Eq r s) : r = s := by
  rcases h with e | hab
  · rfl
  · exact congrArg _ hab

namespace Run

variable {α β : Type}

/-! ### Views of a sequence -/

/-- The run that goes on behind another one, by how that has ended. -/
def sequel (next : α → Run β) : Except Halt α → Run β
  | .ok a => next a
  | .error h => .done (.error h)

/-- What comes next adds its events behind those of the first, and none where the first fails. -/
theorem events_bind (r : Run α) (next : α → Run β) :
    (r >>= next).events = r.events ++ (sequel next r.outcome).events := by
  induction r with
  | done outcome => cases outcome <;> rfl
  | emit e rest ih =>
    show e :: (rest () >>= next).events = _
    rw [ih]
    rfl

/-- A sequence ends as its second part does, or as the first if that fails. -/
theorem outcome_bind (r : Run α) (next : α → Run β) :
    (r >>= next).outcome = (sequel next r.outcome).outcome := by
  induction r with
  | done outcome => cases outcome <;> rfl
  | emit e rest ih => exact ih ()

/-- The text of a sequence is what the first part writes, and behind it what the second does. -/
theorem text_bind (r : Run α) (next : α → Run β) :
    (r >>= next).text = r.text ++ (sequel next r.outcome).text := by
  rw [text, events_bind, List.map_append, String.join_append]
  rfl

/-- What a sink gets of two runs is what it gets of the first and, when that has ended well and all
of it has fitted, of the second. -/
theorem deliver_bind (s : Sink) (r : Run α) (next : α → Run β) :
    (r >>= next).deliver s =
      (sequel next (r.deliver s).outcome).deliver (r.deliver s).sink := by
  induction r generalizing s with
  | done outcome => cases outcome <;> rfl
  | emit e rest ih =>
    rw [emit_bind, deliver_emit, deliver_emit]
    rcases s.take e with ⟨s, _ | _⟩
    · rfl
    · exact ih () s

/-- What a run gives is its text, if it ends well. -/
theorem toText_eq (r : Run Unit) : r.toText = r.outcome.map fun _ ↦ r.text := by
  rw [toText, Sink.unlimited, deliver_unlimited]
  show (r.outcome.map fun _ ↦ Text.readable (.empty ++ r.bytes)) = _
  rw [ByteArray.empty_append, bytes, Text.readable_toUTF8]

/-- A run that ends well gives the text that it writes. -/
theorem toText_of_ok {r : Run Unit} {t : String} (h : r.outcome = .ok () ∧ r.text = t) :
    r.toText = .ok t := by
  rw [toText_eq, h.1, h.2]
  rfl

/-! ### Runs that are caught -/

/-- The outcome of a run whose error is a result. -/
def caught : Except Halt α → Except Halt (Except Error α)
  | .ok a => .ok (.ok a)
  | .error (.error e) => .ok (.error e)
  | .error .tooDeep => .error .tooDeep

/-- An attempt ends with the end of the run as its value, unless the nesting is too deep. -/
theorem outcome_attempt (r : Run α) : r.attempt.outcome = caught r.outcome := by
  induction r with
  | done outcome => rcases outcome with (e | _) | a <;> rfl
  | emit e rest ih => exact ih ()

theorem events_attempt (r : Run α) : r.attempt.events = r.events := by
  induction r with
  | done outcome => rcases outcome with (e | _) | a <;> rfl
  | emit e rest ih => exact congrArg (List.cons e) (ih ())

/-- A capture has the text of the run for its value, behind what was there before. -/
theorem outcome_capturedAfter (written : String) (r : Run Unit) :
    (r.capturedAfter written).outcome = caught (r.outcome.map fun _ ↦ written ++ r.text) := by
  induction r generalizing written with
  | done outcome =>
    rcases outcome with (e | _) | _
    · rfl
    · rfl
    · show (Except.ok (.ok written) : Except Halt (Except Error String)) = .ok (.ok (written ++ ""))
      rw [String.append_empty]
  | emit e rest ih =>
    rw [text_emit]
    rcases e with t | ⟨t, mode⟩ | n
    · rw [← String.append_assoc]
      exact ih () _
    · rw [← String.append_assoc]
      exact ih () _
    · show ((rest ()).capturedAfter written).outcome =
        caught ((rest ()).outcome.map fun _ ↦ written ++ ("" ++ (rest ()).text))
      rw [ih, String.empty_append]

/-- A captured run has its text as a result. -/
theorem outcome_captured (r : Run Unit) :
    r.captured.outcome = caught (r.outcome.map fun _ ↦ r.text) := by
  rw [captured, outcome_capturedAfter]
  simp only [String.empty_append]

/-- A run that makes notices only writes no text. -/
theorem text_of_quiet {r : Run α} (h : r.Quiet) : r.text = "" := by
  induction r with
  | done outcome => rfl
  | emit e rest ih =>
    obtain ⟨n, rfl⟩ := h e List.mem_cons_self
    rw [text_emit, ih () fun d hd ↦ h d (List.mem_cons_of_mem _ hd)]
    rfl

/-- Nothing is written of a run that is captured. -/
theorem quiet_capturedAfter (written : String) (r : Run Unit) :
    (r.capturedAfter written).Quiet := by
  induction r generalizing written with
  | done outcome => rcases outcome with (e | _) | _ <;> exact fun e he ↦ absurd he List.not_mem_nil
  | emit e rest ih =>
    rcases e with t | ⟨t, mode⟩ | n
    · exact ih () _
    · exact ih () _
    · intro e he
      rcases List.mem_cons.1 he with rfl | he
      · exact ⟨n, rfl⟩
      · exact ih () written e he

end Run

end Mustache
