import Mathlib.Data.List.Basic
import Mustache.Proofs.RunsInSequence
import Mustache.Proofs.SideBySide

/-!
# What runs write

Two renderings can write the same and report differently on their way: a method that fails is
reported each time it is asked for. So runs are compared by what they write, event by event, and by
how they end (`Run.WritesAs`), with their notices left out.

Notices tell what a run goes through, though, and so they tell which runs have to be compared at
all. `Run.Comparison.writing Q f` compares two runs as far as the notices of one of them are in `Q`.
What one run writes may differ from what the other does by `f`.

A partial and a text that a lambda has rendered compare when compiling does
(`writing_renderInclusion`, `writing_callLambda`).
-/

namespace Mustache

namespace Run

variable {α β : Type}

/-! ### Events that write -/

/-- All events that write, in order. -/
def writings (r : Run α) : List Event :=
  r.events.filter fun e ↦ e.notice?.isNone

/-- What comes next writes behind what the first part has written, and nothing where that fails. -/
theorem writings_bind (r : Run α) (next : α → Run β) :
    (r >>= next).writings = r.writings ++ (sequel next r.outcome).writings := by
  rw [writings, events_bind, List.filter_append]
  rfl

theorem notices_bind (r : Run α) (next : α → Run β) :
    (r >>= next).notices = r.notices ++ (sequel next r.outcome).notices := by
  rw [notices, events_bind, List.filterMap_append]
  rfl

/-- A text is what its events write. -/
theorem text_eq_join (r : Run α) : r.text = String.join (r.writings.map Event.text) := by
  rw [text, writings]
  induction r.events with
  | nil => rfl
  | cons e es ih =>
    rw [List.map_cons, String.join_cons, ih, List.filter_cons]
    rcases e with t | ⟨t, mode⟩ | n
    · exact String.join_cons.symm
    · exact String.join_cons.symm
    · exact String.empty_append

theorem Quiet.writings {r : Run α} (h : r.Quiet) : r.writings = [] := by
  refine List.filter_eq_nil_iff.2 fun e he ↦ ?_
  obtain ⟨n, rfl⟩ := h e he
  exact Bool.false_ne_true

theorem notices_attempt (r : Run α) : r.attempt.notices = r.notices := by
  rw [notices, events_attempt]
  rfl

/-- A run that is captured keeps its notices. -/
theorem notices_capturedAfter (written : String) (r : Run Unit) :
    (r.capturedAfter written).notices = r.notices := by
  induction r generalizing written with
  | done outcome => rcases outcome with (e | _) | _ <;> rfl
  | emit e rest ih =>
    rcases e with t | ⟨t, mode⟩ | n
    · exact ih () _
    · exact ih () _
    · exact congrArg (List.cons n) (ih () written)

/-! ### Runs that write alike -/

/-- Whether a run writes what another one does, up to `f`, and both have the same error, or results
in `A`. -/
structure WritesAs (f : Event → Event) (A : α → β → Prop) (r : Run α) (s : Run β) : Prop where
  writings : r.writings.map f = s.writings
  outcome : SameError A r.outcome s.outcome

/-- Runs with the same writings have the same text. -/
theorem WritesAs.text_and_outcome {r s : Run α} (h : r.WritesAs id Eq s) :
    r.text = s.text ∧ r.outcome = s.outcome := by
  refine ⟨?_, h.outcome.eq⟩
  rw [text_eq_join, text_eq_join, ← h.writings, List.map_id]

/-- Whether all notices of a run are in `Q`. -/
def NotesOnly (Q : Notice → Prop) (r : Run α) : Prop :=
  ∀ n ∈ r.notices, Q n

instance (Q : Notice → Prop) [DecidablePred Q] (r : Run α) : Decidable (r.NotesOnly Q) :=
  inferInstanceAs (Decidable (∀ n ∈ r.notices, Q n))

variable {Q : Notice → Prop} {f : Event → Event}

/-- A sequence notes only what both of its parts do, as far as they are reached. -/
theorem notesOnly_bind {r : Run α} {next : α → Run β} :
    (r >>= next).NotesOnly Q ↔ r.NotesOnly Q ∧ (sequel next r.outcome).NotesOnly Q := by
  rw [NotesOnly, notices_bind, List.forall_mem_append]
  rfl

/-- Runs are compared by what they write, as far as the notices of one of them are in `Q`. -/
def Comparison.writing (Q : Notice → Prop) (f : Event → Event) : Comparison where
  Rel A r s := r.NotesOnly Q ∨ s.NotesOnly Q → r.WritesAs f A s
  rel_pure h _ := ⟨rfl, .ok h⟩
  rel_bind {_ _ _ _ A B r s g g'} h hnext hnotes := by
    rw [notesOnly_bind, notesOnly_bind] at hnotes
    have hfirst := h (hnotes.imp And.left And.left)
    -- with results in pairs both go on, and the notices of the rest are in `Q` as well
    have hrest : (sequel g r.outcome).WritesAs f B (sequel g' s.outcome) := by
      replace hnotes := hnotes.imp And.right And.right
      have houtcome := hfirst.outcome
      generalize r.outcome = o, s.outcome = o' at houtcome hnotes
      rcases houtcome with halt | hab
      · exact ⟨rfl, .error halt⟩
      · exact hnext _ _ hab hnotes
    constructor
    · rw [writings_bind, writings_bind, List.map_append, hfirst.writings, hrest.writings]
    · rw [outcome_bind, outcome_bind]
      exact hrest.outcome

/-- Runs that write nothing compare as they end. -/
theorem Quiet.writing {A : α → β → Prop} {r : Run α} {s : Run β} (hr : r.Quiet) (hs : s.Quiet)
    (h : SameError A r.outcome s.outcome) : (Comparison.writing Q f).Rel A r s := by
  refine fun _ ↦ ⟨?_, h⟩
  rw [hr.writings, hs.writings, List.map_nil]

/-- Reports make no difference. -/
theorem writing_report (ns ms : List Notice) :
    (Comparison.writing Q f).Rel Eq (report ns) (report ms) := by
  refine (quiet_report ns).writing (quiet_report ms) ?_
  rw [outcome_report, outcome_report]
  exact .ok rfl

/-- A run writes as itself. -/
theorem writing_refl {A : α → α → Prop} (h : ∀ a, A a a) (r : Run α) :
    (Comparison.writing Q id).Rel A r r :=
  fun _ ↦ ⟨List.map_id _, .refl h _⟩

theorem writing_attempt {A : α → β → Prop} {r : Run α} {s : Run β}
    (h : (Comparison.writing Q f).Rel A r s) :
    (Comparison.writing Q f).Rel (SameError A) r.attempt s.attempt := by
  intro hnotes
  rw [NotesOnly, NotesOnly, notices_attempt, notices_attempt] at hnotes
  obtain ⟨hwritings, houtcome⟩ := h hnotes
  constructor
  · rw [Run.writings, Run.writings, events_attempt, events_attempt]
    exact hwritings
  · rw [outcome_attempt, outcome_attempt]
    generalize r.outcome = o, s.outcome = o' at houtcome
    rcases houtcome with (e | _) | hab
    · exact .ok (.error e)
    · exact .error Halt.tooDeep
    · exact .ok (.ok hab)

/-- Runs that write the same have the same text when they are captured. -/
theorem writing_captured {r s : Run Unit} (h : (Comparison.writing Q id).Rel Eq r s) :
    (Comparison.writing Q id).Rel Eq r.captured s.captured := by
  intro hnotes
  have hsame := hnotes
  rw [NotesOnly, NotesOnly, captured, captured, notices_capturedAfter, notices_capturedAfter]
    at hsame
  obtain ⟨hwritings, houtcome⟩ := h hsame
  rw [List.map_id] at hwritings
  refine (quiet_capturedAfter "" r).writing (quiet_capturedAfter "" s) ?_ hnotes
  show SameError Eq r.captured.outcome s.captured.outcome
  rw [outcome_captured, outcome_captured, text_eq_join, text_eq_join, hwritings]
  generalize r.outcome = o, s.outcome = o' at houtcome
  rcases houtcome with halt | -
  · exact .refl (fun _ ↦ rfl) _
  · exact .refl (fun _ ↦ rfl) _

end Run

/-- A script goes the same way where what it has rendered compares. -/
theorem Script.writing_run {Q : Notice → Prop} {f : Event → Event}
    {render render' : String → Run (Except Error String)}
    (h : ∀ text, (Run.Comparison.writing Q f).Rel Eq (render text) (render' text)) (s : Script) :
    (Run.Comparison.writing Q f).Rel Eq (s.run render) (s.run render') := by
  induction s with
  | answer text => exact Run.Comparison.rel_pure _ rfl
  | fail text => exact fun _ ↦ ⟨rfl, .error _⟩
  | render text next ih =>
    refine Run.Comparison.rel_bind _ (h text) ?_
    rintro outcome _ rfl
    exact ih outcome

/-! ### Renderings -/

namespace Compiler

variable {Q : Notice → Prop} {f : Event → Event} {c c' : Compiler} {files : FileTree}
  {reenter reenter' : Reentry} {chain chain' : List Value} {A : Template → Template → Prop}

/-- A name whose value is the same is that of the same value. -/
theorem writing_valueOf (hstrict : c.strict = c'.strict) {name : String}
    (h : (Value.lookup chain name).found = (Value.lookup chain' name).found) :
    (Run.Comparison.writing Q f).Rel Eq (c.valueOf chain name) (c'.valueOf chain' name) := by
  refine Run.Comparison.rel_bind _ (Run.writing_report _ _) fun _ _ _ ↦ ?_
  rw [h, hstrict]
  rcases (Value.lookup chain' name).found with segment | v
  · dsimp only
    split
    · exact fun _ ↦ ⟨rfl, .error _⟩
    · exact Run.Comparison.rel_pure _ rfl
  · exact Run.Comparison.rel_pure _ rfl

variable (hcompile : ∀ text,
  (Run.Comparison.writing Q f).Rel A (c.compile text) (c'.compile text))
include hcompile

theorem writing_fetch (provider : Provider) (name indent : String) :
    (Run.Comparison.writing Q f).Rel A (c.fetch files provider name indent)
      (c'.fetch files provider name indent) := by
  refine Run.Comparison.rel_bind (A := Eq) _ (fun _ ↦ ⟨rfl, .ok rfl⟩) fun _ _ _ ↦ ?_
  refine Run.Comparison.rel_bind _ (Run.writing_report _ _) fun _ _ _ ↦ ?_
  refine Run.Comparison.rel_bind (A := Eq) _ ?_ ?_
  · exact (Run.quiet_ofExcept _).writing (Run.quiet_ofExcept _) (.refl (fun _ ↦ rfl) _)
  · rintro text _ rfl
    exact hcompile _

/-- A partial compares when its template does. -/
theorem writing_renderInclusion (hprovider : c.provider? = c'.provider?)
    (hstrict : c.strict = c'.strict)
    (hreenter : ∀ t t', A t t' → (Run.Comparison.writing Q f).Rel Eq
      (reenter t.tree.elements chain pure) (reenter' t'.tree.elements chain' pure))
    (name indent : String) :
    (Run.Comparison.writing Q f).Rel Eq
      (c.renderInclusion files reenter chain name indent pure)
      (c'.renderInclusion files reenter' chain' name indent pure) := by
  rw [renderInclusion, renderInclusion, ← hprovider, ← hstrict]
  rcases c.provider? with - | provider
  · dsimp only
    split
    · exact fun _ ↦ ⟨rfl, .error _⟩
    · exact fun _ ↦ ⟨rfl, .ok rfl⟩
  · refine Run.Comparison.rel_bind _
      (Run.writing_attempt (writing_fetch hcompile provider name indent)) fun t t' ht ↦ ?_
    rcases ht with e | ht
    · dsimp only
      split
      · exact fun _ ↦ ⟨rfl, .error _⟩
      · exact fun _ ↦ ⟨rfl, .ok rfl⟩
    · exact hreenter _ _ ht

end Compiler

/-- A lambda compares when the templates of the texts that it has rendered do. -/
theorem Compiler.writing_callLambda {Q : Notice → Prop} {c : Compiler}
    {reenter reenter' : Reentry} {chain chain' : List Value} {A : Template → Template → Prop}
    (hcompile : ∀ text, (Run.Comparison.writing Q id).Rel A (c.compile text) (c.compile text))
    (hreenter : ∀ t t', A t t' → (Run.Comparison.writing Q id).Rel Eq
      (reenter t.tree.elements chain pure) (reenter' t'.tree.elements chain' pure))
    (name source : String) (l : Lambda) :
    (Run.Comparison.writing Q id).Rel Eq (c.callLambda reenter chain name l source)
      (c.callLambda reenter' chain' name l source) := by
  refine Run.Comparison.rel_bind (A := Eq) _ (fun _ ↦ ⟨rfl, .ok rfl⟩) fun _ _ _ ↦ ?_
  refine Run.Comparison.rel_bind _ (Script.writing_run (fun text ↦ ?_) _) ?_
  · exact Run.writing_captured (Run.Comparison.rel_bind _ (hcompile text) hreenter)
  · rintro answer _ rfl
    exact Run.writing_refl (fun _ ↦ rfl) _

end Mustache
