import Mustache.Proofs.Leniency
import Mustache.Proofs.Writings

/-!
# Escape modes

The escape mode has to do with escaping only (`escape_mode_only_escapes`). Raw mode does it twice:
texts are read with every interpolation raw, and what is not raw is written as it stands. So a
rendering in raw mode works on other trees than one in another mode, and this for every text that is
compiled on the way.

The two are compared by `Compiler.SideBySideForced`, where the second rendering has every
interpolation raw, and by what they write: an event of the other mode, with its escaping taken away
(`Event.unescaped`), is the event of raw mode.

Lambdas are left out. One that has a text rendered gets it escaped in one of the renderings, and may
make of it what it likes.
-/

namespace Mustache

/-! ### Runs without escaping -/

theorem EscapeMode.escape_raw (t : String) : raw.escape t = t := by
  rw [escape]
  show String.ofList (t.toList.flatMap fun c ↦ [c]) = t
  rw [List.flatMap_singleton', String.ofList_toList]

namespace Event

/-- The event with the text of a value written as it stands. -/
def unescaped : Event → Event
  | .writeValue t _ => .write t
  | e => e

/-- The event as a rendering in raw mode has it. -/
def inRawMode : Event → Event
  | .writeValue t _ => .writeValue t .raw
  | e => e

theorem text_inRawMode (e : Event) : e.inRawMode.text = e.unescaped.text := by
  rcases e with t | ⟨t, mode⟩ | n
  · rfl
  · exact EscapeMode.escape_raw t
  · rfl

end Event

namespace Run

variable {α : Type}

/-- The run with the text of every value written as it stands. -/
def unescaped : Run α → Run α
  | .done outcome => .done outcome
  | .emit e rest => .emit e.unescaped fun u ↦ (rest u).unescaped

/-- A run without its escaping ends as it did. -/
theorem outcome_unescaped (r : Run α) : r.unescaped.outcome = r.outcome := by
  induction r with
  | done outcome => rfl
  | emit e rest ih => exact ih ()

theorem writings_unescaped (r : Run α) : r.unescaped.writings = r.writings.map Event.unescaped := by
  induction r with
  | done outcome => rfl
  | emit e rest ih =>
    rcases e with t | ⟨t, mode⟩ | n
    · exact congrArg (List.cons (.write t)) (ih ())
    · exact congrArg (List.cons (.write t)) (ih ())
    · exact ih ()

/-- A run that writes in raw mode what another one does writes it without escaping. -/
theorem WritesAs.text_and_outcome_unescaped {r s : Run α} (h : r.WritesAs Event.inRawMode Eq s) :
    s.text = r.unescaped.text ∧ s.outcome = r.unescaped.outcome := by
  constructor
  · rw [text_eq_join, text_eq_join, writings_unescaped, ← h.writings, List.map_map, List.map_map]
    exact congrArg String.join (List.map_congr_left fun e _ ↦ e.text_inRawMode)
  · rw [outcome_unescaped, h.outcome.eq]

end Run

/-! ### Runs without lambdas -/

/-- Whether a notice is of no call of a lambda. -/
def Notice.IsNoCall : Notice → Prop
  | .calling _ _ => False
  | _ => True

instance : (n : Notice) → Decidable n.IsNoCall
  | .calling _ _ => inferInstanceAs (Decidable False)
  | .compiled _ | .methodFailed _ _ _ | .fetching _ | .found _ _ | .unprovided _ | .skipped _ _ =>
    inferInstanceAs (Decidable True)

/-- Whether no section of a run has a lambda for its value. One that has gives notice that it calls
it. -/
def Run.CallsNoLambda {α : Type} (r : Run α) : Prop :=
  r.NotesOnly Notice.IsNoCall

instance {α : Type} (r : Run α) : Decidable r.CallsNoLambda :=
  inferInstanceAs (Decidable (r.NotesOnly Notice.IsNoCall))

/-- A run in another mode and one in raw mode are compared by what they write, as far as no lambda
is called. -/
def Run.Comparison.rawMode : Run.Comparison :=
  .writing Notice.IsNoCall Event.inRawMode

/-! ### Renderings -/

namespace Compiler

variable (c : Compiler) {mode : EscapeMode}

/-- In raw mode a text is compiled to the same tree with every interpolation raw. -/
theorem rawMode_compile (hmode : mode ≠ .raw) (text : String) :
    Run.Comparison.rawMode.Rel
      (fun t t' ↦ t.compiler = c.withEscapeMode mode ∧
        t' = ⟨t.tree.forced true, c.withEscapeMode .raw⟩)
      ((c.withEscapeMode mode).compile text) ((c.withEscapeMode .raw).compile text) := by
  have hparse : (c.withEscapeMode .raw).parse text =
      ((c.withEscapeMode mode).parse text).map (Tree.forced true) := by
    have hmode : (mode == .raw) = false := beq_eq_false_iff_ne.2 hmode
    show Tree.ofText true text = (Tree.ofText (mode == .raw) text).map (Tree.forced true)
    rw [hmode, Tree.ofText_eq_map_forced]
  rw [compile, compile, hparse]
  rcases (c.withEscapeMode mode).parse text with m | tree
  · exact fun _ ↦ ⟨rfl, .error _⟩
  · exact fun _ ↦ ⟨rfl, .ok ⟨rfl, rfl⟩⟩

/-- **A rendering in another mode and one in raw mode, side by side.** -/
theorem sideBySide_raw (hmode : mode ≠ .raw) (files : FileTree) :
    (c.withEscapeMode mode).SideBySideForced true .rawMode (fun _ ↦ True) Eq Eq
      (c.withEscapeMode .raw) files where
  tooDeep := fun _ ↦ ⟨rfl, .error _⟩
  write _ := fun _ ↦ ⟨rfl, .ok rfl⟩
  interpolate := by
    rintro name raw - chain _ rfl
    refine Run.Comparison.rel_bind _ (writing_valueOf rfl rfl) ?_
    rintro v? _ rfl
    rcases v? with - | v
    · exact fun _ ↦ ⟨rfl, .ok rfl⟩
    · refine Run.Comparison.rel_bind (A := Eq) _ ?_ ?_
      · exact (Run.quiet_ofExcept _).writing (Run.quiet_ofExcept _) (.refl (fun _ ↦ rfl) _)
      · rintro text _ rfl
        rw [Bool.or_true]
        exact fun _ ↦ ⟨rfl, .ok rfl⟩
  renderInclusion := by
    rintro name indent lineEnd? - reenter reenter' hreenter chain _ rfl
    refine writing_renderInclusion (c.rawMode_compile hmode) rfl rfl ?_ name indent
    rintro t _ ⟨-, rfl⟩
    exact hreenter _ (fun _ _ ↦ trivial) chain chain rfl
  valueOf := by
    rintro name inverted line - chain _ rfl
    refine Run.Comparison.rel_mono _ (writing_valueOf rfl rfl) ?_
    rintro v? _ rfl
    exact Visit.paired (fun _ ↦ rfl) rfl (fun _ ↦ rfl) _
  callLambda := by
    rintro l _ rfl reenter reenter' hreenter chain _ rfl name children hnotes
    -- only runs that note no call of a lambda are compared, and this call is noted
    rcases hnotes with hnotes | hnotes
    · exact (hnotes (.calling name _) List.mem_cons_self).elim
    · exact (hnotes (.calling name _) List.mem_cons_self).elim

end Compiler

/-- **The escape mode changes nothing but escaping.** A text is read in raw mode as without it, and
then every interpolation is raw. What a template renders in raw mode, whatever partials it has, is
what it does in another mode with every value written as it stands, and the error is the same, if no
section calls a lambda. -/
theorem escape_mode_only_escapes :
    (∀ text, Tree.ofText true text = (Tree.ofText false text).map (Tree.forced true)) ∧
    ∀ (c : Compiler) (mode : EscapeMode) (files : FileTree) (template : String)
      (contexts : List Value),
      let r := (c.withEscapeMode mode).renderTemplate files template contexts
      let s := (c.withEscapeMode .raw).renderTemplate files template contexts
      mode ≠ .raw → r.CallsNoLambda ∨ s.CallsNoLambda →
        s.text = r.unescaped.text ∧ s.outcome = r.unescaped.outcome := by
  refine ⟨Tree.ofText_eq_map_forced true, ?_⟩
  intro c mode files template contexts r s hmode hnotes
  have hcompare : Run.Comparison.rawMode.Rel Eq r s := by
    refine Run.Comparison.rel_bind _ (c.rawMode_compile hmode template) ?_
    rintro t _ ⟨hcompiler, rfl⟩
    rw [Template.run, hcompiler]
    exact (c.sideBySide_raw hmode files).renderAt Template.maxDepth _ (fun _ _ ↦ trivial) _ _ rfl
  exact (hcompare hnotes).text_and_outcome_unescaped

/-- A value in a template and in a partial of it, where one of the tags is raw in every mode. -/
theorem escape_mode_only_escapes_of_partial :
    let partials := Partials.ofList [("p", "\x7b\x7bx\x7d\x7d;\x7b\x7b&x\x7d\x7d")]
    let c := Compiler.standard.withProvider partials.provider
    let template := "\x7b\x7bx\x7d\x7d;\x7b\x7b>p\x7d\x7d"
    let contexts : List Value := [.map [("x", .text "<")]]
    let r := (c.withEscapeMode .html).renderTemplate .empty template contexts
    let s := (c.withEscapeMode .raw).renderTemplate .empty template contexts
    r.CallsNoLambda ∧ r.text = "&lt;;&lt;;<" ∧ s.text = "<;<;<" ∧ s.outcome = .ok () := by
  intro partials c template contexts r s
  have hcalls : r.CallsNoLambda := by decide +kernel
  obtain ⟨-, hmodes⟩ := escape_mode_only_escapes
  obtain ⟨hs, hs'⟩ := hmodes c .html .empty template contexts (by decide) (.inl hcalls)
  exact ⟨hcalls, by decide +kernel, hs.trans (by decide +kernel), hs'.trans (by decide +kernel)⟩

end Mustache
