import Mustache.Proofs.Leniency
import Mustache.Proofs.NameResolution
import Mustache.Proofs.SourcePieces
import Mustache.Proofs.Writings

/-!
# Sources that lambdas are handed

A lambda is handed the source of its section. How far that is the same in every escape mode is
said by `handed_sources_by_escape_mode`.

It is where values are escaped, in one way or another. Raw mode is told apart from them by what it
reads a text as: every interpolation is raw, whichever tag it was written with, and a source is
printed from what has been read. So a lambda is handed `{{&x}}` there where `{{x}}` was written
(`handed_source_is_rewritten`), and its source is as it was written exactly when its section has no
interpolation to be escaped (`Element.sources_forcedAll_eq_iff`).

Two renderings are compared by the sources they hand to lambdas and by whether they end well
(`Run.HandsAlike`). What they write is left out. A lambda that looks at what it is given can do
anything about it, so lambdas have to go the same way in both: they have the same texts rendered and
fail together (`Lambda.Steady`). What they answer with is their own affair. Where both renderings
end well it is enough that lambdas have nothing rendered (`Lambda.Alone`).
-/

namespace Mustache

/-! ### Sources with every interpolation raw -/

namespace Piece

/-- The piece with its interpolation raw, if it is one. -/
def forced : Piece → Piece
  | .interpolation name _ => .interpolation name true
  | p => p

/-- Whether a piece is an interpolation that is escaped. -/
def isEscaped : Piece → Bool
  | .interpolation _ raw => !raw
  | _ => false

theorem forced_of_isEscaped_eq_false {p : Piece} (h : p.isEscaped = false) : p.forced = p := by
  rcases p with t | ⟨name, _ | _⟩ | ⟨name, inverted, line⟩ | name | ⟨name, indent, lineEnd?⟩
  · rfl
  · exact absurd h Bool.true_eq_false.mp
  all_goals rfl

/-- The sigil of a raw interpolation is all that is printed in addition. -/
theorem length_printed_forced (p : Piece) :
    p.forced.printed.length = p.printed.length + p.isEscaped.toNat := by
  rcases p with t | ⟨name, _ | _⟩ | ⟨name, inverted, line⟩ | name | ⟨name, indent, lineEnd?⟩
  · rfl
  · simp only [forced, isEscaped, printed, margin, body, lineEnd, printedTag]
    simp only [List.nil_append, List.append_nil, List.length_append, if_true, List.length_cons,
      Bool.not_false, Bool.toNat_true, Bool.false_eq_true, if_false]
    omega
  all_goals rfl

/-- A source gets longer by one character for each of its escaped tags. -/
theorem length_flatMap_printed_forced (ps : List Piece) :
    (ps.flatMap fun p ↦ p.forced.printed).length =
      (ps.flatMap printed).length + ps.countP isEscaped := by
  induction ps with
  | nil => rfl
  | cons p ps ih =>
    rw [List.flatMap_cons, List.flatMap_cons, List.length_append, List.length_append,
      length_printed_forced, ih, List.countP_cons]
    cases p.isEscaped <;> simp <;> omega

end Piece

namespace Element

mutual

/-- Forcing an element is forcing its pieces. -/
theorem pieces_forced (e : Element) : (e.forced true).pieces = e.pieces.map Piece.forced := by
  match e with
  | .text t => rfl
  | .interpolation name raw => cases raw <;> rfl
  | .block name inverted line children =>
    rw [forced, pieces, pieces, piecesOf_forcedAll children, List.map_cons, List.map_append]
    rfl
  | .inclusion name indent lineEnd? => rfl
termination_by structural e

/-- Elements with every interpolation raw have pieces with every interpolation raw. -/
theorem piecesOf_forcedAll (es : List Element) :
    piecesOf (forcedAll true es) = (piecesOf es).map Piece.forced := by
  match es with
  | [] => rfl
  | e :: es =>
    rw [forcedAll, piecesOf, piecesOf, pieces_forced e, piecesOf_forcedAll es, List.map_append]
termination_by structural es

end

/-- **A source stays as it is with every interpolation raw** exactly when none is escaped. -/
theorem sources_forcedAll_eq_iff (es : List Element) :
    sources (forcedAll true es) = sources es ↔ ∀ p ∈ piecesOf es, p.isEscaped = false := by
  rw [← String.toList_inj, sources_toList, sources_toList, piecesOf_forcedAll, List.flatMap_map]
  constructor
  · intro h p hp
    have hlength := congrArg List.length h
    rw [Piece.length_flatMap_printed_forced, Nat.add_eq_left, List.countP_eq_zero] at hlength
    exact Bool.eq_false_iff.2 (hlength p hp)
  · intro h
    refine congrArg List.flatten (List.map_congr_left fun p hp ↦ ?_)
    rw [Piece.forced_of_isEscaped_eq_false (h p hp)]

end Element

/-! ### Sources that are handed -/

/-- The source that a lambda is handed. -/
def Notice.handed? : Notice → Option String
  | .calling _ source => some source
  | _ => none

namespace Run

variable {α β γ δ : Type}

/-- The sources that lambdas are handed during a run, in order. -/
def handed (r : Run α) : List String :=
  r.notices.filterMap Notice.handed?

/-- Lambdas are handed their sources in the order of the run, and none behind its end. -/
theorem handed_bind (r : Run α) (next : α → Run β) :
    (r >>= next).handed = r.handed ++ (sequel next r.outcome).handed := by
  rw [handed, notices_bind, List.filterMap_append]
  rfl

/-- Whether two outcomes are both errors, or results in `A`. -/
inductive EitherWay (A : α → β → Prop) : Except Error α → Except Error β → Prop
  | error (e e' : Error) : EitherWay A (.error e) (.error e')
  | ok {a : α} {b : β} (h : A a b) : EitherWay A (.ok a) (.ok b)

/-- Whether two runs end alike: with errors, too deep, or with results in `A`. -/
inductive EndsAlike (A : α → β → Prop) : Except Halt α → Except Halt β → Prop
  | error (e e' : Error) : EndsAlike A (.error (.error e)) (.error (.error e'))
  | tooDeep : EndsAlike A (.error .tooDeep) (.error .tooDeep)
  | ok {a : α} {b : β} (h : A a b) : EndsAlike A (.ok a) (.ok b)

theorem EndsAlike.caught {A : α → β → Prop} {o : Except Halt α} {o' : Except Halt β}
    (h : EndsAlike A o o') : EndsAlike (EitherWay A) (Run.caught o) (Run.caught o') := by
  rcases h with ⟨e, e'⟩ | - | hab
  · exact .ok (.error e e')
  · exact .tooDeep
  · exact .ok (.ok hab)

/-- Whether two runs hand lambdas the same sources, those of the second with every interpolation raw
if `forceRaw` is set, and end alike. -/
structure HandsAlike (forceRaw : Bool) (A : α → β → Prop) (r : Run α) (s : Run β) : Prop where
  handed : ∃ sections : List (List Element), r.handed = sections.map Element.sources ∧
    s.handed = sections.map fun es ↦ Element.sources (Element.forcedAll forceRaw es)
  ends : EndsAlike A r.outcome s.outcome

variable {forceRaw : Bool} {A : α → β → Prop} {B : γ → δ → Prop} {r : Run α} {s : Run β}

/-- Runs that hand nothing to lambdas compare as they end. -/
theorem EndsAlike.handsAlike (h : EndsAlike A r.outcome s.outcome) (hr : r.handed = [])
    (hs : s.handed = []) : HandsAlike forceRaw A r s :=
  ⟨⟨[], hr, hs⟩, h⟩

/-- A run hands lambdas what it does itself. Any text is the source of itself. -/
theorem handsAlike_self {A : α → α → Prop} {r : Run α} (h : ∀ a, r.outcome = .ok a → A a a) :
    HandsAlike forceRaw A r r where
  handed := by
    have hsources (t : String) : Element.sources [.text t] = t := String.empty_append
    refine ⟨r.handed.map fun t ↦ [.text t], ?_, ?_⟩
    · rw [List.map_map]
      exact (List.map_id'' hsources _).symm
    · rw [List.map_map]
      exact (List.map_id'' hsources _).symm
  ends := by
    rcases hr : r.outcome with (e | _) | a
    · exact .error e e
    · exact .tooDeep
    · exact .ok (h a hr)

/-- **Runs that hand alike do so in sequence.** -/
theorem HandsAlike.bind {f : α → Run γ} {g : β → Run δ} (h : HandsAlike forceRaw A r s)
    (hnext : ∀ a b, r.outcome = .ok a → s.outcome = .ok b → A a b →
      HandsAlike forceRaw B (f a) (g b)) :
    HandsAlike forceRaw B (r >>= f) (s >>= g) := by
  have hrest : HandsAlike forceRaw B (sequel f r.outcome) (sequel g s.outcome) := by
    have hends := h.ends
    generalize r.outcome = o, s.outcome = o' at hends hnext
    rcases hends with ⟨e, e'⟩ | - | hab
    · exact EndsAlike.handsAlike (.error e e') rfl rfl
    · exact EndsAlike.handsAlike .tooDeep rfl rfl
    · exact hnext _ _ rfl rfl hab
  obtain ⟨sections, hr, hs⟩ := h.handed
  obtain ⟨others, hr', hs'⟩ := hrest.handed
  constructor
  · refine ⟨sections ++ others, ?_, ?_⟩
    · rw [handed_bind, hr, hr', List.map_append]
    · rw [handed_bind, hs, hs', List.map_append]
  · rw [outcome_bind, outcome_bind]
    exact hrest.ends

/-- An attempt hands out what its run does, with either end as a value. -/
theorem HandsAlike.attempt (h : HandsAlike forceRaw A r s) :
    HandsAlike forceRaw (EitherWay A) r.attempt s.attempt where
  handed := by
    rw [Run.handed, Run.handed, notices_attempt, notices_attempt]
    exact h.handed
  ends := by
    rw [outcome_attempt, outcome_attempt]
    exact h.ends.caught

/-- What is written plays no part in what a run that is captured hands on. -/
theorem HandsAlike.captured {r s : Run Unit} (h : HandsAlike forceRaw Eq r s) :
    HandsAlike forceRaw (EitherWay fun _ _ ↦ True) r.captured s.captured where
  handed := by
    rw [Run.handed, Run.handed, Run.captured, Run.captured, notices_capturedAfter,
      notices_capturedAfter]
    exact h.handed
  ends := by
    rw [outcome_captured, outcome_captured]
    refine EndsAlike.caught ?_
    have hends := h.ends
    generalize r.outcome = o, s.outcome = o' at hends
    rcases hends with ⟨e, e'⟩ | - | -
    · exact .error e e'
    · exact .tooDeep
    · exact .ok trivial

/-- Whether a run ends well. -/
def EndsWell (r : Run α) : Prop :=
  ∃ a, r.outcome = .ok a

theorem EndsWell.of_bind {f : α → Run γ} (h : (r >>= f).EndsWell) :
    r.EndsWell ∧ ∀ a, r.outcome = .ok a → (f a).EndsWell := by
  obtain ⟨c, hc⟩ := h
  rw [EndsWell]
  rw [outcome_bind] at hc
  generalize r.outcome = o at hc
  rcases o with halt | a
  · exact nomatch hc
  · refine ⟨⟨a, rfl⟩, fun a' ha' ↦ ?_⟩
    obtain rfl := Except.ok.inj ha'
    exact ⟨c, hc⟩

/-- Runs are compared by what they hand to lambdas, in any case if `always` is set and else if both
end well. -/
def Comparison.handing (forceRaw always : Bool) : Comparison where
  Rel A r s := always = true ∨ r.EndsWell ∧ s.EndsWell → HandsAlike forceRaw A r s
  rel_pure h _ := EndsAlike.handsAlike (.ok h) rfl rfl
  rel_bind {_ _ _ _ A B r s f g} h hnext hends := by
    refine (h (hends.imp_right (And.imp (fun hr ↦ hr.of_bind.1) fun hs ↦ hs.of_bind.1))).bind ?_
    intro a b ha hb hab
    exact hnext a b hab (hends.imp_right (And.imp (fun hr ↦ hr.of_bind.2 a ha)
      fun hs ↦ hs.of_bind.2 b hb))

/-- Runs that hand out alike compare well, whether only good ends are asked about or not. -/
theorem HandsAlike.handing {always : Bool} (h : HandsAlike forceRaw A r s) :
    (Comparison.handing forceRaw always).Rel A r s :=
  fun _ ↦ h

end Run

/-! ### Lambdas that go the same way -/

/-- Whether two scripts have the same texts rendered and fail together, as long as what they have
rendered does. -/
inductive Script.InStep : Script → Script → Prop
  | answer (t t' : String) : InStep (.answer t) (.answer t')
  | fail (t t' : String) : InStep (.fail t) (.fail t')
  | render (text : String) {next next' : Except Error String → Script}
      (h : ∀ o o', Run.EitherWay (fun _ _ ↦ True) o o' → InStep (next o) (next' o')) :
      InStep (.render text next) (.render text next')

/-- Whether a script has nothing rendered. -/
def Script.Alone : Script → Prop
  | .answer _ | .fail _ => True
  | .render _ _ => False

/-- Whether a lambda goes the same way for any source and, if `forceRaw` is set, the same source
with every interpolation raw. -/
def Lambda.Steady (forceRaw : Bool) (l : Lambda) : Prop :=
  ∀ es, (l.script (Element.sources es)).InStep
    (l.script (Element.sources (Element.forcedAll forceRaw es)))

/-- Whether a lambda has nothing rendered. -/
def Lambda.Alone (l : Lambda) : Prop :=
  ∀ source, (l.script source).Alone

theorem Script.InStep.handsAlike_run {forceRaw : Bool} {s s' : Script} (h : s.InStep s')
    {render render' : String → Run (Except Error String)}
    (hrender : ∀ text, Run.HandsAlike forceRaw (Run.EitherWay fun _ _ ↦ True) (render text)
      (render' text)) :
    Run.HandsAlike forceRaw (fun _ _ ↦ True) (s.run render) (s'.run render') := by
  induction h with
  | answer t t' => exact Run.EndsAlike.handsAlike (.ok trivial) rfl rfl
  | fail t t' => exact Run.EndsAlike.handsAlike (.error _ _) rfl rfl
  | render text _ ih => exact (hrender text).bind fun o o' _ _ ho ↦ ih o o' ho

/-- Scripts that have nothing rendered hand nothing on, and compare where both answer. -/
theorem Script.Alone.handsAlike_run {forceRaw : Bool} {s s' : Script} (h : s.Alone) (h' : s'.Alone)
    {render render' : String → Run (Except Error String)} (hr : (s.run render).EndsWell)
    (hs : (s'.run render').EndsWell) :
    Run.HandsAlike forceRaw (fun _ _ ↦ True) (s.run render) (s'.run render') := by
  rcases s with t | t | ⟨t, next⟩
  · rcases s' with t' | t' | ⟨t', next'⟩
    · exact Run.EndsAlike.handsAlike (.ok trivial) rfl rfl
    · exact nomatch hs
    · exact h'.elim
  · exact nomatch hr
  · exact h.elim

/-- What is asked of lambdas to compare two runs in any case, or where both end well. -/
def Lambda.Followed (forceRaw : Bool) : Bool → Lambda → Prop
  | true, l => l.Steady forceRaw
  | false, l => l.Alone

/-! ### Renderings -/

/-- What renderings are compared on: the same scopes, with lambdas in `P`. -/
def SameScopesWith (P : Lambda → Prop) (chain chain' : List Value) : Prop :=
  chain = chain' ∧ ∀ v ∈ chain, v.AllLambdas P

namespace Compiler

variable (c : Compiler) {mode : EscapeMode} (mode' : EscapeMode)

/-- Whether two templates are of the same text in two modes, every interpolation raw in raw mode. -/
def InModes (mode mode' : EscapeMode) (t t' : Template) : Prop :=
  t.compiler = c.withEscapeMode mode ∧
    t' = ⟨t.tree.forced (mode' == .raw), c.withEscapeMode mode'⟩

theorem handsAlike_compile (hmode : mode ≠ .raw) (text : String) :
    Run.HandsAlike (mode' == .raw) (c.InModes mode mode') ((c.withEscapeMode mode).compile text)
      ((c.withEscapeMode mode').compile text) := by
  have hparse : (c.withEscapeMode mode').parse text =
      ((c.withEscapeMode mode).parse text).map (Tree.forced (mode' == .raw)) := by
    have hmode : (mode == .raw) = false := beq_eq_false_iff_ne.2 hmode
    show Tree.ofText (mode' == .raw) text = (Tree.ofText (mode == .raw) text).map _
    rw [hmode, Tree.ofText_eq_map_forced]
  rw [compile, compile, hparse]
  rcases (c.withEscapeMode mode).parse text with m | tree
  · exact Run.EndsAlike.handsAlike (.error _ _) rfl rfl
  · exact Run.EndsAlike.handsAlike (.ok ⟨rfl, rfl⟩) rfl rfl

theorem handsAlike_fetch (hmode : mode ≠ .raw) (files : FileTree) (provider : Provider)
    (name indent : String) :
    Run.HandsAlike (mode' == .raw) (c.InModes mode mode')
      ((c.withEscapeMode mode).fetch files provider name indent)
      ((c.withEscapeMode mode').fetch files provider name indent) := by
  refine (Run.handsAlike_self (A := Eq) fun _ _ ↦ rfl).bind fun _ _ _ _ _ ↦ ?_
  refine (Run.handsAlike_self (A := Eq) fun _ _ ↦ rfl).bind fun _ _ _ _ _ ↦ ?_
  refine (Run.handsAlike_self (A := Eq) fun _ _ ↦ rfl).bind ?_
  rintro text _ - - rfl
  exact c.handsAlike_compile mode' hmode _

/-- A value that a name stands for is within one of the scopes. -/
theorem exists_within_of_valueOf {chain : List Value} {name : String} {v : Value}
    (h : (c.valueOf chain name).outcome = .ok (some v)) : ∃ scope ∈ chain, v.Within scope := by
  rw [outcome_valueOf] at h
  split at h
  · next w hw =>
    obtain rfl : w = v := Option.some.inj (Except.ok.inj h)
    exact Value.exists_within_of_lookup hw
  · split at h
    · exact nomatch h
    · exact nomatch Except.ok.inj h

/-- No lambda is handed anything for an interpolation. The two modes differ in how its value is
written. -/
theorem handsAlike_interpolate (mode : EscapeMode) (chain : List Value) (name : String)
    (raw raw' : Bool) :
    Run.HandsAlike (mode' == .raw) Eq ((c.withEscapeMode mode).interpolate chain name raw)
      ((c.withEscapeMode mode').interpolate chain name raw') := by
  -- the search and the stringer know nothing of the mode, so up to the text the runs are the same
  refine (Run.handsAlike_self (A := Eq) fun _ _ ↦ rfl).bind ?_
  rintro v? _ - - rfl
  rcases v? with - | v
  · exact Run.EndsAlike.handsAlike (.ok rfl) rfl rfl
  · refine (Run.handsAlike_self (A := Eq) fun _ _ ↦ rfl).bind ?_
    rintro text _ - - rfl
    exact Run.EndsAlike.handsAlike (.ok rfl) rfl rfl

section

variable {mode'} {always : Bool} {files : FileTree} {reenter reenter' : Reentry}
  {chain : List Value}
  (hreenter : reenter.Compare (.handing (mode' == .raw) always) (fun _ ↦ True)
    (SameScopesWith (Lambda.Followed (mode' == .raw) always)) (reenter'.forced (mode' == .raw)))
  (hchain : ∀ v ∈ chain, v.AllLambdas (Lambda.Followed (mode' == .raw) always))
include hreenter hchain

/-- A partial hands out what its elements do, or fails in both modes before that. -/
theorem handing_renderInclusion (hmode : mode ≠ .raw) (name indent : String) :
    (Run.Comparison.handing (mode' == .raw) always).Rel Eq
      ((c.withEscapeMode mode).renderInclusion files reenter chain name indent pure)
      ((c.withEscapeMode mode').renderInclusion files reenter' chain name indent pure) := by
  have hprovider (mode : EscapeMode) : (c.withEscapeMode mode).provider? = c.provider? := rfl
  have hstrict (mode : EscapeMode) : (c.withEscapeMode mode).strict = c.strict := rfl
  rw [renderInclusion, renderInclusion, hprovider, hprovider, hstrict, hstrict]
  rcases c.provider? with - | provider
  · exact (Run.handsAlike_self fun _ _ ↦ rfl).handing
  · refine Run.Comparison.rel_bind _
      (c.handsAlike_fetch mode' hmode files provider name indent).attempt.handing ?_
    rintro _ _ (⟨e, e'⟩ | ⟨-, rfl⟩)
    · -- the partial cannot be had in either mode
      refine Run.HandsAlike.handing ?_
      dsimp only
      split
      · exact Run.EndsAlike.handsAlike (.error e e') rfl rfl
      · exact Run.EndsAlike.handsAlike (.ok rfl) rfl rfl
    · exact hreenter _ (fun _ _ ↦ trivial) _ _ ⟨rfl, hchain⟩

/-- A lambda is handed the source of its section, forced in raw mode, and then what the texts that
it has rendered hand out. -/
theorem handing_callLambda {l : Lambda} (hl : l.Followed (mode' == .raw) always)
    (hmode : mode ≠ .raw) (name : String) (children : List Element) :
    (Run.Comparison.handing (mode' == .raw) always).Rel Eq
      ((c.withEscapeMode mode).callLambda reenter chain name l (Element.sources children))
      ((c.withEscapeMode mode').callLambda reenter' chain name l
        (Element.sources (Element.forcedAll (mode' == .raw) children))) := by
  refine Run.Comparison.rel_bind (A := Eq) _
    (Run.HandsAlike.handing ⟨⟨[children], rfl, rfl⟩, .ok rfl⟩) fun _ _ _ ↦ ?_
  -- the answers may differ, but writing them hands nothing out
  refine Run.Comparison.rel_bind (A := fun _ _ ↦ True) _ ?_ fun _ _ _ ↦
    (Run.EndsAlike.handsAlike (.ok rfl) rfl rfl).handing
  rcases always with - | -
  · -- compared only if both runs end well: the lambda has nothing rendered then
    rintro (h | ⟨hr, hs⟩)
    · cases h
    · exact (hl _).handsAlike_run (hl _) hr hs
  · -- compared in any case: the lambda has the same texts rendered in both modes
    refine ((hl children).handsAlike_run fun text ↦ ?_).handing
    refine Run.HandsAlike.captured ((c.handsAlike_compile mode' hmode text).bind ?_)
    rintro t _ - - ⟨-, rfl⟩
    exact hreenter _ (fun _ _ ↦ trivial) _ _ ⟨rfl, hchain⟩ (.inl rfl)

end

/-- **Renderings in two modes, side by side.** -/
theorem sideBySide_handing (hmode : mode ≠ .raw) (always : Bool) (files : FileTree) :
    (c.withEscapeMode mode).SideBySideForced (mode' == .raw)
      (.handing (mode' == .raw) always) (fun _ ↦ True)
      (SameScopesWith (Lambda.Followed (mode' == .raw) always))
      (fun l l' ↦ l = l' ∧ l.Followed (mode' == .raw) always) (c.withEscapeMode mode') files where
  tooDeep := (Run.EndsAlike.handsAlike .tooDeep rfl rfl).handing
  write _ := (Run.EndsAlike.handsAlike (.ok rfl) rfl rfl).handing
  interpolate := by
    rintro name raw - chain _ ⟨rfl, -⟩
    exact (c.handsAlike_interpolate mode' mode chain name raw _).handing
  renderInclusion := by
    rintro name indent lineEnd? - reenter reenter' hreenter chain _ ⟨rfl, hchain⟩
    exact c.handing_renderInclusion hreenter hchain hmode name indent
  valueOf := by
    rintro name inverted line - chain _ ⟨rfl, hchain⟩
    refine Run.HandsAlike.handing (Run.handsAlike_self fun v? hv? ↦ ?_)
    -- what is found comes out of a scope, so its lambdas are as the comparison asks
    have hvalue (v : Value) (hv : v? = some v) :
        v.AllLambdas (Lambda.Followed (mode' == .raw) always) := by
      obtain ⟨scope, hscope, hwithin⟩ := (c.withEscapeMode mode).exists_within_of_valueOf (hv ▸ hv?)
      exact (hchain scope hscope).of_within hwithin
    exact (Value.allLambdas_visit hvalue inverted).paired
      (fun v hv ↦ ⟨rfl, List.forall_mem_cons.2 ⟨hv, hchain⟩⟩)
      ⟨rfl, Value.allLambdas_head_append hchain⟩
  callLambda := by
    rintro l _ ⟨rfl, hl⟩ reenter reenter' hreenter chain _ ⟨rfl, hchain⟩ name children
    exact c.handing_callLambda hreenter hchain hl hmode name children

/-- Renderings of a text in two modes hand lambdas the same sources, with every interpolation raw in
raw mode. -/
theorem handing_renderTemplate (hmode : mode ≠ .raw) (always : Bool) (files : FileTree)
    (template : String) (contexts : List Value)
    (hlambdas : ∀ v ∈ contexts, v.AllLambdas (Lambda.Followed (mode' == .raw) always)) :
    (Run.Comparison.handing (mode' == .raw) always).Rel Eq
      ((c.withEscapeMode mode).renderTemplate files template contexts)
      ((c.withEscapeMode mode').renderTemplate files template contexts) := by
  refine Run.Comparison.rel_bind _ (c.handsAlike_compile mode' hmode template).handing ?_
  rintro t _ ⟨hcompiler, rfl⟩
  rw [Template.run, hcompiler]
  exact (c.sideBySide_handing mode' hmode always files).renderAt Template.maxDepth _
    (fun _ _ ↦ trivial) _ _ ⟨rfl, hlambdas⟩

end Compiler

/-- **What the escape mode does to the sources that lambdas are handed.** In two modes that escape
values they are the same, with lambdas that go the same way whatever a text they have had rendered
is. In raw mode they are those sources with every interpolation raw, with lambdas that do not go
another way for that, or that have nothing rendered if both renderings end well. So all of them are
the same exactly when none of them has an interpolation to be escaped. -/
theorem handed_sources_by_escape_mode (c : Compiler) (files : FileTree) (template : String)
    (contexts : List Value) :
    (∀ mode mode', mode ≠ .raw → mode' ≠ .raw →
      (∀ v ∈ contexts, v.AllLambdas (Lambda.Steady false)) →
        ((c.withEscapeMode mode).renderTemplate files template contexts).handed =
          ((c.withEscapeMode mode').renderTemplate files template contexts).handed) ∧
    ∀ mode, mode ≠ .raw →
      let r := (c.withEscapeMode mode).renderTemplate files template contexts
      let s := (c.withEscapeMode .raw).renderTemplate files template contexts
      (∀ v ∈ contexts, v.AllLambdas (Lambda.Steady true)) ∨
          (∀ v ∈ contexts, v.AllLambdas Lambda.Alone) ∧ r.outcome = .ok () ∧ s.outcome = .ok () →
        ∃ sections : List (List Element),
          r.handed = sections.map Element.sources ∧
          s.handed = (sections.map fun es ↦ Element.sources (Element.forcedAll true es)) ∧
          (s.handed = r.handed ↔
            ∀ es ∈ sections, ∀ p ∈ Element.piecesOf es, p.isEscaped = false) := by
  constructor
  · intro mode mode' hmode hmode' hlambdas
    have hescapes : (mode' == .raw) = false := beq_eq_false_iff_ne.2 hmode'
    have hcompare := c.handing_renderTemplate mode' hmode true files template contexts
      (by rw [hescapes]; exact hlambdas)
    obtain ⟨sections, hr, hs⟩ := (hcompare (.inl rfl)).handed
    simp only [hescapes, Element.forcedAll_false] at hs
    rw [hr, hs]
  · intro mode hmode r s hlambdas
    have hcompare : Run.HandsAlike true Eq r s := by
      rcases hlambdas with hsteady | ⟨halone, hr, hs⟩
      · exact c.handing_renderTemplate .raw hmode true files template contexts hsteady (.inl rfl)
      · exact c.handing_renderTemplate .raw hmode false files template contexts halone
          (.inr ⟨⟨_, hr⟩, ⟨_, hs⟩⟩)
    obtain ⟨sections, hr, hs⟩ := hcompare.handed
    refine ⟨sections, hr, hs, ?_⟩
    rw [hr, hs, List.map_inj_left]
    exact forall₂_congr fun es _ ↦ Element.sources_forcedAll_eq_iff es

/-- A lambda that has a text of its own rendered, with the section of another lambda in it. -/
theorem handed_sources_by_escape_mode_of_nested :
    let quoting : Lambda := ⟨0, fun source ↦ .answer source⟩
    let asking : Lambda :=
      ⟨1, fun _ ↦ .render "\x7b\x7b#k\x7d\x7d\x7b\x7bx\x7d\x7d\x7b\x7b/k\x7d\x7d"
        fun _ ↦ .answer "."⟩
    let contexts : List Value :=
      [.map [("k", .lambda quoting), ("l", .lambda asking), ("x", .text "<")]]
    let template := "\x7b\x7b#l\x7d\x7d\x7b\x7bx\x7d\x7d;\x7b\x7b&x\x7d\x7d\x7b\x7b/l\x7d\x7d"
    let handed (mode : EscapeMode) :=
      ((Compiler.standard.withEscapeMode mode).renderTemplate .empty template contexts).handed
    (∀ forceRaw, ∀ v ∈ contexts, v.AllLambdas (Lambda.Steady forceRaw)) ∧
      handed .html = ["\x7b\x7bx\x7d\x7d;\x7b\x7b&x\x7d\x7d", "\x7b\x7bx\x7d\x7d"] ∧
      handed .json = handed .html ∧
      handed .raw = ["\x7b\x7b&x\x7d\x7d;\x7b\x7b&x\x7d\x7d", "\x7b\x7b&x\x7d\x7d"] ∧
      ∃ sections : List (List Element), handed .html = sections.map Element.sources ∧
        handed .raw = (sections.map fun es ↦ Element.sources (Element.forcedAll true es)) ∧
        ¬ ∀ es ∈ sections, ∀ p ∈ Element.piecesOf es, p.isEscaped = false := by
  intro quoting asking contexts template handed
  have hsteady (forceRaw : Bool) : ∀ v ∈ contexts, v.AllLambdas (Lambda.Steady forceRaw) := by
    refine List.forall_mem_singleton.2 (Value.allLambdas_map ?_)
    have hk : quoting.Steady forceRaw := fun _ ↦ .answer _ _
    have hl : asking.Steady forceRaw := fun _ ↦ .render _ fun _ _ _ ↦ .answer _ _
    exact List.forall_mem_cons.2 ⟨Value.allLambdas_lambda hk, List.forall_mem_cons.2
      ⟨Value.allLambdas_lambda hl, List.forall_mem_singleton.2 (Value.allLambdas_text _)⟩⟩
  have hhtml : handed .html = ["\x7b\x7bx\x7d\x7d;\x7b\x7b&x\x7d\x7d", "\x7b\x7bx\x7d\x7d"] := by
    decide +kernel
  have hraw : handed .raw = ["\x7b\x7b&x\x7d\x7d;\x7b\x7b&x\x7d\x7d", "\x7b\x7b&x\x7d\x7d"] := by
    decide +kernel
  obtain ⟨hescaping, hforced⟩ := handed_sources_by_escape_mode .standard .empty template contexts
  obtain ⟨sections, hr, hs, hiff⟩ := hforced .html (by decide) (.inl (hsteady true))
  refine ⟨hsteady, hhtml, hescaping .json .html (by decide) (by decide) (hsteady false), hraw,
    sections, hr, hs, fun h ↦ ?_⟩
  have hsame : handed .raw = handed .html := hiff.2 h
  rw [hraw, hhtml] at hsame
  exact absurd hsame (by decide)

/-- In raw mode a lambda is handed another source than the one that was written. -/
theorem handed_source_is_rewritten :
    let quoting : Lambda := ⟨0, fun source ↦ .answer source⟩
    let contexts : List Value := [.map [("l", .lambda quoting)]]
    let template := "\x7b\x7b#l\x7d\x7d\x7b\x7bx\x7d\x7d\x7b\x7b/l\x7d\x7d"
    let run (mode : EscapeMode) :=
      (Compiler.standard.withEscapeMode mode).renderTemplate .empty template contexts
    quoting.Alone ∧ (run .html).toText = .ok "\x7b\x7bx\x7d\x7d" ∧
      (run .raw).toText = .ok "\x7b\x7b&x\x7d\x7d" ∧
      (run .html).handed = ["\x7b\x7bx\x7d\x7d"] ∧ (run .raw).handed = ["\x7b\x7b&x\x7d\x7d"] := by
  intro quoting contexts template run
  have hhtml : (run .html).outcome = .ok () ∧ (run .html).text = "\x7b\x7bx\x7d\x7d" := by
    decide +kernel
  have hraw : (run .raw).outcome = .ok () ∧ (run .raw).text = "\x7b\x7b&x\x7d\x7d" := by
    decide +kernel
  exact ⟨fun _ ↦ trivial, Run.toText_of_ok hhtml, Run.toText_of_ok hraw, by decide +kernel,
    by decide +kernel⟩

end Mustache
