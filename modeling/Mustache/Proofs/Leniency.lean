import Mustache.Proofs.RunsInSequence
import Mustache.Proofs.Within

/-!
# Strict and lenient renderings

A strict compiler makes errors of what a lenient one leaves out: a name without a value, a partial
that cannot be fetched or compiled, a partial without a provider. Nothing else tells them apart, so
a strict rendering that ends well is the lenient one, and one that fails has written the start of
what the lenient one writes (`strict_refines_lenient`).

That needs lambdas to play along (`Lambda.PassesErrors`): one that goes on when a text it has had
rendered has failed sees the error of a strict rendering, and may make of it what it likes.

`Run.Refines` compares a strict run with a lenient one and is kept by sequencing. The errors that
only the strict run has lead nowhere (`Run.Lost`): either they end it, or they are results that
what comes next makes errors of, and nothing is written in between (`Run.refines_of_caught`).

The second chain may have more values than the first: what a strict rendering finds no value for is
an error of it, whatever the other one finds there. So each part is compared for any chain that has
the values of the first, and for either policy.
-/

namespace Mustache

/-! ### Lambdas that pass errors on -/

/-- Whether a script fails, whatever becomes of the texts it has rendered. -/
def Script.Fails : Script → Prop
  | .answer _ => False
  | .fail _ => True
  | .render _ next => ∀ outcome, (next outcome).Fails

/-- Whether a script fails whenever a text it has had rendered has failed. -/
def Script.PassesErrors : Script → Prop
  | .answer _ | .fail _ => True
  | .render _ next => (∀ e, (next (.error e)).Fails) ∧ ∀ t, (next (.ok t)).PassesErrors

/-- Whether a lambda fails whenever a text it has had rendered has failed. -/
def Lambda.PassesErrors (l : Lambda) : Prop :=
  ∀ source, (l.script source).PassesErrors

/-! ### Refinement of runs -/

namespace Run

variable {α β γ δ : Type}

/-- Whether a run comes to nothing: it writes nothing and does not end well. -/
def Lost (r : Run α) : Prop :=
  r.text = "" ∧ ∀ a, r.outcome ≠ .ok a

/-- A run that fails at once comes to nothing. -/
theorem lost_fail (e : Error) : (fail e : Run α).Lost :=
  ⟨rfl, fun _ h ↦ nomatch h⟩

theorem lost_tooDeep : (tooDeep : Run α).Lost :=
  ⟨rfl, fun _ h ↦ nomatch h⟩

/-- What follows a run without texts and comes to nothing does so behind it. -/
theorem lost_bind {r : Run α} (htext : r.text = "") {next : α → Run β}
    (h : ∀ a, (next a).Lost) : (r >>= next).Lost := by
  rw [Lost, text_bind, outcome_bind, htext, String.empty_append]
  rcases r.outcome with h | a
  · exact ⟨rfl, fun _ heq ↦ nomatch heq⟩
  · exact h a

/-- Whether a run writes a start of what another one writes, and all of it if it ends well. The
other one ends well then, and with a result in `A`. -/
structure Refines (A : α → β → Prop) (r : Run α) (s : Run β) : Prop where
  text_prefix : ∃ more, s.text = r.text ++ more
  of_ok {a : α} (h : r.outcome = .ok a) : s.text = r.text ∧ ∃ b, s.outcome = .ok b ∧ A a b

theorem refines_pure {A : α → β → Prop} {a : α} {b : β} (h : A a b) :
    Refines A (pure a) (pure b) where
  text_prefix := ⟨"", rfl⟩
  of_ok heq := by
    obtain rfl := Except.ok.inj heq
    exact ⟨rfl, b, rfl, h⟩

/-- Every run refines itself. -/
theorem refines_refl (r : Run α) : Refines Eq r r where
  text_prefix := ⟨"", String.append_empty.symm⟩
  of_ok h := ⟨rfl, _, h, rfl⟩

/-- Reports make no difference. -/
theorem refines_report (ns ms : List Notice) : Refines Eq (report ns) (report ms) where
  text_prefix := ⟨"", by rw [text_of_quiet (quiet_report ns), text_of_quiet (quiet_report ms)]; rfl⟩
  of_ok {_} _ := by
    rw [text_of_quiet (quiet_report ns), text_of_quiet (quiet_report ms)]
    exact ⟨rfl, (), outcome_report ms, rfl⟩

/-- The relation between the values of both runs may be widened. -/
theorem Refines.mono {A B : α → β → Prop} {r : Run α} {s : Run β} (h : Refines A r s)
    (hAB : ∀ a b, A a b → B a b) : Refines B r s where
  text_prefix := h.text_prefix
  of_ok heq := by
    obtain ⟨htext, b, hs, hab⟩ := h.of_ok heq
    exact ⟨htext, b, hs, hAB _ _ hab⟩

/-- A run that comes to nothing refines anything. -/
theorem Lost.refines {A : α → β → Prop} {r : Run α} (h : r.Lost) (s : Run β) : Refines A r s where
  text_prefix := ⟨s.text, by rw [h.1, String.empty_append]⟩
  of_ok heq := absurd heq (h.2 _)

/-- **Refinement is kept by sequencing.** -/
theorem Refines.bind {A : α → β → Prop} {B : γ → δ → Prop} {r : Run α} {s : Run β}
    {f : α → Run γ} {g : β → Run δ} (h : Refines A r s)
    (hnext : ∀ a b, A a b → Refines B (f a) (g b)) : Refines B (r >>= f) (s >>= g) := by
  rcases hr : r.outcome with e | a
  · -- the first run has failed, and the second may write more and go on
    obtain ⟨more, hmore⟩ := h.text_prefix
    refine ⟨⟨more ++ (sequel g s.outcome).text, ?_⟩, fun heq ↦ ?_⟩
    · rw [text_bind, text_bind, hr, hmore, String.append_assoc]
      show _ = r.text ++ "" ++ _
      rw [String.append_empty]
    · rw [outcome_bind, hr] at heq
      exact nomatch heq
  · obtain ⟨htext, b, hs, hab⟩ := h.of_ok hr
    have hrest := hnext a b hab
    obtain ⟨more, hmore⟩ := hrest.text_prefix
    refine ⟨⟨more, ?_⟩, fun {c} heq ↦ ?_⟩
    · rw [text_bind, text_bind, hr, hs, htext, String.append_assoc]
      exact congrArg _ hmore
    · rw [outcome_bind, hr] at heq
      obtain ⟨hsame, d, hd, hcd⟩ := hrest.of_ok heq
      refine ⟨?_, d, ?_, hcd⟩
      · rw [text_bind, text_bind, hr, hs, htext]
        exact congrArg _ hsame
      · rw [outcome_bind, hs]
        exact hd

/-- **Errors that are caught** make no difference as long as they come to nothing further on. -/
theorem refines_of_caught {A : α → β → Prop} {B : γ → δ → Prop} {r : Run (Except Error α)}
    {s : Run (Except Error β)} {o : Except Halt α} {o' : Except Halt β} (hr : r.text = "")
    (hro : r.outcome = caught o) (hs : s.text = "") (hso : s.outcome = caught o')
    (h : ∀ a, o = .ok a → ∃ b, o' = .ok b ∧ A a b) {f : Except Error α → Run γ}
    {g : Except Error β → Run δ} (hok : ∀ a b, A a b → Refines B (f (.ok a)) (g (.ok b)))
    (herror : ∀ e, (f (.error e)).Lost) : Refines B (r >>= f) (s >>= g) := by
  rcases o with (e | _) | a
  · refine Lost.refines ⟨?_, ?_⟩ _
    · rw [text_bind, hr, hro, String.empty_append]
      exact (herror e).1
    · rw [outcome_bind, hro]
      exact (herror e).2
  · refine Lost.refines ⟨?_, ?_⟩ _
    · rw [text_bind, hr, hro]
      rfl
    · rw [outcome_bind, hro]
      exact fun _ heq ↦ nomatch heq
  · obtain ⟨b, rfl, hab⟩ := h a rfl
    have hresult : Refines (fun x y ↦ ∃ a b, x = .ok a ∧ y = .ok b ∧ A a b) r s := by
      refine ⟨⟨"", by rw [hr, hs, String.append_empty]⟩, fun heq ↦ ⟨by rw [hr, hs], _, hso, ?_⟩⟩
      obtain rfl := Except.ok.inj (heq.symm.trans hro)
      exact ⟨a, b, rfl, rfl, hab⟩
    refine hresult.bind ?_
    rintro _ _ ⟨a, b, rfl, rfl, hab⟩
    exact hok a b hab

/-- A text that the strict run gives is the text of the lenient one. -/
theorem Refines.toText {r s : Run Unit} (h : Refines Eq r s) {t : String} (hr : r.toText = .ok t) :
    s.toText = .ok t := by
  rw [toText_eq] at hr ⊢
  rcases hout : r.outcome with halt | ⟨⟩
  · rw [hout] at hr
    exact nomatch hr
  · obtain ⟨htext, _, hs, -⟩ := h.of_ok hout
    rw [hout] at hr
    rw [hs, htext]
    exact hr

/-- Strict and lenient runs are compared by refinement. -/
def Comparison.refinement : Comparison where
  Rel := Refines
  rel_pure := refines_pure
  rel_bind := Refines.bind

end Run

/-! ### Scripts -/

namespace Script

/-- A script that fails whatever its renderings come to comes to nothing. -/
theorem Fails.lost_run {s : Script} (h : s.Fails) {render : String → Run (Except Error String)}
    (hrender : ∀ text, (render text).Quiet) : (s.run render).Lost := by
  induction s with
  | answer text => exact h.elim
  | fail text => exact Run.lost_fail _
  | render text next ih =>
    exact Run.lost_bind (Run.text_of_quiet (hrender text)) fun outcome ↦ ih outcome (h outcome)

/-- A script that passes errors on is refined when what it has rendered is. -/
theorem PassesErrors.refines_run {s : Script} (h : s.PassesErrors) {r r' : String → Run Unit}
    (hrender : ∀ text, Run.Refines Eq (r text) (r' text)) :
    Run.Refines Eq (s.run fun text ↦ (r text).captured) (s.run fun text ↦ (r' text).captured) := by
  induction s with
  | answer text => exact Run.refines_pure rfl
  | fail text => exact (Run.lost_fail _).refines _
  | render text next ih =>
    have hquiet (r : Run Unit) : r.captured.Quiet := Run.quiet_capturedAfter "" r
    refine Run.refines_of_caught (A := Eq) (Run.text_of_quiet (hquiet _)) (Run.outcome_captured _)
      (Run.text_of_quiet (hquiet _)) (Run.outcome_captured _) ?_ ?_ ?_
    · intro t ht
      rcases hr : (r text).outcome with e | ⟨⟩
      · rw [hr] at ht
        exact nomatch ht
      · rw [hr] at ht
        obtain rfl := Except.ok.inj ht
        obtain ⟨htext, _, hb, -⟩ := (hrender text).of_ok hr
        exact ⟨_, by rw [hb]; rfl, htext.symm⟩
    · rintro t _ rfl
      exact ih _ (h.2 t)
    · exact fun e ↦ (h.1 e).lost_run fun text ↦ hquiet _

end Script

/-! ### Renderings -/

/-- What strict and lenient renderings are compared on: the same scopes, with lambdas that pass
errors on. -/
def SameScopes (chain chain' : List Value) : Prop :=
  chain = chain' ∧ ∀ v ∈ chain, v.AllLambdas Lambda.PassesErrors

namespace Compiler

variable (c : Compiler) {strict : Bool} {chain chain' : List Value}

section

variable {name : String}
  (h : ∀ v, (Value.lookup chain name).found = .ok v → (Value.lookup chain' name).found = .ok v)
include h

/-- A name that has a value for a strict compiler has the same one for another compiler, if the
chain of that has it too. -/
theorem refines_valueOf :
    Run.Refines (fun v? w? ↦ v? = w? ∧ ∀ v, v? = some v → ∃ scope ∈ chain, v.Within scope)
      ((c.withStrict true).valueOf chain name) ((c.withStrict strict).valueOf chain' name) := by
  refine (Run.refines_report _ _).bind fun _ _ _ ↦ ?_
  rcases hfound : (Value.lookup chain name).found with segment | v
  · exact (Run.lost_fail _).refines _
  · rw [h v hfound]
    refine Run.refines_pure ⟨rfl, ?_⟩
    rintro _ ⟨⟩
    exact Value.exists_within_of_lookup hfound

/-- A section visits the same with both, and lambdas that pass errors on only. -/
theorem refines_visit {S : List Value → List Value → Prop}
    (hlambdas : ∀ v ∈ chain, v.AllLambdas Lambda.PassesErrors)
    (hcons : ∀ v : Value, v.AllLambdas Lambda.PassesErrors → S (v :: chain) (v :: chain'))
    (hstay : S (chain.head?.toList ++ chain) (chain'.head?.toList ++ chain')) (inverted : Bool) :
    Run.Refines
      (fun v? w? ↦ (Value.visit inverted v?).Paired S (fun l l' ↦ l = l' ∧ l.PassesErrors) chain
        chain' (Value.visit inverted w?))
      ((c.withStrict true).valueOf chain name) ((c.withStrict strict).valueOf chain' name) := by
  refine (c.refines_valueOf h).mono ?_
  rintro v? _ ⟨rfl, hwithin⟩
  have hvalue (v : Value) (hv : v? = some v) : v.AllLambdas Lambda.PassesErrors := by
    obtain ⟨scope, hscope, hv⟩ := hwithin v hv
    exact (hlambdas scope hscope).of_within hv
  exact (Value.allLambdas_visit hvalue inverted).paired hcons hstay

/-- A name that has no value ends the strict run, and is written as nothing by the lenient one. -/
theorem refines_interpolate (raw : Bool) :
    Run.Refines Eq ((c.withStrict true).interpolate chain name raw)
      ((c.withStrict strict).interpolate chain' name raw) := by
  refine (c.refines_valueOf h).bind ?_
  rintro v? _ ⟨rfl, -⟩
  exact Run.refines_refl _

end

/-- A text is compiled the same by both. -/
theorem refines_compile (text : String) :
    Run.Refines
      (fun t t' ↦ t.tree = t'.tree ∧ t.compiler = c.withStrict true ∧
        t'.compiler = c.withStrict strict)
      ((c.withStrict true).compile text) ((c.withStrict strict).compile text) := by
  refine (Run.refines_refl (Run.ofExcept ((c.parse text).mapError .malformed))).bind ?_
  rintro tree _ rfl
  refine (Run.refines_refl (Run.notice (.compiled tree))).bind fun _ _ _ ↦ ?_
  exact Run.refines_pure ⟨rfl, rfl, rfl⟩

theorem refines_fetch (strict : Bool) (files : FileTree) (provider : Provider)
    (name indent : String) :
    Run.Refines (fun t t' ↦ t.tree = t'.tree)
      ((c.withStrict true).fetch files provider name indent)
      ((c.withStrict strict).fetch files provider name indent) := by
  refine (Run.refines_refl (Run.notice (.fetching name))).bind fun _ _ _ ↦ ?_
  refine (Run.refines_refl (Run.report (provider.fetch files name).notices)).bind fun _ _ _ ↦ ?_
  refine (Run.refines_refl (Run.ofExcept ((provider.fetch files name).found.mapError
    (.partialFailed name)))).bind ?_
  rintro text _ rfl
  exact (c.refines_compile _).mono fun _ _ h ↦ h.1

section

variable {files : FileTree} {reenter reenter' : Reentry} {S : List Value → List Value → Prop}
  (hreenter : reenter.Compare .refinement (fun _ ↦ True) S reenter') (h : S chain chain')
include hreenter h

/-- A partial that cannot be had ends the strict run, and is left out by the lenient one. -/
theorem refines_renderInclusion (name indent : String) :
    Run.Refines Eq ((c.withStrict true).renderInclusion files reenter chain name indent pure)
      ((c.withStrict strict).renderInclusion files reenter' chain' name indent pure) := by
  have hprovider (strict : Bool) : (c.withStrict strict).provider? = c.provider? := rfl
  rw [renderInclusion, renderInclusion, hprovider, hprovider]
  rcases c.provider? with - | provider
  · exact (Run.lost_fail _).refines _
  · have hfetch := c.refines_fetch strict files provider name indent
    have hquiet (d : Compiler) : (d.fetch files provider name indent).attempt.text = "" := by
      rw [Run.text, Run.events_attempt]
      exact Run.text_of_quiet (d.quiet_fetch files provider name indent)
    refine Run.refines_of_caught (hquiet _) (Run.outcome_attempt _) (hquiet _)
      (Run.outcome_attempt _) (fun a ha ↦ (hfetch.of_ok ha).2) ?_ fun e ↦ Run.lost_fail e
    intro t t' htree
    dsimp only
    rw [htree]
    exact hreenter _ (fun _ _ ↦ trivial) _ _ h

/-- A lambda that passes errors on fails where a text that it has rendered does. -/
theorem refines_callLambda {l : Lambda} (hl : l.PassesErrors) (name source : String) :
    Run.Refines Eq ((c.withStrict true).callLambda reenter chain name l source)
      ((c.withStrict strict).callLambda reenter' chain' name l source) := by
  refine (Run.refines_refl (Run.notice (.calling name source))).bind fun _ _ _ ↦ ?_
  refine Run.Refines.bind ((hl source).refines_run fun text ↦ ?_) ?_
  · refine (c.refines_compile text).bind ?_
    rintro t t' ⟨htree, -, -⟩
    rw [htree]
    exact hreenter _ (fun _ _ ↦ trivial) _ _ h
  · rintro answer _ rfl
    exact Run.refines_refl _

end

/-- **A strict rendering and a lenient one, side by side.** -/
theorem sideBySide_withStrict (files : FileTree) :
    (c.withStrict true).SideBySide .refinement (fun _ ↦ True) SameScopes
      (fun l l' ↦ l = l' ∧ l.PassesErrors) (c.withStrict false) files where
  tooDeep := Run.lost_tooDeep.refines _
  write _ := Run.refines_refl _
  interpolate := by
    rintro name raw - chain _ ⟨rfl, -⟩
    exact c.refines_interpolate (fun _ hv ↦ hv) raw
  renderInclusion := by
    intro name indent lineEnd? _ reenter reenter' hreenter chain chain' h
    exact c.refines_renderInclusion hreenter h name indent
  valueOf := by
    rintro name inverted line - chain _ ⟨rfl, hchain⟩
    exact c.refines_visit (fun _ hv ↦ hv) hchain
      (fun v hv ↦ ⟨rfl, List.forall_mem_cons.2 ⟨hv, hchain⟩⟩)
      ⟨rfl, Value.allLambdas_head_append hchain⟩ inverted
  callLambda := by
    rintro l _ ⟨rfl, hl⟩ reenter reenter' hreenter chain chain' h name source
    exact c.refines_callLambda hreenter h hl name source

/-- Compiles a text and renders it. -/
def renderTemplate (files : FileTree) (template : String) (contexts : List Value) : Run Unit := do
  let t ← c.compile template
  t.run files contexts

end Compiler

/-- **The strict policy refines the lenient one.** Where all lambdas pass errors on, a text that a
strict compiler renders well is rendered the same by a lenient one. Where the strict rendering
fails, in whatever way, what it has written is a start of what the lenient one writes. -/
theorem strict_refines_lenient (c : Compiler) (files : FileTree) (template : String)
    (contexts : List Value) (hlambdas : ∀ v ∈ contexts, v.AllLambdas Lambda.PassesErrors) :
    let strict := (c.withStrict true).renderTemplate files template contexts
    let lenient := (c.withStrict false).renderTemplate files template contexts
    (∀ s, strict.toText = .ok s → lenient.toText = .ok s) ∧
      ∀ h, strict.outcome = .error h →
        ∃ more, (lenient.deliver .unlimited).sink.written =
          (strict.deliver .unlimited).sink.written ++ more := by
  intro strict lenient
  have hrefines : Run.Refines Eq strict lenient := by
    refine (c.refines_compile template).bind ?_
    rintro t t' ⟨htree, hstrict, hlenient⟩
    rw [Template.run, Template.run, htree, hstrict, hlenient]
    exact (c.sideBySide_withStrict files).renderAt Template.maxDepth _ (fun _ _ ↦ trivial) _ _
      ⟨rfl, hlambdas⟩
  refine ⟨fun s hs ↦ hrefines.toText hs, fun h _ ↦ ?_⟩
  obtain ⟨more, hmore⟩ := hrefines.text_prefix
  refine ⟨more.toUTF8, ?_⟩
  rw [Sink.unlimited, Run.deliver_unlimited, Run.deliver_unlimited, Run.bytes, Run.bytes, hmore,
    ByteArray.empty_append, ByteArray.empty_append]
  exact String.toByteArray_append

/-- A lambda that has its section rendered and fails where that fails. -/
def Lambda.echo : Lambda :=
  ⟨0, fun source ↦ .render source fun outcome ↦
    match outcome with
    | .ok text => .answer text
    | .error _ => .fail "failed"⟩

/-- A name in the section of a lambda, and one without a value there. -/
theorem strict_refines_lenient_of_echo :
    let contexts : List Value := [.map [("a", .text "x"), ("l", .lambda .echo)]]
    let good := "a\x7b\x7b#l\x7d\x7db\x7b\x7ba\x7d\x7d\x7b\x7b/l\x7d\x7d"
    let bad := "a\x7b\x7ba\x7d\x7d\x7b\x7b#l\x7d\x7db\x7b\x7bm\x7d\x7d\x7b\x7b/l\x7d\x7dc"
    let strict := (Compiler.standard.withStrict true).renderTemplate .empty
    let lenient := (Compiler.standard.withStrict false).renderTemplate .empty
    (∀ v ∈ contexts, v.AllLambdas Lambda.PassesErrors) ∧
      (strict good contexts).toText = .ok "abx" ∧ (lenient good contexts).toText = .ok "abx" ∧
      (strict bad contexts).outcome = .error (.error (.lambdaFailed "failed")) ∧
      (strict bad contexts).text = "ax" ∧
      ∃ more, ((lenient bad contexts).deliver .unlimited).sink.written =
        ((strict bad contexts).deliver .unlimited).sink.written ++ more := by
  intro contexts good bad strict lenient
  have hlambdas : ∀ v ∈ contexts, v.AllLambdas Lambda.PassesErrors := by
    refine List.forall_mem_singleton.2 (Value.allLambdas_of_parts (fun _ h ↦ nomatch h) ?_)
    rintro w (- | hw)
    rcases List.mem_pair.1 hw with heq | heq <;> obtain ⟨-, rfl⟩ := Prod.mk.inj heq
    · exact Value.allLambdas_of_parts (fun _ h ↦ nomatch h) fun _ h ↦ nomatch h
    · refine Value.allLambdas_of_parts (fun l hl ↦ ?_) fun _ h ↦ nomatch h
      obtain rfl := Value.lambda.inj hl
      exact fun source ↦ ⟨fun _ ↦ trivial, fun _ ↦ trivial⟩
  have hgood : (strict good contexts).outcome = .ok () ∧ (strict good contexts).text = "abx" := by
    decide +kernel
  have hbad : (strict bad contexts).outcome = .error (.error (.lambdaFailed "failed")) ∧
      (strict bad contexts).text = "ax" := by
    decide +kernel
  have htext : (strict good contexts).toText = .ok "abx" := Run.toText_of_ok hgood
  obtain ⟨hok, -⟩ := strict_refines_lenient .standard .empty good contexts hlambdas
  obtain ⟨-, herror⟩ := strict_refines_lenient .standard .empty bad contexts hlambdas
  exact ⟨hlambdas, htext, hok "abx" htext, hbad.1, hbad.2, herror _ hbad.1⟩

end Mustache
