import Mustache.Proofs.RunsInSequence
import Mustache.Proofs.SideBySide

/-!
# Where renderings fail

A rendering that fails does so at one element, and what it has written by then is what the elements
in front of that one have written, in the order they are rendered in. A lenient rendering fails only
over values and lambdas (`failures_by_policy`).

* `Compiler.Enters` — an element has other elements rendered in its course: a section its children,
  once for each scope, and a partial those of its template.
* `Compiler.Reaches` — any number of such steps, with all that runs in front of the last one. The
  rendering is a run of what is in front, of the element that is reached, and of what is left
  (`Reaches.exists_renderAt_eq`), so no failure is lost on the way out of sections and partials.
* `Compiler.FailsAt` — the element that is reached fails by itself. There is always one where a
  rendering fails (`exists_failsAt`): each step goes into the first of the parts that fail, and at
  last there is none.

A lambda is called with a way to render texts and not with elements, so what it renders is not
reached. It gets to see how that has ended, and goes on as it likes.
-/

namespace Mustache

/-- Whether an error is one of a value or a lambda. Leniency does nothing about these. -/
inductive Error.Fatal : Error → Prop
  | lambdaFailed (text : String) : Fatal (.lambdaFailed text)
  | stringifyFailed (text : String) : Fatal (.stringifyFailed text)
  | noText : Fatal .noText

/-! ### Parts of a run -/

namespace Run

variable {α β : Type}

/-- A run that ends well is followed by what its result calls for. -/
theorem bind_eq_of_outcome {r : Run α} {a : α} (h : r.outcome = .ok a) (next : α → Run β) :
    r >>= next = r >>= fun _ ↦ next a := by
  refine ext_events ?_ ?_
  · rw [events_bind, events_bind, h]
    rfl
  · rw [outcome_bind, outcome_bind, h]
    rfl

theorem attempt_eq_of_outcome {r : Run α} {a : α} (h : r.outcome = .ok a) :
    r.attempt = r >>= fun _ ↦ pure (.ok a) := by
  refine ext_events ?_ ?_
  · rw [events_attempt, events_bind, h]
    exact (List.append_nil _).symm
  · rw [outcome_attempt, outcome_bind, h]
    rfl

/-- A run that fails in the middle fails so as a whole, and nothing is written behind it. -/
theorem outcome_and_text_of_fails {before : Run Unit} {r : Run α} {halt : Halt}
    (hbefore : before.outcome = .ok ()) (hr : r.outcome = .error halt) (after : α → Run β) :
    (before >>= fun _ ↦ r >>= after).outcome = .error halt ∧
      (before >>= fun _ ↦ r >>= after).text = before.text ++ r.text := by
  rw [outcome_bind, text_bind, hbefore]
  show (r >>= after).outcome = _ ∧ _ ++ (r >>= after).text = _
  rw [outcome_bind, text_bind, hr]
  exact ⟨rfl, congrArg _ String.append_empty⟩

/-- Where nothing is written by either of two runs before it fails, nothing is written by both. -/
theorem text_bind_of_fails {r : Run α} (hr : r.text = "") {next : α → Run β} {halt : Halt}
    (hnext : ∀ a, (next a).outcome = .error halt → (next a).text = "")
    (h : (r >>= next).outcome = .error halt) : (r >>= next).text = "" := by
  rw [outcome_bind] at h
  rw [text_bind, hr, String.empty_append]
  rcases hout : r.outcome with halt' | a
  · rfl
  · rw [hout] at h
    exact hnext a h

section

variable {body : α → Rest → Run Unit}

theorem each_cons (a : α) (behind : List α) :
    each (a :: behind) body pure = body a pure >>= fun _ ↦ each behind body pure := by
  match behind with
  | [] => exact (bind_pure (body a pure)).symm
  | b :: behind => rfl

theorem each_append (front behind : List α) :
    each (front ++ behind) body pure =
      each front body pure >>= fun _ ↦ each behind body pure := by
  induction front with
  | nil => rfl
  | cons a front ih => rw [List.cons_append, each_cons, ih, each_cons, bind_assoc]

/-- Where items fail, there is a first one that does. -/
theorem exists_of_outcome_each {items : List α} {halt : Halt}
    (h : (each items body pure).outcome = .error halt) :
    ∃ front a behind, items = front ++ a :: behind ∧ (each front body pure).outcome = .ok () ∧
      (body a pure).outcome = .error halt := by
  induction items with
  | nil => exact nomatch h
  | cons a items ih =>
    rw [each_cons, outcome_bind] at h
    rcases hfirst : (body a pure).outcome with halt' | ⟨⟩
    · rw [hfirst] at h
      obtain rfl := Except.error.inj h
      exact ⟨[], a, items, rfl, rfl, hfirst⟩
    · rw [hfirst] at h
      obtain ⟨front, b, behind, rfl, hfront, hb⟩ := ih h
      refine ⟨a :: front, b, behind, rfl, ?_, hb⟩
      rw [each_cons, outcome_bind, hfirst]
      exact hfront

end

end Run

theorem Script.quiet_run {render : String → Run (Except Error String)}
    (h : ∀ text, (render text).Quiet) (s : Script) : (s.run render).Quiet := by
  induction s with
  | answer text | fail text => exact fun e he ↦ absurd he List.not_mem_nil
  | render text next ih => exact (h text).bind ih

/-! ### Elements that are reached -/

/-- The chains that a visit has the children of its section rendered against, in order. -/
def Visit.chains (chain : List Value) : Visit → List (List Value)
  | .entering scopes => scopes.map (· :: chain)
  | .calling _ => []
  | .staying => [chain.head?.toList ++ chain]

namespace Compiler

variable (c : Compiler) (files : FileTree)

/-- Whether an element has elements rendered at a depth and against a chain, behind a run of its
own. -/
inductive Enters : Nat → Element → List Value → Run Unit → Nat → List Element → List Value → Prop
  /-- A section that has a value for its name goes through the scopes that come of it. -/
  | block {depth : Nat} {name : String} {inverted : Bool} {line : Nat} {children : List Element}
      {chain inner : List Value} {front behind : List (List Value)} {v? : Option Value}
      (hvalue : (c.valueOf chain name).outcome = .ok v?)
      (hchains : (Value.visit inverted v?).chains chain = front ++ inner :: behind) :
      Enters (depth + 1) (.block name inverted line children) chain
        (c.valueOf chain name >>= fun _ ↦
          Run.each front (c.renderAt files (depth + 1) children) pure)
        (depth + 1) children inner
  /-- A partial that is fetched has its template rendered. -/
  | inclusion {depth : Nat} {name indent : String} {lineEnd? : Option String} {chain : List Value}
      {provider : Provider} {t : Template} (hprovider : c.provider? = some provider)
      (hfetch : (c.fetch files provider name indent).outcome = .ok t) :
      Enters (depth + 1) (.inclusion name indent lineEnd?) chain
        (c.fetch files provider name indent >>= fun _ ↦ pure ()) depth t.tree.elements chain

/-- Whether rendering elements gets to an element, at a depth and against a chain, behind all that
is rendered in front of it. -/
inductive Reaches : Nat → List Element → List Value → Run Unit → Nat → Element → List Value → Prop
  | here {depth : Nat} (front : List Element) (e : Element) (behind : List Element)
      (chain : List Value) :
      Reaches (depth + 1) (front ++ e :: behind) chain
        (c.renderAt files (depth + 1) front chain pure) (depth + 1) e chain
  | inside {depth depth' depth'' : Nat} (front : List Element) {e f : Element}
      (behind : List Element) {chain inner innermost : List Value} {es : List Element}
      {before before' : Run Unit}
      (henters : Enters c files (depth + 1) e chain before depth' es inner)
      (hreaches : Reaches depth' es inner before' depth'' f innermost) :
      Reaches (depth + 1) (front ++ e :: behind) chain
        (c.renderAt files (depth + 1) front chain pure >>= fun _ ↦ before >>= fun _ ↦ before')
        depth'' f innermost

/-- Whether rendering elements fails at an element that enters no others, which is reached by a run
that does not fail. -/
structure FailsAt (depth : Nat) (es : List Element) (chain : List Value) (before : Run Unit)
    (depth' : Nat) (f : Element) (inner : List Value) (e : Error) : Prop where
  reaches : c.Reaches files depth es chain before depth' f inner
  before_ok : before.outcome = .ok ()
  not_enters : ∀ own depth'' fs innermost, ¬ c.Enters files depth' f inner own depth'' fs innermost
  outcome : (c.renderAt files depth' [f] inner pure).outcome = .error (.error e)
  text : (c.renderAt files depth' [f] inner pure).text = ""

variable {c files}

theorem renderAt_eq_each (depth : Nat) (es : List Element) (chain : List Value) :
    c.renderAt files (depth + 1) es chain pure =
      Run.each es (fun e rest ↦ c.renderAt files (depth + 1) [e] chain rest) pure := by
  induction es with
  | nil => rfl
  | cons e es ih => rw [renderAt_cons, ih, Run.each_cons]

/-- A section that calls no lambda goes through its chains one by one. -/
theorem renderVisit_eq_each (depth : Nat) (name : String) (children : List Element)
    (chain : List Value) {visit : Visit} (hvisit : ∀ l, visit ≠ .calling l) :
    c.renderVisit files (c.renderAt files depth) name children chain pure visit =
      Run.each (visit.chains chain) (c.renderAt files (depth + 1) children) pure := by
  match visit with
  | .entering scopes =>
    show Run.each scopes (fun v ↦ c.renderAt files (depth + 1) children (v :: chain)) pure = _
    induction scopes with
    | nil => rfl
    | cons v scopes ih =>
      rw [Run.each_cons, ih fun _ h ↦ nomatch h]
      exact (Run.each_cons _ _).symm
  | .calling l => exact absurd rfl (hvisit l)
  | .staying => rfl

/-- What an element enters is a part of its run. -/
theorem Enters.exists_renderAt_eq {depth depth' : Nat} {e : Element} {chain inner : List Value}
    {before : Run Unit} {es : List Element}
    (h : c.Enters files depth e chain before depth' es inner) :
    ∃ after : Rest, c.renderAt files depth [e] chain pure =
      before >>= fun _ ↦ c.renderAt files depth' es inner pure >>= after := by
  cases h with
  | @block depth name inverted line _ _ _ front behind v? hvalue hchains =>
    have hvisit (l : Lambda) : Value.visit inverted v? ≠ .calling l := by
      intro hcalling
      rw [hcalling] at hchains
      exact absurd hchains.symm (List.append_ne_nil_of_right_ne_nil _ (List.cons_ne_nil _ _))
    refine ⟨fun _ ↦ Run.each behind (c.renderAt files (depth + 1) es) pure, ?_⟩
    show c.renderElement files (c.renderAt files depth) (.block name inverted line es) chain
      (fun _ ↦ pure ()) = _
    rw [renderElement_block, Run.bind_eq_of_outcome hvalue]
    show (c.valueOf chain name >>= fun _ ↦ c.renderVisit files (c.renderAt files depth) name
      es chain pure (Value.visit inverted v?)) = _
    rw [renderVisit_eq_each depth name es chain hvisit, hchains, Run.each_append,
      Run.each_cons, bind_assoc]
  | @inclusion _ name indent lineEnd? _ provider t hprovider hfetch =>
    refine ⟨pure, ?_⟩
    show c.renderInclusion files (c.renderAt files depth') chain name indent (fun _ ↦ pure ()) = _
    rw [renderInclusion, hprovider]
    dsimp only
    rw [Run.attempt_eq_of_outcome hfetch, bind_assoc, bind_assoc]
    refine congrArg _ (funext fun _ ↦ ?_)
    rw [pure_bind, pure_bind, bind_pure]

/-- **What is reached is a part of the run**, between what is in front of it and what is left. -/
theorem Reaches.exists_renderAt_eq {depth depth' : Nat} {es : List Element}
    {chain inner : List Value} {before : Run Unit} {f : Element}
    (h : c.Reaches files depth es chain before depth' f inner) :
    ∃ after : Rest, c.renderAt files depth es chain pure =
      before >>= fun _ ↦ c.renderAt files depth' [f] inner pure >>= after := by
  induction h with
  | @here depth front e behind chain =>
    refine ⟨fun _ ↦ c.renderAt files (depth + 1) behind chain pure, ?_⟩
    rw [renderAt_append, renderAt_cons]
  | @inside depth depth' depth'' front e f behind chain inner innermost es before before' henters _
      ih =>
    obtain ⟨after, hafter⟩ := henters.exists_renderAt_eq
    obtain ⟨after', hafter'⟩ := ih
    refine ⟨fun _ ↦ after' () >>= fun _ ↦ after () >>= fun _ ↦
      c.renderAt files (depth + 1) behind chain pure, ?_⟩
    rw [renderAt_append, renderAt_cons, hafter, hafter']
    simp only [bind_assoc]

/-- A failure of what is reached is a failure of the whole, and nothing is written behind it. -/
theorem Reaches.outcome_and_text {depth depth' : Nat} {es : List Element}
    {chain inner : List Value} {before : Run Unit} {f : Element}
    (h : c.Reaches files depth es chain before depth' f inner) (hbefore : before.outcome = .ok ())
    {halt : Halt} (hfails : (c.renderAt files depth' [f] inner pure).outcome = .error halt) :
    (c.renderAt files depth es chain pure).outcome = .error halt ∧
      (c.renderAt files depth es chain pure).text =
        before.text ++ (c.renderAt files depth' [f] inner pure).text := by
  obtain ⟨after, hafter⟩ := h.exists_renderAt_eq
  rw [hafter]
  exact Run.outcome_and_text_of_fails hbefore hfails after

/-- A partial fails as its template does. -/
theorem outcome_and_text_of_inclusion {depth : Nat} {name indent : String}
    {lineEnd? : Option String} {chain : List Value} {provider : Provider} {t : Template}
    (hprovider : c.provider? = some provider)
    (hfetch : (c.fetch files provider name indent).outcome = .ok t) {halt : Halt}
    (hfails : (c.renderAt files depth t.tree.elements chain pure).outcome = .error halt) :
    (c.renderAt files (depth + 1) [.inclusion name indent lineEnd?] chain pure).outcome =
        .error halt ∧
      (c.renderAt files (depth + 1) [.inclusion name indent lineEnd?] chain pure).text =
        (c.renderAt files depth t.tree.elements chain pure).text := by
  have henters : c.Enters files (depth + 1) (.inclusion name indent lineEnd?) chain _ depth
    t.tree.elements chain := .inclusion hprovider hfetch
  obtain ⟨after, hafter⟩ := henters.exists_renderAt_eq
  have hquiet :
      (c.fetch files provider name indent >>= fun _ ↦ (pure () : Run Unit)).text = "" := by
    rw [Run.text_bind, Run.text_of_quiet (c.quiet_fetch files provider name indent), hfetch]
    rfl
  have hfetched : (c.fetch files provider name indent >>= fun _ ↦ pure ()).outcome = .ok () := by
    rw [Run.outcome_bind, hfetch]
    rfl
  obtain ⟨houtcome, htext⟩ := Run.outcome_and_text_of_fails hfetched hfails after
  rw [hafter]
  exact ⟨houtcome, by rw [htext, hquiet, String.empty_append]⟩

/-! ### Elements that fail by themselves -/

/-- A value that cannot be written has nothing written for it. -/
theorem text_interpolate_of_fails {chain : List Value} {name : String} {raw : Bool} {halt : Halt}
    (h : (c.interpolate chain name raw).outcome = .error halt) :
    (c.interpolate chain name raw).text = "" := by
  refine Run.text_bind_of_fails (Run.text_of_quiet (c.quiet_valueOf chain name)) ?_ h
  rintro (- | v) h
  · rfl
  · refine Run.text_bind_of_fails (Run.text_of_quiet (Run.quiet_ofExcept _)) ?_ h
    exact fun text h ↦ nomatch h

/-- A lambda that fails has nothing written for it. -/
theorem text_callLambda_of_fails {reenter : Reentry} {chain : List Value} {name source : String}
    {l : Lambda} {halt : Halt}
    (h : (c.callLambda reenter chain name l source).outcome = .error halt) :
    (c.callLambda reenter chain name l source).text = "" := by
  have hscript : ((l.script source).run (c.renderText reenter chain)).Quiet :=
    Script.quiet_run (fun text ↦ Run.quiet_capturedAfter "" _) _
  refine Run.text_bind_of_fails (Run.text_of_quiet (Run.quiet_notice _)) (fun _ h ↦ ?_) h
  exact Run.text_bind_of_fails (Run.text_of_quiet hscript) (fun answer h ↦ nomatch h) h

/-- A section fails in what it enters, or for its name or its lambda. -/
theorem exists_enters_of_block_fails {depth : Nat} {name : String} {inverted : Bool} {line : Nat}
    {children : List Element} {chain : List Value} {halt : Halt}
    (h : (c.renderAt files (depth + 1) [.block name inverted line children] chain pure).outcome =
      .error halt) :
    ((c.renderAt files (depth + 1) [.block name inverted line children] chain pure).text = "" ∧
        ∀ own depth' es inner, ¬ c.Enters files (depth + 1) (.block name inverted line children)
          chain own depth' es inner) ∨
      ∃ own depth' es inner, c.Enters files (depth + 1) (.block name inverted line children) chain
        own depth' es inner ∧ own.outcome = .ok () ∧
        (c.renderAt files depth' es inner pure).outcome = .error halt := by
  have hrun : c.renderAt files (depth + 1) [.block name inverted line children] chain pure =
      c.valueOf chain name >>= fun v? ↦ c.renderVisit files (c.renderAt files depth) name children
        chain pure (Value.visit inverted v?) :=
    renderElement_block c files _ name inverted line children chain pure
  rw [hrun, Run.outcome_bind] at h
  rw [hrun, Run.text_bind, Run.text_of_quiet (c.quiet_valueOf chain name), String.empty_append]
  -- the name fails, a lambda is called, or the children are rendered in some scopes
  rcases hvalue : (c.valueOf chain name).outcome with halt' | v?
  · refine .inl ⟨rfl, ?_⟩
    rintro _ _ _ _ (⟨hother, -⟩ | -)
    exact nomatch hvalue.symm.trans hother
  rw [hvalue] at h
  replace h : (c.renderVisit files (c.renderAt files depth) name children chain pure
    (Value.visit inverted v?)).outcome = .error halt := h
  by_cases hcalls : ∃ l, Value.visit inverted v? = .calling l
  · obtain ⟨l, hl⟩ := hcalls
    refine .inl ⟨?_, ?_⟩
    · show (c.renderVisit files (c.renderAt files depth) name children chain pure
        (Value.visit inverted v?)).text = ""
      have hcall : c.renderVisit files (c.renderAt files depth) name children chain pure
          (.calling l) = c.callLambda (c.renderAt files depth) chain name l
            (Element.sources children) := bind_pure _
      rw [hl, hcall] at h ⊢
      exact text_callLambda_of_fails h
    · -- a lambda visits no scopes, and so there is nothing to enter
      rintro _ _ _ _ (⟨hother, hchains⟩ | -)
      obtain rfl := Except.ok.inj (hvalue.symm.trans hother)
      rw [hl] at hchains
      exact absurd hchains.symm (List.append_ne_nil_of_right_ne_nil _ (List.cons_ne_nil _ _))
  · have hvisit (l : Lambda) : Value.visit inverted v? ≠ .calling l := fun heq ↦ hcalls ⟨l, heq⟩
    rw [renderVisit_eq_each depth name children chain hvisit] at h
    obtain ⟨front, inner, behind, hchains, hfront, hinner⟩ := Run.exists_of_outcome_each h
    refine .inr ⟨_, _, _, _, .block hvalue hchains, ?_, hinner⟩
    rw [Run.outcome_bind, hvalue]
    exact hfront

/-- A partial fails in its template, or because there is none. -/
theorem exists_enters_of_inclusion_fails {depth : Nat} {name indent : String}
    {lineEnd? : Option String} {chain : List Value} {err : Error}
    (h : (c.renderAt files (depth + 1) [.inclusion name indent lineEnd?] chain pure).outcome =
      .error (.error err)) :
    ((c.renderAt files (depth + 1) [.inclusion name indent lineEnd?] chain pure).text = "" ∧
        ∀ own depth' es inner, ¬ c.Enters files (depth + 1) (.inclusion name indent lineEnd?)
          chain own depth' es inner) ∨
      ∃ own depth' es inner, c.Enters files (depth + 1) (.inclusion name indent lineEnd?) chain
        own depth' es inner ∧ own.outcome = .ok () ∧
        (c.renderAt files depth' es inner pure).outcome = .error (.error err) := by
  have hrun : c.renderAt files (depth + 1) [.inclusion name indent lineEnd?] chain pure =
    c.renderInclusion files (c.renderAt files depth) chain name indent pure := rfl
  rw [hrun, renderInclusion] at h ⊢
  rcases hprovider : c.provider? with - | provider
  · rw [hprovider] at h
    refine .inl ⟨?_, ?_⟩
    · dsimp only at h ⊢
      split <;> rfl
    · rintro _ _ _ _ (- | ⟨hother, -⟩)
      cases hprovider.symm.trans hother
  -- whether the partial is fetched or not, nothing is written before its template is rendered
  have hquiet : (c.fetch files provider name indent).attempt.text = "" := by
    rw [Run.text, Run.events_attempt]
    exact Run.text_of_quiet (c.quiet_fetch files provider name indent)
  rw [hprovider] at h
  dsimp only at h ⊢
  rw [Run.outcome_bind, Run.outcome_attempt] at h
  rw [Run.text_bind, Run.outcome_attempt, hquiet, String.empty_append]
  rcases hfetch : (c.fetch files provider name indent).outcome with (e | _) | t
  · refine .inl ⟨?_, ?_⟩
    · show (if c.strict then Run.fail e else Run.emit (.notice (.skipped name e)) pure).text = ""
      split <;> rfl
    · rintro _ _ _ _ (- | ⟨hother, hfetched⟩)
      obtain rfl := Option.some.inj (hprovider.symm.trans hother)
      cases hfetch.symm.trans hfetched
  · rw [hfetch] at h
    cases h
  · rw [hfetch] at h
    refine .inr ⟨_, _, _, _, .inclusion hprovider hfetch, ?_, h⟩
    rw [Run.outcome_bind, hfetch]
    rfl

/-- **One step towards a failure.** An element that fails does so in what it enters, or it has
written nothing. -/
theorem exists_enters_of_fails {depth : Nat} {e : Element} {chain : List Value} {err : Error}
    (h : (c.renderAt files (depth + 1) [e] chain pure).outcome = .error (.error err)) :
    ((c.renderAt files (depth + 1) [e] chain pure).text = "" ∧
        ∀ own depth' es inner, ¬ c.Enters files (depth + 1) e chain own depth' es inner) ∨
      ∃ own depth' es inner, c.Enters files (depth + 1) e chain own depth' es inner ∧
        own.outcome = .ok () ∧
        (c.renderAt files depth' es inner pure).outcome = .error (.error err) := by
  cases e with
  | text t => exact nomatch h
  | interpolation name raw =>
    have hrun : c.renderAt files (depth + 1) [.interpolation name raw] chain pure =
        c.interpolate chain name raw := bind_pure _
    rw [hrun] at h ⊢
    exact .inl ⟨text_interpolate_of_fails h, fun _ _ _ _ henters ↦ nomatch henters⟩
  | inclusion name indent lineEnd? => exact exists_enters_of_inclusion_fails h
  | block name inverted line children => exact exists_enters_of_block_fails h

/-- What is entered is not as deep, or smaller than the element. -/
theorem Enters.lex {depth depth' : Nat} {e : Element} {chain inner : List Value}
    {before : Run Unit} {es : List Element}
    (h : c.Enters files depth e chain before depth' es inner) :
    Prod.Lex (· < ·) (· < ·) (depth', sizeOf es) (depth, sizeOf e) := by
  cases h with
  | block hvalue hchains =>
    refine .right _ ?_
    rw [Element.block.sizeOf_spec]
    omega
  | inclusion hprovider hfetch => exact .left _ _ (Nat.lt_succ_self _)

/-- **Where a rendering fails, it fails at an element.** -/
theorem exists_failsAt {depth : Nat} {es : List Element} {chain : List Value} {err : Error}
    (h : (c.renderAt files depth es chain pure).outcome = .error (.error err)) :
    ∃ before depth' f inner, c.FailsAt files depth es chain before depth' f inner err := by
  match depth with
  | 0 => exact nomatch h
  | depth + 1 =>
    have hfails := h
    rw [renderAt_eq_each] at hfails
    obtain ⟨front, e, behind, hes, hfront, he⟩ := Run.exists_of_outcome_each hfails
    rw [← renderAt_eq_each] at hfront
    rw [hes]
    -- the first element that fails is where it ends, or the failure is further in
    rcases exists_enters_of_fails he with ⟨htext, hnot⟩ |
      ⟨own, depth', fs, inner, henters, hown, hfs⟩
    · exact ⟨_, _, e, chain, .here front e behind chain, hfront, hnot, he, htext⟩
    have hlex := henters.lex
    obtain ⟨before, depth'', f, innermost, hat⟩ := exists_failsAt hfs
    refine ⟨_, depth'', f, innermost, .inside front behind henters hat.reaches, ?_, hat.not_enters,
      hat.outcome, hat.text⟩
    rw [Run.outcome_bind, hfront]
    show (own >>= fun _ ↦ before).outcome = .ok ()
    rw [Run.outcome_bind, hown]
    exact hat.before_ok
termination_by (depth, sizeOf es)
decreasing_by
  -- the element that is gone into is one of the elements
  have hmem : sizeOf e < sizeOf es :=
    List.sizeOf_lt_of_mem (hes ▸ List.mem_append_right front List.mem_cons_self)
  rcases hlex with ⟨_, _, hlt⟩ | ⟨_, hlt⟩
  · exact .left _ _ hlt
  · exact .right _ (Nat.lt_trans hlt hmem)

end Compiler

/-! ### Lenient renderings -/

namespace Run

variable {α β : Type} {post : α → Prop}

/-- Whether a run fails with fatal errors only, and its result is as it should be. -/
def FailsFatally (post : α → Prop) (r : Run α) : Prop :=
  match r.outcome with
  | .ok a => post a
  | .error (.error e) => e.Fatal
  | .error .tooDeep => True

theorem FailsFatally.pure {a : α} (h : post a) : (Pure.pure a : Run α).FailsFatally post :=
  h

theorem FailsFatally.bind {r : Run α} (h : r.FailsFatally post) {other : β → Prop}
    {next : α → Run β} (hnext : ∀ a, post a → (next a).FailsFatally other) :
    (r >>= next).FailsFatally other := by
  rw [FailsFatally, outcome_bind]
  rw [FailsFatally] at h
  generalize r.outcome = o at h
  rcases o with (e | _) | a
  · exact h
  · trivial
  · exact hnext a h

theorem FailsFatally.mono {r : Run α} (h : r.FailsFatally post) {other : α → Prop}
    (hpost : ∀ a, post a → other a) : r.FailsFatally other := by
  rw [← bind_pure r]
  exact h.bind hpost

theorem failsFatally_notice (n : Notice) : (notice n).FailsFatally fun _ ↦ True :=
  trivial

theorem failsFatally_report (ns : List Notice) : (report ns).FailsFatally fun _ ↦ True := by
  induction ns with
  | nil => trivial
  | cons n ns ih => exact ih

/-- A run that is caught does not fail. -/
theorem failsFatally_of_caught {r : Run (Except Error α)} {o : Except Halt α}
    (h : r.outcome = caught o) : r.FailsFatally fun _ ↦ True := by
  rw [FailsFatally, h]
  rcases o with (e | _) | a <;> trivial

/-- Runs are compared with nothing: all that is asked is how they fail. -/
def Comparison.failsFatally : Comparison where
  Rel A r _ := r.FailsFatally fun a ↦ ∃ b, A a b
  rel_pure h := .pure ⟨_, h⟩
  rel_bind h hnext := h.bind fun a ⟨b, hab⟩ ↦ hnext a b hab

theorem FailsFatally.rel {A : α → β → Prop} {r : Run α} (h : r.FailsFatally post) (s : Run β)
    (hpost : ∀ a, post a → ∃ b, A a b) : Comparison.failsFatally.Rel A r s :=
  h.mono hpost

end Run

namespace Compiler

variable {c : Compiler} {files : FileTree}

theorem failsFatally_script {render : String → Run (Except Error String)}
    (h : ∀ text, (render text).FailsFatally fun _ ↦ True) (s : Script) :
    (s.run render).FailsFatally fun _ ↦ True := by
  induction s with
  | answer text => trivial
  | fail text => exact .lambdaFailed text
  | render text next ih => exact (h text).bind fun outcome _ ↦ ih outcome

/-- A name without a value is no failure of a lenient rendering. -/
theorem failsFatally_valueOf (hlenient : c.strict = false) (chain : List Value) (name : String) :
    (c.valueOf chain name).FailsFatally fun _ ↦ True := by
  refine (Run.failsFatally_report _).bind fun _ _ ↦ ?_
  rcases (Value.lookup chain name).found with segment | v
  · dsimp only
    rw [hlenient]
    trivial
  · trivial

theorem failsFatally_stringify (v : Value) :
    (Run.ofExcept (c.stringify v)).FailsFatally fun _ ↦ True := by
  rw [stringify]
  split
  · next stringer _ =>
    rcases stringer v with text | text
    · exact .stringifyFailed text
    · trivial
  · split
    · trivial
    · exact .noText

theorem failsFatally_interpolate (hlenient : c.strict = false) (chain : List Value) (name : String)
    (raw : Bool) : (c.interpolate chain name raw).FailsFatally fun _ ↦ True := by
  rw [interpolate]
  refine (failsFatally_valueOf hlenient chain name).bind fun v? _ ↦ ?_
  rcases v? with - | v
  · trivial
  · exact (failsFatally_stringify v).bind fun text _ ↦ trivial

/-- A text that is rendered for a lambda does not fail before the lambda does. -/
theorem failsFatally_callLambda (reenter : Reentry) (chain : List Value) (name : String)
    (l : Lambda) (source : String) :
    (c.callLambda reenter chain name l source).FailsFatally fun _ ↦ True := by
  rw [callLambda]
  refine (Run.failsFatally_notice _).bind fun _ _ ↦ ?_
  refine (failsFatally_script (fun text ↦ ?_) (l.script source)).bind fun answer _ ↦ trivial
  exact Run.failsFatally_of_caught (Run.outcome_captured _)

/-- **Lenient renderings fail over values and lambdas only.** -/
theorem sideBySide_failsFatally (hlenient : c.strict = false) (files : FileTree) :
    c.SideBySide .failsFatally (fun _ ↦ True) (fun _ _ ↦ True) (fun _ _ ↦ True) c files where
  tooDeep := trivial
  write _ := ⟨(), rfl⟩
  interpolate {name raw} _ {chain _} _ :=
    (failsFatally_interpolate hlenient chain name raw).rel _ fun u _ ↦ ⟨u, rfl⟩
  renderInclusion := by
    intro name indent _ _ reenter reenter' hreenter chain chain' hchain
    show (c.renderInclusion files reenter chain name indent pure).FailsFatally _
    rw [renderInclusion]
    split
    · rw [hlenient]
      exact ⟨(), rfl⟩
    · refine (Run.failsFatally_of_caught (Run.outcome_attempt _)).bind fun fetched _ ↦ ?_
      rcases fetched with e | t
      · dsimp only
        rw [hlenient]
        exact ⟨(), rfl⟩
      · exact hreenter _ (fun _ _ ↦ trivial) chain chain' hchain
  valueOf := by
    intro name inverted line _ chain chain' _
    exact (failsFatally_valueOf hlenient chain name).rel _ fun v? _ ↦
      ⟨v?, Visit.paired_self _ chain chain'⟩
  callLambda := by
    intro l l' _ reenter reenter' _ chain chain' _ name source
    exact (failsFatally_callLambda reenter chain name l source).rel _ fun u _ ↦ ⟨u, rfl⟩

/-- How a text ends that is rendered for a lambda is what the lambda gets to see. -/
theorem outcome_renderText {reenter : Reentry} {chain : List Value} {text : String} {tree : Tree}
    (hparse : c.parse text = .ok tree) {err : Error}
    (h : (reenter tree.elements chain pure).outcome = .error (.error err)) :
    (c.renderText reenter chain text).outcome = .ok (.error err) := by
  have hrun : (c.compile text >>= fun t ↦ reenter t.tree.elements chain pure).outcome =
      .error (.error err) := by
    rw [compile, hparse]
    exact h
  rw [renderText, Run.outcome_captured, hrun]
  rfl

end Compiler

/-- **Failures by policy.** A lenient rendering fails over values and lambdas only. Under either
policy, what fails fails as a whole: an element that is reached, the template of a partial, and,
where a lambda is to see it, a text that the lambda has rendered. A rendering that fails does so at
an element, with what is written in front of it and nothing else. -/
theorem failures_by_policy (c : Compiler) (files : FileTree) :
    (c.strict = false → ∀ (tree : Tree) contexts e,
      (Template.run ⟨tree, c⟩ files contexts).toText = .error (.error e) → e.Fatal) ∧
    (∀ depth es chain before depth' f inner, c.Reaches files depth es chain before depth' f inner →
      before.outcome = .ok () →
      ∀ halt, (c.renderAt files depth' [f] inner pure).outcome = .error halt →
        (c.renderAt files depth es chain pure).outcome = .error halt ∧
          (c.renderAt files depth es chain pure).text =
            before.text ++ (c.renderAt files depth' [f] inner pure).text) ∧
    (∀ depth name indent lineEnd? chain provider t, c.provider? = some provider →
      (c.fetch files provider name indent).outcome = .ok t →
      ∀ halt, (c.renderAt files depth t.tree.elements chain pure).outcome = .error halt →
        (c.renderAt files (depth + 1) [.inclusion name indent lineEnd?] chain pure).outcome =
            .error halt ∧
          (c.renderAt files (depth + 1) [.inclusion name indent lineEnd?] chain pure).text =
            (c.renderAt files depth t.tree.elements chain pure).text) ∧
    (∀ depth chain text tree, c.parse text = .ok tree →
      ∀ e, (c.renderAt files depth tree.elements chain pure).outcome = .error (.error e) →
        (c.renderText (c.renderAt files depth) chain text).outcome = .ok (.error e)) ∧
    ∀ depth es chain e, (c.renderAt files depth es chain pure).outcome = .error (.error e) →
      ∃ before depth' f inner, c.FailsAt files depth es chain before depth' f inner e ∧
        (c.renderAt files depth es chain pure).text = before.text := by
  refine ⟨fun hlenient tree contexts e he ↦ ?_, fun _ _ _ _ _ _ _ h hbefore _ ↦
    h.outcome_and_text hbefore, fun _ _ _ _ _ _ _ hprovider hfetch _ ↦
    Compiler.outcome_and_text_of_inclusion hprovider hfetch,
    fun _ _ _ _ hparse _ ↦ Compiler.outcome_renderText hparse, fun depth es chain e he ↦ ?_⟩
  · -- the relation does not look at the second run, so that may be the first
    have hfatally := (Compiler.sideBySide_failsFatally hlenient files).renderAt Template.maxDepth
      tree.elements (fun _ _ ↦ trivial) contexts contexts trivial
    replace hfatally : (Template.run ⟨tree, c⟩ files contexts).FailsFatally _ := hfatally
    rw [Run.toText_eq] at he
    rw [Run.FailsFatally] at hfatally
    generalize (Template.run ⟨tree, c⟩ files contexts).outcome = o at he hfatally
    rcases o with (e | _) | _
    · obtain rfl := Halt.error.inj (Except.error.inj he)
      exact hfatally
    · exact nomatch he
    · exact nomatch he
  · obtain ⟨before, depth', f, inner, hat⟩ := Compiler.exists_failsAt he
    obtain ⟨-, htext⟩ := hat.reaches.outcome_and_text hat.before_ok hat.outcome
    rw [hat.text, String.append_empty] at htext
    exact ⟨before, depth', f, inner, hat, htext⟩

/-- A partial that cannot be compiled, and one with a lambda that fails. -/
theorem failures_by_policy_of_partials :
    let text := "b\x7b\x7b#f\x7d\x7dx\x7b\x7b/f\x7d\x7dc"
    let partials := Partials.ofList [("m", "\x7b\x7b#o\x7d\x7d"), ("p", text)]
    let c := Compiler.standard.withProvider partials.provider
    let contexts : List Value := [.map [("f", .lambda ⟨0, fun _ ↦ .fail "no"⟩)]]
    let tree : Tree :=
      ⟨[.text "a", .inclusion "m" "" none, .inclusion "p" "" none, .text "d"], .standard⟩
    let r := Template.run ⟨tree, c⟩ .empty contexts
    c.strict = false ∧ r.toText = .error (.error (.lambdaFailed "no")) ∧
      (Error.lambdaFailed "no").Fatal ∧ r.text = "ab" ∧
      (c.renderText (c.renderAt .empty 1) contexts text).outcome =
        .ok (.error (.lambdaFailed "no")) ∧
      ∃ before depth f inner, c.FailsAt .empty Template.maxDepth tree.elements contexts before depth
        f inner (.lambdaFailed "no") ∧ before.text = "ab" := by
  intro text partials c contexts tree r
  obtain ⟨hfatal, hreached, hinclusion, hcallback, hfailsAt⟩ := failures_by_policy c .empty
  have hparse : c.parse text =
      .ok ⟨[.text "b", .block "f" false 1 [.text "x"], .text "c"], .standard⟩ := by
    dsimp only [text]
    with_unfolding_all rfl
  have hfetch : (c.fetch .empty partials.provider "p" "").outcome =
      .ok ⟨⟨[.text "b", .block "f" false 1 [.text "x"], .text "c"], .standard⟩, c⟩ := by
    show (c.compile (String.ofList (Text.indent "".toList (partials.get "p").toList))).outcome = _
    rw [show String.ofList (Text.indent "".toList (partials.get "p").toList) = text by
      decide +kernel, Compiler.compile, hparse]
    rfl
  have hinside (n : Nat) :
      let r := c.renderAt .empty (n + 1) [.text "b", .block "f" false 1 [.text "x"], .text "c"]
        contexts pure
      r.outcome = .error (.error (.lambdaFailed "no")) ∧ r.text = "b" :=
    ⟨rfl, rfl⟩
  have hbefore :
      let r := c.renderAt .empty 1000000 [.text "a", .inclusion "m" "" none] contexts pure
      r.outcome = .ok () ∧ r.text = "a" := by
    decide +kernel
  obtain ⟨hin, hintext⟩ :=
    hinclusion 999999 "p" "" none contexts _ _ rfl hfetch _ (hinside 999998).1
  obtain ⟨hout, htext⟩ := hreached _ _ _ _ _ _ _
    (.here [.text "a", .inclusion "m" "" none] (.inclusion "p" "" none) [.text "d"] contexts)
    hbefore.1 _ hin
  rw [hintext, hbefore.2, (hinside 999998).2] at htext
  have hrun : r.toText = .error (.error (.lambdaFailed "no")) := by
    have houtcome : r.outcome = .error (.error (.lambdaFailed "no")) := hout
    rw [Run.toText_eq, houtcome]
    rfl
  obtain ⟨before, depth, f, inner, hat, hsame⟩ := hfailsAt _ _ _ _ hout
  refine ⟨rfl, hrun, hfatal rfl tree contexts _ hrun, htext, ?_, before, depth, f, inner, hat, ?_⟩
  · exact hcallback 1 contexts _ _ hparse _ (hinside 0).1
  · rw [← hsame]
    exact htext

end Mustache
