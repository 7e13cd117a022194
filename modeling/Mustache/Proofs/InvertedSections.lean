import Mustache.Proofs.ChainsAlike

/-!
# Inverted sections

An inverted section that is rendered puts the innermost scope in front of the chain once more. Its
children render as if they stood in its place (`inverted_section_in_place`), as a scope that is
there twice answers as if it were there once.

Looking for the value of the section is all that comes before its children, and it writes nothing.
What it reports stays, so the two renderings have different notices.
-/

namespace Mustache

namespace Value

/-- A section with an empty value stays where it is when it is inverted. -/
theorem visit_of_isEmpty {v? : Option Value} (h : isEmpty v? = true) :
    visit true v? = .staying := by
  rw [visit, h]
  rfl

/-- The innermost scope in front of a chain once more makes no difference. -/
theorem answerAlike_head_append (P : String → Prop) (chain : List Value) :
    AnswerAlike P (chain.head?.toList ++ chain) chain :=
  fun name _ ↦ found_lookup_head_append chain name

theorem answerAlike_cons_cons (P : String → Prop) (scope : Value) (chain : List Value) :
    AnswerAlike P (scope :: scope :: chain) (scope :: chain) :=
  fun name _ ↦ found_lookup_cons_cons scope chain name

end Value

namespace Compiler

variable (c : Compiler) (files : FileTree)

/-- An inverted section with an empty value writes what its children write in its place. -/
theorem writing_inverted {name : String} {chain : List Value} {v? : Option Value}
    (hvalue : (c.valueOf chain name).outcome = .ok v?) (hempty : Value.isEmpty v? = true)
    (depth line : Nat) (children : List Element) :
    (Run.Comparison.writing (Notice.AsksOnly fun _ ↦ True) id).Rel Eq
      (c.renderAt files (depth + 1) [.block name true line children] chain pure)
      (c.renderAt files (depth + 1) children chain pure) := by
  show Run.Comparison.Rel _ Eq (c.renderElement files (c.renderAt files depth)
    (.block name true line children) chain fun _ ↦ pure ()) _
  rw [renderElement_block, ← pure_bind () fun _ ↦ c.renderAt files (depth + 1) children chain pure]
  have hquiet : (pure () : Run Unit).Quiet := fun e he ↦ absurd he List.not_mem_nil
  refine Run.Comparison.rel_bind (A := fun w? _ ↦ w? = v?) _
    ((c.quiet_valueOf chain name).writing hquiet ?_) ?_
  · rw [hvalue]
    exact .ok rfl
  · rintro _ _ rfl
    rw [Value.visit_of_isEmpty hempty]
    exact (c.sideBySide_answerAlike _ files).renderAt (depth + 1) children
      (fun p _ ↦ p.asksOnly_true) _ _ (Value.answerAlike_head_append _ chain)

end Compiler

/-- **An inverted section renders its children as if they stood in its place**, wherever its value
is empty and whatever stands in front of it and behind it. More generally, a chain whose innermost
scope is there twice has the same value for every name, and whatever is rendered against it is
written the same and ends the same. -/
theorem inverted_section_in_place (c : Compiler) (files : FileTree) :
    (∀ depth front name line children behind chain v?,
      (c.valueOf chain name).outcome = .ok v? → Value.isEmpty v? = true →
        let whole := c.renderAt files depth (front ++ .block name true line children :: behind)
          chain pure
        let inPlace := c.renderAt files depth (front ++ children ++ behind) chain pure
        whole.text = inPlace.text ∧ whole.outcome = inPlace.outcome) ∧
    (∀ scope chain name,
      (Value.lookup (scope :: scope :: chain) name).found =
        (Value.lookup (scope :: chain) name).found) ∧
    ∀ depth es scope chain,
      let twice := c.renderAt files depth es (scope :: scope :: chain) pure
      let once := c.renderAt files depth es (scope :: chain) pure
      twice.text = once.text ∧ twice.outcome = once.outcome := by
  have hall {r : Run Unit} : r.NotesOnly (Notice.AsksOnly fun _ ↦ True) :=
    fun n _ ↦ n.asksOnly_true
  refine ⟨fun depth front name line children behind chain v? hvalue hempty ↦ ?_,
    Value.found_lookup_cons_cons, fun depth es scope chain ↦ ?_⟩
  · rcases depth with - | depth
    · exact ⟨rfl, rfl⟩
    · dsimp only
      rw [Compiler.renderAt_append, Compiler.renderAt_cons, Compiler.renderAt_append,
        Compiler.renderAt_append, bind_assoc]
      refine Run.WritesAs.text_and_outcome ?_
      -- the fronts are one run, the section writes as its children do, and so are the rests
      refine Run.Comparison.rel_bind (A := Eq) _ (Run.writing_refl (fun _ ↦ rfl) _) ?_ (.inl hall)
      rintro _ _ -
      refine Run.Comparison.rel_bind (A := Eq) _
        (c.writing_inverted files hvalue hempty depth line children) ?_
      rintro _ _ -
      exact Run.writing_refl (fun _ ↦ rfl) _
  · exact c.text_and_outcome_of_answerAlike (fun _ ↦ True) files (fun p _ ↦ p.asksOnly_true)
      (Value.answerAlike_cons_cons _ scope chain) depth (.inl hall)

/-- A section whose value a method fails to give, with a lambda and another such section in it. -/
theorem inverted_section_in_place_of_failing_method :
    let o : HostObject Value := { HostObject.blank .record "Obj" with
      method := fun name ↦ if name = "m" then .error "no" else .ok none
      member := fun name ↦ if name = "x" then some (.text "<") else none
      textForm := .own "o" }
    let echo : Lambda := ⟨0, fun source ↦ .render source fun outcome ↦
      .answer (outcome.toOption.getD "!")⟩
    let chain : List Value := [.object 0 o, .map [("l", .lambda echo), ("y", .text "y")]]
    let children : List Element :=
      [.interpolation "x" false,
        .block "l" false 1 [.interpolation "y" false, .interpolation "." false],
        .block "m" true 1 [.text "?"]]
    let c := Compiler.standard
    let whole := c.renderAt .empty Template.maxDepth
      ([.text "a"] ++ .block "m" true 1 children :: [.text "b"]) chain pure
    (c.valueOf chain "m").outcome = .ok none ∧ Value.isEmpty none = true ∧
      whole.text = "a&lt;yo?b" ∧ whole.outcome = .ok () := by
  intro o echo chain children c whole
  have hvalue : (c.valueOf chain "m").outcome = .ok none := rfl
  have hrun :
      let r := c.renderAt .empty Template.maxDepth ([.text "a"] ++ children ++ [.text "b"]) chain pure
      r.text = "a&lt;yo?b" ∧ r.outcome = .ok () := by
    decide +kernel
  obtain ⟨hinverted, -, -⟩ := inverted_section_in_place c .empty
  obtain ⟨htext, houtcome⟩ :=
    hinverted Template.maxDepth [.text "a"] "m" 1 children [.text "b"] chain none hvalue rfl
  exact ⟨hvalue, rfl, htext.trans hrun.1, houtcome.trans hrun.2⟩

end Mustache
