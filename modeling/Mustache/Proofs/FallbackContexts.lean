import Mustache.Proofs.Leniency
import Mustache.Proofs.ScopeByScope

/-!
# Contexts to fall back on

A rendering that misses nothing has no use for further contexts behind its own. With a strict
compiler one that ends well misses nothing, so it renders the same however many contexts are added
at the end (`complete_render_is_stable`). One that fails has written a start of what is written
then.

The first scope with a value for the first segment of a name decides what the name stands for, and
the scopes behind it are never asked for the other segments. So a name that has a value keeps it
(`Value.extends_append`), and it does in all the chains that sections make of the contexts: those
have more scopes in front, and the same ones in both renderings.

A strict rendering and one with further contexts are compared as a strict and a lenient one are, by
refinement, and as there lambdas have to pass errors on. One that goes on when a text has failed for
want of a value may go on differently when further contexts have that value.
-/

namespace Mustache

namespace Value

/-! ### Chains with further scopes -/

/-- Whether every name that has a value in a chain has the same one in another chain. -/
def Extends (chain chain' : List Value) : Prop :=
  ∀ name v, (lookup chain name).found = .ok v → (lookup chain' name).found = .ok v

theorem Extends.cons {chain chain' : List Value} (h : Extends chain chain') (scope : Value) :
    Extends (scope :: chain) (scope :: chain') := by
  intro name v hv
  rw [found_lookup_cons] at hv ⊢
  generalize (scope.get? (Name.ofString name).first).found = w? at hv ⊢
  rcases w? with - | w
  · exact h name v hv
  · exact hv

theorem Extends.stay {chain chain' : List Value} (h : Extends chain chain') :
    Extends (chain.head?.toList ++ chain) (chain'.head?.toList ++ chain') := by
  intro name v hv
  rw [found_lookup_head_append] at hv ⊢
  exact h name v hv

/-- **What has a value keeps it** when there are further scopes behind a chain. -/
theorem extends_append (chain extra : List Value) : Extends chain (chain ++ extra) := by
  induction chain with
  | nil =>
    intro name v hv
    rw [found_lookup_nil] at hv
    exact nomatch hv
  | cons scope chain ih => exact ih.cons scope

end Value

/-! ### Renderings -/

/-- What renderings with further contexts are compared on: chains with further scopes, and lambdas
that pass errors on in front of those. -/
def FurtherScopes (chain chain' : List Value) : Prop :=
  Value.Extends chain chain' ∧ ∀ v ∈ chain, v.AllLambdas Lambda.PassesErrors

/-- **A strict rendering and one with further scopes, side by side.** -/
theorem Compiler.sideBySide_furtherScopes (c : Compiler) (files : FileTree) :
    (c.withStrict true).SideBySide .refinement (fun _ ↦ True) FurtherScopes
      (fun l l' ↦ l = l' ∧ l.PassesErrors) (c.withStrict true) files where
  tooDeep := Run.lost_tooDeep.refines _
  write _ := Run.refines_refl _
  interpolate := by
    rintro name raw - chain chain' ⟨hextends, -⟩
    exact c.refines_interpolate (hextends name) raw
  renderInclusion := by
    intro name indent lineEnd? _ reenter reenter' hreenter chain chain' h
    exact c.refines_renderInclusion hreenter h name indent
  valueOf := by
    rintro name inverted line - chain chain' ⟨hextends, hlambdas⟩
    exact c.refines_visit (hextends name) hlambdas
      (fun v hv ↦ ⟨hextends.cons v, List.forall_mem_cons.2 ⟨hv, hlambdas⟩⟩)
      ⟨hextends.stay, Value.allLambdas_head_append hlambdas⟩ inverted
  callLambda := by
    rintro l _ ⟨rfl, hl⟩ reenter reenter' hreenter chain chain' h name source
    exact c.refines_callLambda hreenter h hl name source

/-- **A complete render is stable.** Where a strict compiler renders a template well and all lambdas
in the contexts pass errors on, further contexts at the end, whatever is in them, change nothing. -/
theorem complete_render_is_stable (t : Template) (hstrict : t.compiler.strict = true)
    (files : FileTree) {contexts : List Value}
    (hlambdas : ∀ v ∈ contexts, v.AllLambdas Lambda.PassesErrors) (extra : List Value) {s : String}
    (h : (t.run files contexts).toText = .ok s) :
    (t.run files (contexts ++ extra)).toText = .ok s := by
  have hself : t.compiler.withStrict true = t.compiler := by
    rw [← hstrict]
    rfl
  have hrefines : Run.Refines Eq (t.run files contexts) (t.run files (contexts ++ extra)) := by
    have hside := t.compiler.sideBySide_furtherScopes files
    rw [hself] at hside
    exact hside.renderAt Template.maxDepth _ (fun _ _ ↦ trivial) _ _
      ⟨Value.extends_append contexts extra, hlambdas⟩
  exact hrefines.toText h

/-- A dotted name in the section of a lambda, and contexts that have the name's first segment as
well and the other one too. -/
theorem complete_render_is_stable_of_echo :
    let c := Compiler.standard.withStrict true
    let t : Template :=
      ⟨⟨[.text "a", .block "l" false 1 [.interpolation "x.y" false]], .standard⟩, c⟩
    let contexts : List Value := [.map [("x", .map [("y", .text "b")]), ("l", .lambda .echo)]]
    let extra : List Value := [.map [("x", .map [("y", .text "c"), ("z", .text "d")])], .text "e"]
    t.compiler.strict = true ∧ (∀ v ∈ contexts, v.AllLambdas Lambda.PassesErrors) ∧
      (t.run .empty contexts).toText = .ok "ab" ∧
      (t.run .empty (contexts ++ extra)).toText = .ok "ab" := by
  intro c t contexts extra
  have hecho : Lambda.echo.PassesErrors := fun source ↦ ⟨fun _ ↦ trivial, fun _ ↦ trivial⟩
  have hlambdas : ∀ v ∈ contexts, v.AllLambdas Lambda.PassesErrors := by
    refine List.forall_mem_singleton.2 (Value.allLambdas_map ?_)
    refine List.forall_mem_cons.2 ⟨?_, List.forall_mem_singleton.2 (Value.allLambdas_lambda hecho)⟩
    exact Value.allLambdas_map (List.forall_mem_singleton.2 (Value.allLambdas_text _))
  have hrun : (t.run .empty contexts).outcome = .ok () ∧ (t.run .empty contexts).text = "ab" := by
    decide +kernel
  have hcomplete : (t.run .empty contexts).toText = .ok "ab" := Run.toText_of_ok hrun
  exact ⟨rfl, hlambdas, hcomplete,
    complete_render_is_stable t rfl .empty hlambdas extra hcomplete⟩

end Mustache
