import Mustache.Rendering

/-!
# Rendering in sequence

Every part of a template is rendered together with what is left to do behind it. That is a way of
running it and no more: rendering a part with something left to do is rendering the part alone and
then doing what is left (`renderAt_eq_bind`). So elements one after the other are runs one after
the other (`renderAt_cons`, `renderAt_append`).

The one assumption is on the way out of the tree: templates within templates have to be rendered
in sequence as well (`Reentry.Sequential`). Depth by depth they are.
-/

namespace Mustache

/-- Rendering elements and then what is left is a run and then another. -/
def Reentry.Sequential (reenter : Reentry) : Prop :=
  ∀ es chain rest, reenter es chain rest = reenter es chain pure >>= rest

/-- Items whose runs are in sequence are in sequence with what is left. -/
theorem Run.each_eq_bind {α : Type} {body : α → Rest → Run Unit}
    (h : ∀ a rest, body a rest = body a pure >>= rest) (items : List α) (rest : Rest) :
    Run.each items body rest = Run.each items body pure >>= rest := by
  match items with
  | [] => rfl
  | [a] => exact h a rest
  | a :: b :: items =>
    rw [Run.each, Run.each, bind_assoc]
    exact congrArg _ (funext fun _ ↦ each_eq_bind h (b :: items) rest)

namespace Compiler

variable (c : Compiler) (files : FileTree) {reenter : Reentry}

theorem renderInclusion_eq_bind (h : reenter.Sequential) (chain : List Value)
    (name indent : String) (rest : Rest) :
    c.renderInclusion files reenter chain name indent rest =
      c.renderInclusion files reenter chain name indent pure >>= rest := by
  unfold renderInclusion
  split
  · split <;> rfl
  · rw [bind_assoc]
    refine congrArg _ (funext fun fetched ↦ ?_)
    split
    · exact h _ _ _
    · split <;> rfl

mutual

theorem renderElement_eq_bind (h : reenter.Sequential) (e : Element) (chain : List Value)
    (rest : Rest) :
    c.renderElement files reenter e chain rest =
      c.renderElement files reenter e chain pure >>= rest := by
  match e with
  | .text t => rfl
  | .interpolation name raw =>
    rw [renderElement, renderElement, bind_assoc]
    rfl
  | .inclusion name indent lineEnd? =>
    exact renderInclusion_eq_bind c files h chain name indent rest
  | .block name inverted line children =>
    have hitem (item : Value) (rest : Rest) :
        c.renderElements files reenter children (item :: chain) rest =
          c.renderElements files reenter children (item :: chain) pure >>= rest :=
      renderElements_eq_bind h children (item :: chain) rest
    rw [renderElement, renderElement, bind_assoc]
    refine congrArg _ (funext fun v? ↦ ?_)
    -- the rest comes behind the last visit, or behind the answer of a lambda
    split
    · rfl
    · split
      · exact renderElements_eq_bind h children _ rest
      · dsimp only
        split
        · exact Run.each_eq_bind hitem _ rest
        · rw [bind_assoc]
          rfl
        · split
          · exact Run.each_eq_bind hitem _ rest
          · exact hitem _ rest
        · exact hitem _ rest
termination_by structural e

theorem renderElements_eq_bind (h : reenter.Sequential) (es : List Element) (chain : List Value)
    (rest : Rest) :
    c.renderElements files reenter es chain rest =
      c.renderElements files reenter es chain pure >>= rest := by
  match es with
  | [] => rfl
  | e :: es =>
    rw [renderElements, renderElements, renderElement_eq_bind h e chain,
      renderElement_eq_bind h e chain (fun _ ↦ c.renderElements files reenter es chain pure),
      bind_assoc]
    exact congrArg _ (funext fun _ ↦ renderElements_eq_bind h es chain rest)
termination_by structural es

end

/-- Rendering with something left to do is rendering and then doing it. -/
theorem renderAt_eq_bind (depth : Nat) : (c.renderAt files depth).Sequential := by
  induction depth with
  | zero => exact fun _ _ _ ↦ rfl
  | succ depth ih => exact renderElements_eq_bind c files ih

/-- The first of some elements is rendered and then the others. -/
theorem renderAt_cons (depth : Nat) (e : Element) (es : List Element) (chain : List Value) :
    c.renderAt files (depth + 1) (e :: es) chain pure =
      c.renderAt files (depth + 1) [e] chain pure >>= fun _ ↦
        c.renderAt files (depth + 1) es chain pure :=
  renderElement_eq_bind c files (renderAt_eq_bind c files depth) e chain _

/-- Elements are rendered part by part. -/
theorem renderAt_append (depth : Nat) (es fs : List Element) (chain : List Value) :
    c.renderAt files (depth + 1) (es ++ fs) chain pure =
      c.renderAt files (depth + 1) es chain pure >>= fun _ ↦
        c.renderAt files (depth + 1) fs chain pure := by
  induction es with
  | nil => rfl
  | cons e es ih =>
    rw [List.cons_append, renderAt_cons, ih, renderAt_cons c files depth e es, bind_assoc]

end Compiler

end Mustache
