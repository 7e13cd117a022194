import Mathlib.Data.List.Forall2
import Mustache.Proofs.ScopeByScope
import Mustache.Proofs.Writings

/-!
# Chains that answer alike

A rendering asks a chain of scopes for the values of names and for nothing else. So two chains
render the same where they have the same values for all names that are asked for
(`Value.AnswerAlike`), whatever scopes they are made of.

Which names are asked for is a matter of the templates. The names of a template can be read off its
pieces (`Tree.AsksOnly`), and the templates that are compiled during a rendering off its notices.

Everything a rendering does to a chain keeps the relation. A section puts a scope in front of both
chains (`AnswerAlike.cons`), and an inverted section puts the innermost scope of each in front once
more, which are two different ones perhaps, but neither chain answers differently for it
(`AnswerAlike.stay`). What is rendered alike may be reported differently, as a scope more or less is
asked.
-/

namespace Mustache

/-! ### Names that are asked for -/

/-- Whether the name of a piece is in `P`, if a value is looked for under it. -/
def Piece.AsksOnly (P : String → Prop) : Piece → Prop
  | .interpolation name _ | .enter name _ _ => P name
  | .text _ | .leave _ | .inclusion _ _ _ => True

/-- Whether all names that a template looks for values under are in `P`. -/
def Tree.AsksOnly (P : String → Prop) (tree : Tree) : Prop :=
  ∀ p ∈ Element.piecesOf tree.elements, p.AsksOnly P

/-- Whether a notice is of no template but one that asks for names in `P` only. -/
def Notice.AsksOnly (P : String → Prop) : Notice → Prop
  | .compiled tree => tree.AsksOnly P
  | _ => True

section

variable {P : String → Prop} [DecidablePred P]

instance : (p : Piece) → Decidable (p.AsksOnly P)
  | .interpolation name _ | .enter name _ _ => inferInstanceAs (Decidable (P name))
  | .text _ | .leave _ | .inclusion _ _ _ => inferInstanceAs (Decidable True)

instance (tree : Tree) : Decidable (tree.AsksOnly P) :=
  inferInstanceAs (Decidable (∀ p ∈ Element.piecesOf tree.elements, p.AsksOnly P))

instance : (n : Notice) → Decidable (n.AsksOnly P)
  | .compiled tree => inferInstanceAs (Decidable (tree.AsksOnly P))
  | .methodFailed _ _ _ | .calling _ _ | .fetching _ | .found _ _ | .unprovided _ | .skipped _ _ =>
    inferInstanceAs (Decidable True)

end

/-- With every name allowed, nothing is asked of a piece. -/
theorem Piece.asksOnly_true (p : Piece) : p.AsksOnly fun _ ↦ True := by
  cases p <;> trivial

theorem Notice.asksOnly_true (n : Notice) : n.AsksOnly fun _ ↦ True := by
  rcases n with tree | _ | _ | _ | _ | _ | _
  · exact fun p _ ↦ p.asksOnly_true
  all_goals trivial

/-! ### Chains -/

namespace Value

/-- Whether two chains have the same values for all names in `P`. -/
def AnswerAlike (P : String → Prop) (chain chain' : List Value) : Prop :=
  ∀ name, P name → (lookup chain name).found = (lookup chain' name).found

namespace AnswerAlike

variable {P : String → Prop} {chain chain' : List Value}

/-- A scope in front of both chains is asked first, and answers both alike. -/
theorem cons (h : AnswerAlike P chain chain') (scope : Value) :
    AnswerAlike P (scope :: chain) (scope :: chain') := by
  intro name hname
  rw [found_lookup_cons, found_lookup_cons, h name hname]

theorem append_left (h : AnswerAlike P chain chain') (front : List Value) :
    AnswerAlike P (front ++ chain) (front ++ chain') := by
  induction front with
  | nil => exact h
  | cons scope front ih => exact ih.cons scope

/-- So does the innermost scope of each chain, put in front once more: neither chain answers
anything else for it. -/
theorem stay (h : AnswerAlike P chain chain') :
    AnswerAlike P (chain.head?.toList ++ chain) (chain'.head?.toList ++ chain') := by
  intro name hname
  rw [found_lookup_head_append, found_lookup_head_append]
  exact h name hname

end AnswerAlike

end Value

/-! ### Renderings -/

namespace Compiler

variable (P : String → Prop) (c : Compiler) (files : FileTree)

/-- A template that is compiled asks for names in `P` only, where its notice says so. -/
theorem writing_compile (text : String) :
    (Run.Comparison.writing (Notice.AsksOnly P) id).Rel (fun t t' ↦ t = t' ∧ t.tree.AsksOnly P)
      (c.compile text) (c.compile text) := by
  intro hnotes
  rw [or_self] at hnotes
  rw [compile] at hnotes ⊢
  generalize c.parse text = parsed at hnotes ⊢
  rcases parsed with m | tree
  · exact ⟨rfl, .error _⟩
  · exact ⟨rfl, .ok ⟨rfl, hnotes (.compiled tree) List.mem_cons_self⟩⟩

/-- **Renderings in chains that answer alike, side by side.** -/
theorem sideBySide_answerAlike :
    c.SideBySide (.writing (Notice.AsksOnly P) id) (Piece.AsksOnly P) (Value.AnswerAlike P) Eq c
      files where
  tooDeep := Run.writing_refl (fun _ ↦ rfl) _
  write _ := Run.writing_refl (fun _ ↦ rfl) _
  interpolate := by
    intro name raw hname chain chain' h
    refine Run.Comparison.rel_bind _ (writing_valueOf rfl (h name hname)) ?_
    rintro v? _ rfl
    exact Run.writing_refl (fun _ ↦ rfl) _
  renderInclusion := by
    intro name indent lineEnd? _ reenter reenter' hreenter chain chain' h
    refine writing_renderInclusion (c.writing_compile P) rfl rfl ?_ name indent
    rintro t _ ⟨rfl, ht⟩
    exact hreenter _ ht chain chain' h
  valueOf := by
    intro name inverted line hname chain chain' h
    refine Run.Comparison.rel_mono _ (writing_valueOf rfl (h name hname)) ?_
    rintro v? _ rfl
    exact Visit.paired h.cons h.stay (fun _ ↦ rfl) _
  callLambda := by
    rintro l _ rfl reenter reenter' hreenter chain chain' h name source
    refine writing_callLambda (c.writing_compile P) ?_ name source l
    rintro t _ ⟨rfl, ht⟩
    exact hreenter _ ht chain chain' h

/-- **What is rendered in chains that answer alike is the same**, if no template that takes part in
one of the renderings asks for other names. -/
theorem text_and_outcome_of_answerAlike {es : List Element}
    (hes : ∀ p ∈ Element.piecesOf es, p.AsksOnly P) {chain chain' : List Value}
    (h : Value.AnswerAlike P chain chain') (depth : Nat)
    (hnotes : (c.renderAt files depth es chain pure).NotesOnly (Notice.AsksOnly P) ∨
      (c.renderAt files depth es chain' pure).NotesOnly (Notice.AsksOnly P)) :
    (c.renderAt files depth es chain pure).text = (c.renderAt files depth es chain' pure).text ∧
      (c.renderAt files depth es chain pure).outcome =
        (c.renderAt files depth es chain' pure).outcome :=
  ((c.sideBySide_answerAlike P files).renderAt depth es hes chain chain' h hnotes).text_and_outcome

end Compiler

end Mustache
