import Mathlib.Data.List.Forall2
import Mathlib.Data.Option.Basic
import Mustache.Proofs.RunsInSequence
import Mustache.Proofs.SideBySide

/-!
# Values that stand for each other

A rendering asks a value for four things: its document, its text, what a section does with it, and
what it has for a name. A relation of values under which the first two agree, and the other two lead
to related values again, cannot be noticed by a rendering (`Value.Interchangeable`). So contexts
that are related in pairs are rendered the same, to the last notice
(`Value.Interchangeable.run_eq`).

That is for templates that show values as they are or as JSON. Any other stringer may tell related
values apart.
-/

namespace Mustache

/-! ### What is compared -/

/-- Whether two searches have the same reports and find what is in `A`. -/
structure Search.Alike {α β : Type} (A : α → β → Prop) (s : Search α) (t : Search β) : Prop where
  notices : s.notices = t.notices
  found : A s.found t.found

/-- Whether two runs have the same events and the same error, or results in `A`. -/
structure Run.Alike {α β : Type} (A : α → β → Prop) (r : Run α) (s : Run β) : Prop where
  events : r.events = s.events
  outcome : SameError A r.outcome s.outcome

/-- Whether a rendering gets the same from related values, or related values again. -/
structure Value.Interchangeable (R : Value → Value → Prop) : Prop where
  toJson_eq {v w : Value} (h : R v w) : v.toJson = w.toJson
  shown?_eq {v w : Value} (h : R v w) : v.shown? = w.shown?
  visit {v w : Value} (h : R v w) (inverted : Bool) {chain chain' : List Value}
    (hchain : List.Forall₂ R chain chain') :
    (visit inverted (some v)).Paired (List.Forall₂ R) Eq chain chain' (visit inverted (some w))
  get? {v w : Value} (h : R v w) (segment : String) :
    Search.Alike (Option.Rel R) (v.get? segment) (w.get? segment)

/-! ### Relations carried along -/

theorem Search.Alike.refl {α : Type} {A : α → α → Prop} (h : ∀ a, A a a) (s : Search α) :
    Search.Alike A s s :=
  ⟨rfl, h s.found⟩

theorem Search.Alike.andThen {α β γ δ : Type} {A : α → β → Prop} {B : γ → δ → Prop}
    {s : Search α} {t : Search β} {f : α → Search γ} {g : β → Search δ} (h : Search.Alike A s t)
    (hnext : ∀ a b, A a b → Search.Alike B (f a) (g b)) :
    Search.Alike B (s.andThen f) (t.andThen g) where
  notices := congrArg₂ _ h.notices (hnext _ _ h.found).notices
  found := (hnext _ _ h.found).found

theorem optionRel_refl {α : Type} {A : α → α → Prop} (h : ∀ a, A a a) (a? : Option α) :
    Option.Rel A a? a? := by
  cases a? with
  | none => exact .none
  | some a => exact .some (h a)

theorem optionRel_mono {α β : Type} {A B : α → β → Prop} (h : ∀ a b, A a b → B a b)
    {a? : Option α} {b? : Option β} (hab : Option.Rel A a? b?) : Option.Rel B a? b? := by
  cases hab with
  | none => exact .none
  | some hab => exact .some (h _ _ hab)

section

variable {R : Value → Value → Prop}

/-- Entries with the same keys and values in `R` are in pairs. -/
theorem forall₂_entries {es es' : List (String × Value)}
    (hkeys : es.map Prod.fst = es'.map Prod.fst)
    (h : List.Forall₂ R (es.map Prod.snd) (es'.map Prod.snd)) :
    List.Forall₂ (fun e e' ↦ e.1 = e'.1 ∧ R e.2 e'.2) es es' := by
  induction es generalizing es' with
  | nil =>
    obtain rfl := List.map_eq_nil_iff.1 hkeys.symm
    exact .nil
  | cons e es ih =>
    match es' with
    | e' :: es' =>
      obtain ⟨hkey, hkeys⟩ := List.cons.inj hkeys
      obtain ⟨hvalue, hvalues⟩ := List.forall₂_cons.1 h
      exact .cons ⟨hkey, hvalue⟩ (ih hkeys hvalues)

/-- The first entries with a key correspond. -/
theorem optionRel_lookup {es es' : List (String × Value)}
    (h : List.Forall₂ (fun e e' ↦ e.1 = e'.1 ∧ R e.2 e'.2) es es') (k : String) :
    Option.Rel R (es.lookup k) (es'.lookup k) := by
  induction h with
  | nil => exact .none
  | @cons e e' es es' he _ ih =>
    obtain ⟨hkey, hvalue⟩ := he
    rw [List.lookup_cons, List.lookup_cons, hkey]
    split
    · exact .some hvalue
    · exact ih

/-- Of two lists that correspond item by item either both are empty or neither is. -/
theorem isEmpty_eq_of_forall₂ {items items' : List Value} (h : List.Forall₂ R items items') :
    items.isEmpty = items'.isEmpty := by
  cases h <;> rfl

/-- The innermost scopes may be put in front once more. -/
theorem forall₂_head_append {chain chain' : List Value} (h : List.Forall₂ R chain chain') :
    List.Forall₂ R (chain.head?.toList ++ chain) (chain'.head?.toList ++ chain') := by
  cases h with
  | nil => exact .nil
  | cons hv hrest => exact .cons hv (.cons hv hrest)

end

namespace Run

/-- **Runs that are alike stay so in sequence.** -/
theorem Alike.bind {α β γ δ : Type} {A : α → β → Prop} {B : γ → δ → Prop} {r : Run α} {s : Run β}
    {f : α → Run γ} {g : β → Run δ} (h : Alike A r s)
    (hnext : ∀ a b, A a b → Alike B (f a) (g b)) : Alike B (r >>= f) (s >>= g) := by
  have hnext : Alike B (sequel f r.outcome) (sequel g s.outcome) := by
    have houtcome := h.outcome
    generalize r.outcome = o, s.outcome = o' at houtcome
    cases houtcome with
    | error halt => exact ⟨rfl, .error halt⟩
    | ok hab => exact hnext _ _ hab
  constructor
  · rw [events_bind, events_bind, h.events, hnext.events]
  · rw [outcome_bind, outcome_bind]
    exact hnext.outcome

theorem Alike.refl {α : Type} {A : α → α → Prop} (h : ∀ a, A a a) (r : Run α) : Alike A r r :=
  ⟨rfl, .refl h _⟩

theorem Alike.mono {α β : Type} {A B : α → β → Prop} {r : Run α} {s : Run β} (h : Alike A r s)
    (hAB : ∀ a b, A a b → B a b) : Alike B r s :=
  ⟨h.events, h.outcome.mono hAB⟩

/-- Runs with the same results are the same. -/
theorem Alike.eq {α : Type} {r s : Run α} (h : Alike Eq r s) : r = s := by
  refine ext_events h.events ?_
  have houtcome := h.outcome
  generalize r.outcome = o, s.outcome = o' at houtcome
  cases houtcome with
  | error halt => rfl
  | ok hab => exact congrArg _ hab

/-- Runs are compared by their events and their errors. -/
def Comparison.alike : Comparison where
  Rel := Alike
  rel_pure h := ⟨rfl, .ok h⟩
  rel_bind := Alike.bind

end Run

/-! ### Names -/

namespace Value.Interchangeable

variable {R : Value → Value → Prop} {chain chain' : List Value}

/-- A segment leads to values that correspond, with the same notices on the way. -/
theorem search_alike (hR : Interchangeable R) (h : List.Forall₂ R chain chain')
    (segment : String) :
    Search.Alike (Option.Rel R) (search segment chain) (search segment chain') := by
  induction h with
  | nil => exact ⟨rfl, .none⟩
  | @cons v w chain chain' hv _ ih =>
    rw [search_cons, search_cons]
    refine (hR.get? hv segment).andThen fun found found' hfound ↦ ?_
    cases hfound with
    | none => exact ih
    | some hfound => exact ⟨rfl, .some hfound⟩

/-- So does a whole name, by the recursion over its segments. -/
theorem resolve_alike (hR : Interchangeable R) (h : List.Forall₂ R chain chain')
    (segment : String) (others : List String) :
    Search.Alike (SameError R) (resolve chain segment others) (resolve chain' segment others) := by
  induction others generalizing segment chain chain' with
  | nil =>
    rw [resolve, resolve]
    refine (hR.search_alike h segment).andThen fun found found' hfound ↦ ?_
    cases hfound with
    | none => exact ⟨rfl, .error segment⟩
    | some hfound => exact ⟨rfl, .ok hfound⟩
  | cons next others ih =>
    rw [resolve, resolve]
    refine (hR.search_alike h segment).andThen fun found found' hfound ↦ ?_
    cases hfound with
    | none => exact ⟨rfl, .error segment⟩
    | some hfound => exact ih (.cons hfound .nil) next

/-- Names have related values in related scopes. -/
theorem lookup_alike (hR : Interchangeable R) (h : List.Forall₂ R chain chain') (name : String) :
    Search.Alike (SameError R) (lookup chain name) (lookup chain' name) :=
  hR.resolve_alike h _ _

/-- A section whose name has no value goes about related chains alike, too. -/
theorem paired_visit (hR : Interchangeable R) (inverted : Bool) {v? w? : Option Value}
    (h : Option.Rel R v? w?) (hchain : List.Forall₂ R chain chain') :
    (Value.visit inverted v?).Paired (List.Forall₂ R) Eq chain chain'
      (Value.visit inverted w?) := by
  cases h with
  | some hv => exact hR.visit hv inverted hchain
  | none =>
    cases inverted
    · exact .entering .nil
    · exact .staying (forall₂_head_append hchain)

end Value.Interchangeable

/-! ### Renderings -/

namespace Compiler

variable {c : Compiler} {R : Value → Value → Prop}

/-- A name has related values in related scopes. -/
theorem valueOf_alike (hR : Value.Interchangeable R) {chain chain' : List Value}
    (h : List.Forall₂ R chain chain') (name : String) :
    Run.Alike (Option.Rel R) (c.valueOf chain name) (c.valueOf chain' name) := by
  obtain ⟨hnotices, hfound⟩ := hR.lookup_alike h name
  rw [valueOf, valueOf, hnotices]
  refine (Run.Alike.refl (A := Eq) (fun _ ↦ rfl) _).bind fun _ _ _ ↦ ?_
  generalize (Value.lookup chain name).found = found, (Value.lookup chain' name).found = found'
    at hfound
  cases hfound with
  | error segment =>
    dsimp only
    split
    · exact ⟨rfl, .error _⟩
    · exact ⟨rfl, .ok .none⟩
  | ok hv => exact ⟨rfl, .ok (.some hv)⟩

/-- Related values are the same text, by themselves or as documents. -/
theorem stringify_eq (hR : Value.Interchangeable R)
    (hstringer : c.stringer? = none ∨ c.stringer? = some .json) {v w : Value} (h : R v w) :
    c.stringify v = c.stringify w := by
  rw [stringify, stringify]
  rcases hstringer with hnone | hjson
  · rw [hnone, hR.shown?_eq h]
  · have hsame : Stringer.json v = Stringer.json w := by
      simp only [Stringer.json, hR.toJson_eq h]
    rw [hjson]
    exact congrArg (Except.mapError Error.stringifyFailed) hsame

/-- **Renderings in related scopes, side by side.** -/
theorem sideBySide_alike (hR : Value.Interchangeable R)
    (hstringer : c.stringer? = none ∨ c.stringer? = some .json) (files : FileTree) :
    c.SideBySide .alike (fun _ ↦ True) (List.Forall₂ R) Eq c files where
  tooDeep := .refl (fun _ ↦ rfl) _
  write _ := .refl (fun _ ↦ rfl) _
  interpolate := by
    intro name raw _ chain chain' h
    refine Run.Alike.bind (valueOf_alike hR h name) fun v? w? hv ↦ ?_
    cases hv with
    | none => exact .refl (fun _ ↦ rfl) _
    | some hv =>
      dsimp only
      rw [stringify_eq hR hstringer hv]
      exact .refl (fun _ ↦ rfl) _
  renderInclusion := by
    intro name indent lineEnd? _ reenter reenter' hreenter chain chain' h
    -- a partial is fetched the same, so the runs differ in what is entered at most
    have hsame (es : List Element) : reenter es chain pure = reenter' es chain' pure :=
      (hreenter es (fun _ _ ↦ trivial) chain chain' h).eq
    rw [renderInclusion, renderInclusion]
    simp only [hsame]
    exact .refl (fun _ ↦ rfl) _
  valueOf := by
    intro name inverted line _ chain chain' h
    exact (valueOf_alike hR h name).mono fun _ _ hv ↦ hR.paired_visit inverted hv h
  callLambda := by
    rintro l _ rfl reenter reenter' hreenter chain chain' h name source
    have hsame (es : List Element) : reenter es chain pure = reenter' es chain' pure :=
      (hreenter es (fun _ _ ↦ trivial) chain chain' h).eq
    have htext : c.renderText reenter chain = c.renderText reenter' chain' :=
      funext fun text ↦ by simp only [renderText, hsame]
    rw [callLambda, callLambda, htext]
    exact .refl (fun _ ↦ rfl) _

end Compiler

/-- **Contexts that are related in pairs are rendered the same,** to the last notice. -/
theorem Value.Interchangeable.run_eq {R : Value → Value → Prop} (hR : Interchangeable R)
    (t : Template) (hstringer : t.compiler.stringer? = none ∨ t.compiler.stringer? = some .json)
    (files : FileTree) {contexts contexts' : List Value} (h : List.Forall₂ R contexts contexts') :
    t.run files contexts = t.run files contexts' :=
  ((Compiler.sideBySide_alike hR hstringer files).renderAt Template.maxDepth t.tree.elements
    (fun _ _ ↦ trivial) contexts contexts' h).eq

end Mustache
