import Mathlib.Data.List.Forall2
import Mustache.Proofs.DocumentOrder
import Mustache.Proofs.ForcedRaw
import Mustache.Rendering.Sequence

/-!
# Renderings side by side

Two renderings of the same elements, which may differ in their configurations and in their scopes,
are compared part by part.

* `Run.Comparison` — a way to compare runs that goes along with putting them in sequence. One that
  does not look at the second run is a property of the first.
* `Visit` — what a section does with the value of its name. All that a rendering goes by is there:
  which scopes the children are rendered in, or which lambda is called.
* `Compiler.SideBySide` — what has to be known of the parts: of texts, interpolations, partials and
  lambdas, and of the values that sections find. Only pieces that are allowed have to be looked at.
* `Compiler.SideBySideForced` — the same where the second rendering has every interpolation raw, as
  templates that are compiled in raw mode have.

From that, `Compiler.SideBySide.renderAt` compares whole renderings, at every depth. The one
induction over the elements that comparisons need is `Compiler.SideBySideForced.renderAt`.
-/

namespace Mustache

/-! ### Comparisons -/

/-- A way to compare runs, given a way to compare their results. -/
structure Run.Comparison where
  Rel : {α β : Type} → (α → β → Prop) → Run α → Run β → Prop
  rel_pure {α β : Type} {A : α → β → Prop} {a : α} {b : β} : A a b → Rel A (pure a) (pure b)
  rel_bind {α β γ δ : Type} {A : α → β → Prop} {B : γ → δ → Prop} {r : Run α} {s : Run β}
    {f : α → Run γ} {g : β → Run δ} :
    Rel A r s → (∀ a b, A a b → Rel B (f a) (g b)) → Rel B (r >>= f) (s >>= g)

theorem Run.Comparison.rel_mono (R : Run.Comparison) {α β : Type} {A B : α → β → Prop} {r : Run α}
    {s : Run β} (h : R.Rel A r s) (hAB : ∀ a b, A a b → B a b) : R.Rel B r s := by
  rw [← bind_pure r, ← bind_pure s]
  exact R.rel_bind h fun a b hab ↦ R.rel_pure (hAB a b hab)

/-- Items done one after the other are compared item by item. -/
theorem Run.Comparison.rel_each (R : Run.Comparison) {α β : Type} {A : α → β → Prop}
    {body : α → Rest → Run Unit} {others : β → Rest → Run Unit}
    (hbody : ∀ a b, A a b → R.Rel Eq (body a pure) (others b pure)) {items : List α}
    {items' : List β} (h : List.Forall₂ A items items') :
    R.Rel Eq (Run.each items body pure) (Run.each items' others pure) := by
  match h with
  | .nil => exact R.rel_pure rfl
  | .cons hab .nil => exact hbody _ _ hab
  | .cons hab (.cons hcd h) =>
    exact R.rel_bind (hbody _ _ hab) fun _ _ _ ↦ R.rel_each hbody (.cons hcd h)

/-! ### Visits -/

/-- What a section does with the value of its name. -/
inductive Visit
  /-- The children are rendered once in each of these scopes. -/
  | entering (scopes : List Value)
  /-- A lambda is called with the source of the children. -/
  | calling (l : Lambda)
  /-- The children are rendered where the section stands. -/
  | staying

/-- What a section does with the value of its name. One that is passed over enters no scope. -/
def Value.visit (inverted : Bool) (v? : Option Value) : Visit :=
  if isEmpty v? != inverted then .entering []
  else if inverted then .staying
  else
    let v := v?.getD .null
    match v.unwrapped with
    | .seq items => .entering items
    | .lambda l => .calling l
    | .object _ o => if o.kind = .seq then .entering o.items else .entering [v]
    | _ => .entering [v]

namespace Compiler

variable (c : Compiler) (files : FileTree) (reenter : Reentry)

/-- Renders the children of a section as its value has it. -/
def renderVisit (name : String) (children : List Element) (chain : List Value) (rest : Rest) :
    Visit → Run Unit
  | .entering scopes =>
    Run.each scopes (fun v ↦ c.renderElements files reenter children (v :: chain)) rest
  | .calling l => do
    c.callLambda reenter chain name l (Element.sources children)
    rest ()
  | .staying => c.renderElements files reenter children (chain.head?.toList ++ chain) rest

/-- A section looks for the value of its name and then does as that has it. -/
theorem renderElement_block (name : String) (inverted : Bool) (line : Nat)
    (children : List Element) (chain : List Value) (rest : Rest) :
    c.renderElement files reenter (.block name inverted line children) chain rest =
      c.valueOf chain name >>= fun v? ↦
        c.renderVisit files reenter name children chain rest (Value.visit inverted v?) := by
  rw [renderElement]
  refine congrArg _ (funext fun v? ↦ ?_)
  unfold Value.visit
  split
  · rfl
  · split
    · rfl
    · dsimp only
      generalize (v?.getD Value.null).unwrapped = u
      cases u with
      | object i o => dsimp only; split <;> rfl
      | _ => rfl

end Compiler

/-! ### Parts -/

/-- Whether two visits go about their children alike: with scopes in pairs, each pair in front of
the two chains that the sections stand in, or with lambdas in a pair. -/
inductive Visit.Paired (S : List Value → List Value → Prop) (L : Lambda → Lambda → Prop)
    (chain chain' : List Value) : Visit → Visit → Prop
  | entering {scopes scopes' : List Value}
      (h : List.Forall₂ (fun v w ↦ S (v :: chain) (w :: chain')) scopes scopes') :
      Paired S L chain chain' (.entering scopes) (.entering scopes')
  | calling {l l' : Lambda} (h : L l l') : Paired S L chain chain' (.calling l) (.calling l')
  | staying (h : S (chain.head?.toList ++ chain) (chain'.head?.toList ++ chain')) :
      Paired S L chain chain' .staying .staying

/-- A visit goes about its children as it does itself, if every scope in front of the two chains
makes a pair of them and every lambda makes one with itself. -/
theorem Visit.paired {S : List Value → List Value → Prop} {L : Lambda → Lambda → Prop}
    {chain chain' : List Value} (hcons : ∀ v, S (v :: chain) (v :: chain'))
    (hstay : S (chain.head?.toList ++ chain) (chain'.head?.toList ++ chain')) (hself : ∀ l, L l l)
    (visit : Visit) : visit.Paired S L chain chain' visit := by
  rcases visit with scopes | l | -
  · exact .entering (List.forall₂_same.2 fun v _ ↦ hcons v)
  · exact .calling (hself l)
  · exact .staying hstay

/-- A visit goes about its children as it does itself, where nothing is asked of chains and
lambdas. -/
theorem Visit.paired_self (visit : Visit) (chain chain' : List Value) :
    visit.Paired (fun _ _ ↦ True) (fun _ _ ↦ True) chain chain' visit :=
  visit.paired (fun _ ↦ trivial) trivial fun _ ↦ trivial

/-- Whether two ways of rendering other templates compare, on elements with allowed pieces only and
on chains in pairs. -/
def Reentry.Compare (R : Run.Comparison) (Allowed : Piece → Prop)
    (S : List Value → List Value → Prop) (reenter reenter' : Reentry) : Prop :=
  ∀ es, (∀ p ∈ Element.piecesOf es, Allowed p) → ∀ chain chain', S chain chain' →
    R.Rel Eq (reenter es chain pure) (reenter' es chain' pure)

/-- What has to be known of the parts of two renderings to compare them. Chains are compared by `S`
and lambdas by `L`, and the pieces of all elements are allowed. -/
structure Compiler.SideBySide (R : Run.Comparison) (Allowed : Piece → Prop)
    (S : List Value → List Value → Prop) (L : Lambda → Lambda → Prop) (c c' : Compiler)
    (files : FileTree) : Prop where
  tooDeep : R.Rel Eq (Run.tooDeep : Run Unit) Run.tooDeep
  write {t : String} (ht : Allowed (.text t)) : R.Rel Eq (Run.write t) (Run.write t)
  interpolate {name : String} {raw : Bool} (hpiece : Allowed (.interpolation name raw))
    {chain chain' : List Value} (h : S chain chain') :
    R.Rel Eq (c.interpolate chain name raw) (c'.interpolate chain' name raw)
  renderInclusion {name indent : String} {lineEnd? : Option String}
    (hpiece : Allowed (.inclusion name indent lineEnd?)) {reenter reenter' : Reentry}
    (hreenter : reenter.Compare R Allowed S reenter') {chain chain' : List Value}
    (h : S chain chain') :
    R.Rel Eq (c.renderInclusion files reenter chain name indent pure)
      (c'.renderInclusion files reenter' chain' name indent pure)
  valueOf {name : String} {inverted : Bool} {line : Nat}
    (hpiece : Allowed (.enter name inverted line)) {chain chain' : List Value}
    (h : S chain chain') :
    R.Rel (fun v? w? ↦
        (Value.visit inverted v?).Paired S L chain chain' (Value.visit inverted w?))
      (c.valueOf chain name) (c'.valueOf chain' name)
  callLambda {l l' : Lambda} (hl : L l l') {reenter reenter' : Reentry}
    (hreenter : reenter.Compare R Allowed S reenter') {chain chain' : List Value}
    (h : S chain chain') (name source : String) :
    R.Rel Eq (c.callLambda reenter chain name l source)
      (c'.callLambda reenter' chain' name l' source)

/-- How to render elements that have every interpolation raw, where `forceRaw` is set. -/
def Reentry.forced (forceRaw : Bool) (reenter : Reentry) : Reentry :=
  fun es ↦ reenter (Element.forcedAll forceRaw es)

/-- What has to be known of the parts of two renderings to compare them, where the second has every
interpolation raw if `forceRaw` is set. -/
structure Compiler.SideBySideForced (forceRaw : Bool) (R : Run.Comparison) (Allowed : Piece → Prop)
    (S : List Value → List Value → Prop) (L : Lambda → Lambda → Prop) (c c' : Compiler)
    (files : FileTree) : Prop where
  tooDeep : R.Rel Eq (Run.tooDeep : Run Unit) Run.tooDeep
  write {t : String} (ht : Allowed (.text t)) : R.Rel Eq (Run.write t) (Run.write t)
  interpolate {name : String} {raw : Bool} (hpiece : Allowed (.interpolation name raw))
    {chain chain' : List Value} (h : S chain chain') :
    R.Rel Eq (c.interpolate chain name raw) (c'.interpolate chain' name (raw || forceRaw))
  renderInclusion {name indent : String} {lineEnd? : Option String}
    (hpiece : Allowed (.inclusion name indent lineEnd?)) {reenter reenter' : Reentry}
    (hreenter : reenter.Compare R Allowed S (reenter'.forced forceRaw)) {chain chain' : List Value}
    (h : S chain chain') :
    R.Rel Eq (c.renderInclusion files reenter chain name indent pure)
      (c'.renderInclusion files reenter' chain' name indent pure)
  valueOf {name : String} {inverted : Bool} {line : Nat}
    (hpiece : Allowed (.enter name inverted line)) {chain chain' : List Value}
    (h : S chain chain') :
    R.Rel (fun v? w? ↦
        (Value.visit inverted v?).Paired S L chain chain' (Value.visit inverted w?))
      (c.valueOf chain name) (c'.valueOf chain' name)
  callLambda {l l' : Lambda} (hl : L l l') {reenter reenter' : Reentry}
    (hreenter : reenter.Compare R Allowed S (reenter'.forced forceRaw)) {chain chain' : List Value}
    (h : S chain chain') (name : String) (children : List Element) :
    R.Rel Eq (c.callLambda reenter chain name l (Element.sources children))
      (c'.callLambda reenter' chain' name l'
        (Element.sources (Element.forcedAll forceRaw children)))

section

variable {forceRaw : Bool} {R : Run.Comparison} {Allowed : Piece → Prop}
  {S : List Value → List Value → Prop} {L : Lambda → Lambda → Prop} {c c' : Compiler}
  {files : FileTree} {reenter reenter' : Reentry}

namespace Compiler.SideBySideForced

mutual

theorem renderElement (P : c.SideBySideForced forceRaw R Allowed S L c' files)
    (hreenter : reenter.Compare R Allowed S (reenter'.forced forceRaw))
    (hseq : reenter.Sequential) (hseq' : reenter'.Sequential) (e : Element)
    (hpieces : ∀ p ∈ e.pieces, Allowed p) {chain chain' : List Value} (h : S chain chain') :
    R.Rel Eq (c.renderElement files reenter e chain pure)
      (c'.renderElement files reenter' (e.forced forceRaw) chain' pure) := by
  match e with
  | .text t => exact P.write (hpieces _ List.mem_cons_self)
  | .interpolation name raw =>
    exact R.rel_bind (P.interpolate (hpieces _ List.mem_cons_self) h) fun _ _ _ ↦ R.rel_pure rfl
  | .inclusion name indent lineEnd? =>
    exact P.renderInclusion (hpieces _ List.mem_cons_self) hreenter h
  | .block name inverted line children =>
    have hchildren : ∀ p ∈ Element.piecesOf children, Allowed p := by
      intro p hp
      refine hpieces p ?_
      rw [Element.pieces]
      exact List.mem_cons_of_mem _ (List.mem_append_left _ hp)
    have hinside {chain chain' : List Value} (h : S chain chain') :=
      renderElements P hreenter hseq hseq' children hchildren h
    rw [Element.forced, renderElement_block, renderElement_block]
    refine R.rel_bind (P.valueOf (hpieces _ List.mem_cons_self) h) fun v? w? hvisit ↦ ?_
    generalize Value.visit inverted v? = v, Value.visit inverted w? = w at hvisit
    rcases hvisit with hscopes | hl | hstay
    · exact R.rel_each (fun v w hvw ↦ hinside hvw) hscopes
    · exact R.rel_bind (P.callLambda hl hreenter h _ _) fun _ _ _ ↦ R.rel_pure rfl
    · exact hinside hstay
termination_by structural e

theorem renderElements (P : c.SideBySideForced forceRaw R Allowed S L c' files)
    (hreenter : reenter.Compare R Allowed S (reenter'.forced forceRaw))
    (hseq : reenter.Sequential) (hseq' : reenter'.Sequential) (es : List Element)
    (hpieces : ∀ p ∈ Element.piecesOf es, Allowed p) {chain chain' : List Value}
    (h : S chain chain') :
    R.Rel Eq (c.renderElements files reenter es chain pure)
      (c'.renderElements files reenter' (Element.forcedAll forceRaw es) chain' pure) := by
  match es with
  | [] => exact R.rel_pure rfl
  | e :: es =>
    rw [Element.piecesOf] at hpieces
    have hfirst := renderElement P hreenter hseq hseq' e
      (fun p hp ↦ hpieces p (List.mem_append_left _ hp)) h
    have hothers := renderElements P hreenter hseq hseq' es
      (fun p hp ↦ hpieces p (List.mem_append_right _ hp)) h
    rw [Element.forcedAll, Compiler.renderElements, Compiler.renderElements,
      renderElement_eq_bind c files hseq, renderElement_eq_bind c' files hseq']
    exact R.rel_bind hfirst fun _ _ _ ↦ hothers
termination_by structural es

end

/-- **Renderings whose parts compare do so as a whole**, at every depth, also where one of them has
every interpolation raw. -/
theorem renderAt (P : c.SideBySideForced forceRaw R Allowed S L c' files) (depth : Nat) :
    Reentry.Compare R Allowed S (c.renderAt files depth)
      ((c'.renderAt files depth).forced forceRaw) := by
  induction depth with
  | zero => exact fun _ _ _ _ _ ↦ P.tooDeep
  | succ depth ih =>
    intro es hpieces chain chain' h
    exact P.renderElements ih (renderAt_eq_bind c files depth) (renderAt_eq_bind c' files depth) es
      hpieces h

end Compiler.SideBySideForced

theorem Reentry.forced_false (reenter : Reentry) : reenter.forced false = reenter :=
  funext fun es ↦ congrArg reenter (Element.forcedAll_false es)

namespace Compiler.SideBySide

/-- Nothing is raw in the second rendering that is not in the first. -/
theorem forced (P : c.SideBySide R Allowed S L c' files) :
    c.SideBySideForced false R Allowed S L c' files where
  tooDeep := P.tooDeep
  write := P.write
  interpolate := by
    intro name raw hpiece chain chain' h
    rw [Bool.or_false]
    exact P.interpolate hpiece h
  renderInclusion := by
    intro name indent lineEnd? hpiece reenter reenter' hreenter chain chain' h
    rw [Reentry.forced_false] at hreenter
    exact P.renderInclusion hpiece hreenter h
  valueOf := P.valueOf
  callLambda := by
    intro l l' hl reenter reenter' hreenter chain chain' h name children
    rw [Reentry.forced_false] at hreenter
    rw [Element.forcedAll_false]
    exact P.callLambda hl hreenter h name _

/-- **Renderings whose parts compare do so as a whole**, at every depth. -/
theorem renderAt (P : c.SideBySide R Allowed S L c' files) (depth : Nat) :
    Reentry.Compare R Allowed S (c.renderAt files depth) (c'.renderAt files depth) := by
  have hforced := P.forced.renderAt depth
  rwa [Reentry.forced_false] at hforced

end Compiler.SideBySide

end

end Mustache
