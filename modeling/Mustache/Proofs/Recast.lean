import Mathlib.Data.List.Forall2
import Mustache.Proofs.Descent

/-!
# Trees of tokens that correspond

A `Recast` goes through a tree and changes what it says of lines and indentations, or leaves its
texts out. What it makes of a tree it makes of the tree's tokens one by one: a draft takes a token
as its text, its directive, its line and the element that it leaves, and of each of these a recast
makes its own (`Draft.takeAs`, `Recast.lift_takeAs`).

So two templates have the same tree but for what two recasts make the same of as soon as their
tokens have (`Recast.lift_ofTokens_eq`), and those do when every step of reading does
(`Recast.lift_tokens_eq`). No look at how sections nest is needed again.
-/

namespace Mustache

/-- A change to all of a tree, sections and what is in them included. -/
structure Recast where
  /-- Whether texts stay. -/
  keepsTexts : Bool
  /-- The line of an open tag or of a defect, by what it was. -/
  line : Nat → Nat
  /-- The indentation of a partial, by what it was and by the partial's line end. -/
  indent : String → Option String → String

namespace Recast

variable (f g : Recast)

mutual

/-- What becomes of an element, unless it is left out. -/
def element : Element → Option Element
  | .text t => if f.keepsTexts then some (.text t) else none
  | .interpolation name raw => some (.interpolation name raw)
  | .block name inverted line children =>
    some (.block name inverted (f.line line) (elements children))
  | .inclusion name indent lineEnd? =>
    some (.inclusion name (f.indent indent lineEnd?) lineEnd?)
termination_by structural e => e

/-- What becomes of elements, one by one. -/
def elements : List Element → List Element
  | [] => []
  | e :: es => (element e).toList ++ elements es
termination_by structural es => es

end

/-- What becomes of a tree. -/
def tree (t : Tree) : Tree :=
  { t with elements := f.elements t.elements }

/-- What becomes of a defect's place. -/
def malformed (m : Malformed) : Malformed :=
  { m with line := f.line m.line }

/-- What becomes of a result or of the defect in its place. -/
def lift {α β : Type} (change : α → β) : Except Malformed α → Except Malformed β
  | .ok a => .ok (change a)
  | .error m => .error (f.malformed m)

/-- What becomes of a text. -/
def text (t : List Char) : List Char :=
  if f.keepsTexts then t else []

/-! ### Levels -/

theorem elements_append (es fs : List Element) :
    f.elements (es ++ fs) = f.elements es ++ f.elements fs := by
  induction es with
  | nil => rfl
  | cons e es ih => rw [List.cons_append, elements, ih, elements, List.append_assoc]

theorem elements_reverse (es : List Element) :
    f.elements es.reverse = (f.elements es).reverse := by
  induction es with
  | nil => rfl
  | cons e es ih =>
    have hone : f.elements [e] = (f.element e).toList := List.append_nil _
    rw [List.reverse_cons, elements_append, ih, hone, elements, List.reverse_append]
    rcases f.element e <;> rfl

/-- A text at the end of a level stays there, or neither it nor any other text does. -/
theorem elements_addText (es : List Element) (t : List Char) :
    f.elements (Element.addText es t) = Element.addText (f.elements es) (f.text t) := by
  by_cases ht : t = []
  · have htext : f.text t = [] := by rw [ht, text, ite_self]
    rw [htext, ht, Element.addText_nil, Element.addText_nil]
  · have hadd := Element.addText_of_ne_nil ht
    cases hkeeps : f.keepsTexts with
    | false =>
      have hdrop (u : String) (es : List Element) : f.elements (.text u :: es) = f.elements es := by
        rw [elements, element, hkeeps]
        rfl
      have htext : f.text t = [] := by rw [text, hkeeps]; rfl
      rw [htext, Element.addText_nil, hadd]
      rcases es with - | ⟨u | _ | _ | _, es⟩
      · exact hdrop _ _
      · exact (hdrop _ es).trans (hdrop u es).symm
      all_goals exact hdrop _ _
    | true =>
      have hkeep (u : String) (es : List Element) :
          f.elements (.text u :: es) = .text u :: f.elements es := by
        rw [elements, element, hkeeps]
        rfl
      have htext : f.text t = t := by rw [text, hkeeps]; rfl
      rw [htext, hadd, hadd]
      rcases es with - | ⟨u | _ | _ | _, es⟩
      · exact hkeep _ _
      · exact (hkeep _ es).trans (by rw [hkeep u es])
      all_goals exact hkeep _ _

end Recast

/-! ### Drafts -/

namespace Draft

/-- The draft behind a tag, by the text in front of the tag, what the tag asks for, its line and
the element that it leaves. -/
def takeAs (d : Draft) (text : List Char) (directive : Directive) (line : Nat)
    (e? : Option Element) : Except Malformed Draft :=
  match directive with
  | .enter name inverted => .ok ((d.addText text).enter name inverted line)
  | .leave name => (d.addText text).leave name line
  | _ => .ok ⟨e?.toList ++ (d.addText text).elements, (d.addText text).sections⟩

/-- A draft sees no more of a token. -/
theorem take_eq_takeAs (forceRaw : Bool) (d : Draft) (t : Token) :
    d.take forceRaw t =
      d.takeAs t.text t.directive t.line (Element.ofToken? forceRaw t) := by
  unfold take takeAs
  cases t.directive with
  | enter | leave => rfl
  | _ => cases Element.ofToken? forceRaw t <;> rfl

end Draft

namespace Recast

variable (f g : Recast)

/-- What becomes of a draft. -/
def draft (d : Draft) : Draft where
  elements := f.elements d.elements
  sections := d.sections.map fun s ↦
    { s with line := f.line s.line, before := f.elements s.before }

/-- What becomes of the end of a template. -/
def ending : Ending → Ending
  | .finished t delimiters => .finished (f.text t) delimiters
  | .defective m => .defective (f.malformed m)

theorem draft_addText (d : Draft) (t : List Char) :
    f.draft (d.addText t) = (f.draft d).addText (f.text t) := by
  obtain ⟨es, sections⟩ := d
  rw [Draft.addText_mk, draft, draft, Draft.addText_mk, elements_addText]

/-- **What becomes of a draft behind a tag** is what it becomes behind what the tag becomes. -/
theorem lift_takeAs (d : Draft) (text : List Char) (directive : Directive) (line : Nat)
    (e? : Option Element) :
    f.lift f.draft (d.takeAs text directive line e?) =
      (f.draft d).takeAs (f.text text) directive (f.line line) (e?.bind f.element) := by
  have hflat (d : Draft) : f.draft ⟨e?.toList ++ d.elements, d.sections⟩ =
      ⟨(e?.bind f.element).toList ++ (f.draft d).elements, (f.draft d).sections⟩ := by
    rcases e? with - | e <;> rfl
  unfold Draft.takeAs
  rw [← draft_addText]
  generalize d.addText text = d
  cases directive with
  | enter name inverted => rfl
  | leave name =>
    obtain ⟨es, sections⟩ := d
    cases sections with
    | nil => rfl
    | cons s outer =>
      simp only [Draft.leave, draft, List.map_cons]
      split
      · simp [lift, draft, elements, element, elements_reverse]
      · rfl
  | _ => exact congrArg Except.ok (hflat d)

theorem lift_finish (d : Draft) (e : Ending) :
    f.lift f.tree (d.finish e) = (f.draft d).finish (f.ending e) := by
  cases e with
  | defective m => rfl
  | finished text delimiters =>
    obtain ⟨es, sections⟩ := d
    cases sections with
    | nil =>
      have hlevel := congrArg Draft.elements (f.draft_addText ⟨es, []⟩ text)
      show Except.ok (f.tree ⟨(Draft.addText ⟨es, []⟩ text).elements.reverse, delimiters⟩) = _
      rw [tree, elements_reverse]
      exact congrArg (fun es ↦ Except.ok (Tree.mk (List.reverse es) delimiters)) hlevel
    | cons s outer => rfl

/-! ### Tokens -/

/-- Whether two recasts make the same of two tokens. -/
structure Agree (forceRaw : Bool) (t t' : Token) : Prop where
  directive : t.directive = t'.directive
  line : f.line t.line = g.line t'.line
  text : f.text t.text = g.text t'.text
  element : (Element.ofToken? forceRaw t).bind f.element =
    (Element.ofToken? forceRaw t').bind g.element

/-- Drafts of which two recasts make the same go on as the tokens behind them. -/
theorem lift_foldlM_take_eq {forceRaw : Bool} {ts ts' : List Token}
    (hlist : List.Forall₂ (f.Agree g forceRaw) ts ts') {e e' : Ending}
    (hending : f.ending e = g.ending e') {d d' : Draft} (hd : f.draft d = g.draft d') :
    f.lift f.tree (ts.foldlM (Draft.take forceRaw) d >>= fun d ↦ d.finish e) =
      g.lift g.tree (ts'.foldlM (Draft.take forceRaw) d' >>= fun d ↦ d.finish e') := by
  induction hlist generalizing d d' with
  | nil =>
    show f.lift f.tree (d.finish e) = g.lift g.tree (d'.finish e')
    rw [lift_finish, lift_finish, hd, hending]
  | @cons t t' ts ts' h hlist ih =>
    have hnext : f.lift f.draft (d.take forceRaw t) = g.lift g.draft (d'.take forceRaw t') := by
      rw [Draft.take_eq_takeAs, Draft.take_eq_takeAs, lift_takeAs, lift_takeAs, hd, h.directive,
        h.line, h.text, h.element]
    rw [List.foldlM_cons, List.foldlM_cons, bind_assoc, bind_assoc]
    generalize d.take forceRaw t = r, d'.take forceRaw t' = r' at hnext
    rcases r with m | d <;> rcases r' with m' | d'
    · exact congrArg Except.error (Except.error.inj hnext)
    · exact nomatch hnext
    · exact nomatch hnext
    · exact ih (Except.ok.inj hnext)

/-- **Where two recasts make the same of the tokens, they make the same of the tree**, or of the
defect in its place. -/
theorem lift_ofTokens_eq {forceRaw : Bool} {ts ts' : Tokens}
    (hlist : List.Forall₂ (f.Agree g forceRaw) ts.list ts'.list)
    (hending : f.ending ts.ending = g.ending ts'.ending) :
    f.lift f.tree (Tree.ofTokens forceRaw ts) = g.lift g.tree (Tree.ofTokens forceRaw ts') := by
  rw [Tree.ofTokens_eq_bind, Tree.ofTokens_eq_bind]
  exact f.lift_foldlM_take_eq g hlist hending rfl

/-! ### Readings -/

/-- Whether two recasts make the same of two steps, and the positions behind them are related. -/
inductive AgreeUpTo (forceRaw : Bool) (R : Cursor → Cursor → Prop) : Step → Step → Prop
  | token {t t' : Token} {next next' : Cursor} (h : f.Agree g forceRaw t t')
      (hnext : R next next') :
    AgreeUpTo forceRaw R (.token t next) (.token t' next')
  | stop {e e' : Ending} (h : f.ending e = g.ending e') : AgreeUpTo forceRaw R (.stop e) (.stop e')

variable {R : Cursor → Cursor → Prop} {forceRaw : Bool}
  (hstep : ∀ {c c'}, R c c' → f.AgreeUpTo g forceRaw R c.step c'.step)
include hstep

/-- Where two recasts make the same of every step, they make the same of the tokens. -/
theorem agree_tokens {c c' : Cursor} (h : R c c') :
    List.Forall₂ (f.Agree g forceRaw) c.tokens.list c'.tokens.list ∧
      f.ending c.tokens.ending = g.ending c'.tokens.ending := by
  have hsteps := hstep h
  match hc : c.step, hc' : c'.step with
  | .stop e, .stop e' =>
    rw [hc, hc'] at hsteps
    rcases hsteps with - | hend
    rw [Cursor.tokens_of_stop hc, Cursor.tokens_of_stop hc']
    exact ⟨.nil, hend⟩
  | .token t next, .token t' next' =>
    rw [hc, hc'] at hsteps
    rcases hsteps with ⟨htoken, hnext⟩
    obtain ⟨hlist, hending⟩ := agree_tokens hnext
    rw [Cursor.tokens_of_token hc, Cursor.tokens_of_token hc']
    exact ⟨.cons htoken hlist, hending⟩
  | .stop e, .token t' next' =>
    rw [hc, hc'] at hsteps
    cases hsteps
  | .token t next, .stop e' =>
    rw [hc, hc'] at hsteps
    cases hsteps
termination_by c.rest.length
decreasing_by exact Cursor.length_rest_lt_of_step hc

/-- **Where two recasts make the same of every step, they make the same of the tree**, or of the
defect in its place. -/
theorem lift_tokens_eq {c c' : Cursor} (h : R c c') :
    f.lift f.tree (Tree.ofTokens forceRaw c.tokens) =
      g.lift g.tree (Tree.ofTokens forceRaw c'.tokens) := by
  obtain ⟨hlist, hending⟩ := f.agree_tokens g hstep h
  exact f.lift_ofTokens_eq g hlist hending

end Recast

end Mustache
