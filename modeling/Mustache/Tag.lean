import Mustache.Element
import Mustache.Text.Quoted

/-!
# Tags of a template

A view of a template's tree as its tags: what kind each is, its name, where it is, and which tags
are nested in it. Text is left out.
-/

namespace Mustache

inductive TagKind
  | interpolation
  | block
  | invertedBlock
  | inclusion
  deriving DecidableEq, Repr

/-- The name of a kind. -/
def TagKind.name : TagKind → String
  | interpolation => "Variable"
  | block => "Section"
  | invertedBlock => "InvertedSection"
  | inclusion => "Partial"

/-- A tag and the tags nested in it. -/
inductive Tag
  | mk (kind : TagKind) (name : String) (line? : Option Nat) (nested : List Tag)

namespace Tag

def kind : Tag → TagKind
  | mk kind _ _ _ => kind

def name : Tag → String
  | mk _ name _ _ => name

/-- The line of the open tag of a section; other tags have none. -/
def line? : Tag → Option Nat
  | mk _ _ line? _ => line?

/-- The tags directly inside a section; other tags have none. -/
def nested : Tag → List Tag
  | mk _ _ _ nested => nested

/-- A tag shown by its kind and its name. -/
def describe (t : Tag) : String :=
  "Tag \x7b kind: " ++ t.kind.name ++ ", name: " ++ Text.quoted t.name ++ " \x7d"

mutual

/-- The tag of an element, unless it is text. -/
def ofElement? : Element → Option Tag
  | .text _ => none
  | .interpolation name _ => some (mk .interpolation name none [])
  | .block name inverted line children =>
    some (mk (if inverted then .invertedBlock else .block) name (some line)
      (ofElementsAfter [] children))
  | .inclusion name _ _ => some (mk .inclusion name none [])
termination_by structural e => e

/-- The tags among elements, behind those found before, the latest of which is first. -/
def ofElementsAfter (found : List Tag) : List Element → List Tag
  | [] => found.reverse
  | e :: es =>
    match ofElement? e with
    | some t => ofElementsAfter (t :: found) es
    | none => ofElementsAfter found es
termination_by structural es => es

end

/-- The tags among elements, in order. -/
def ofElements (es : List Element) : List Tag :=
  ofElementsAfter [] es

/-- What was found before goes in front of the tags among further elements. -/
theorem ofElementsAfter_eq (found : List Tag) (es : List Element) :
    ofElementsAfter found es = found.reverse ++ ofElements es := by
  induction es generalizing found with
  | nil => exact (List.append_nil _).symm
  | cons e es ih =>
    simp only [ofElements, ofElementsAfter]
    split
    · next t _ => rw [ih, ih [t]]; simp
    · exact ih found

/-- The tags among elements are those of the single elements. -/
theorem ofElements_eq_filterMap (es : List Element) : ofElements es = es.filterMap ofElement? := by
  induction es with
  | nil => rfl
  | cons e es ih =>
    rw [ofElements, ofElementsAfter, List.filterMap_cons]
    cases ofElement? e with
    | some t => exact (ofElementsAfter_eq [t] es).trans (congrArg (t :: ·) ih)
    | none => exact ih

mutual

/-- The outline of a tag in front of what has been outlined before, all in reverse. -/
def outlineOnto (before : List (Nat × Tag)) (depth : Nat) : Tag → List (Nat × Tag)
  | t@(mk _ _ _ nested) => outlinesOnto ((depth, t) :: before) (depth + 1) nested
termination_by structural t => t

/-- The outlines of tags in front of what has been outlined before, all in reverse. -/
def outlinesOnto (before : List (Nat × Tag)) (depth : Nat) : List Tag → List (Nat × Tag)
  | [] => before
  | t :: ts => outlinesOnto (outlineOnto before depth t) depth ts
termination_by structural ts => ts

end

/-- A tag and all tags nested in it, each with its depth: a tag comes before the tags inside. -/
def outline (depth : Nat) (t : Tag) : List (Nat × Tag) :=
  (outlineOnto [] depth t).reverse

/-- The outlines of tags one after the other. -/
def outlines (depth : Nat) (ts : List Tag) : List (Nat × Tag) :=
  (outlinesOnto [] depth ts).reverse

mutual

/-- What has been outlined before stays behind the outline of the tag, untouched. -/
theorem outlineOnto_eq (before : List (Nat × Tag)) (depth : Nat) (t : Tag) :
    outlineOnto before depth t = outlineOnto [] depth t ++ before := by
  match t with
  | mk kind name line? nested =>
    rw [outlineOnto, outlineOnto, outlinesOnto_eq _ _ nested, outlinesOnto_eq [_] _ nested]
    simp
termination_by structural t

theorem outlinesOnto_eq (before : List (Nat × Tag)) (depth : Nat) (ts : List Tag) :
    outlinesOnto before depth ts = outlinesOnto [] depth ts ++ before := by
  match ts with
  | [] => rfl
  | t :: ts =>
    rw [outlinesOnto, outlinesOnto, outlinesOnto_eq _ _ ts,
      outlinesOnto_eq (outlineOnto [] _ t) _ ts, outlineOnto_eq before depth t, List.append_assoc]
termination_by structural ts

end

/-- A tag is followed by what is nested in it, one level deeper. -/
theorem outline_mk (depth : Nat) (kind : TagKind) (name : String) (line? : Option Nat)
    (nested : List Tag) :
    outline depth (mk kind name line? nested) =
      (depth, mk kind name line? nested) :: outlines (depth + 1) nested := by
  rw [outline, outlineOnto, outlinesOnto_eq, List.reverse_append]
  rfl

theorem outlines_nil (depth : Nat) : outlines depth [] = [] := rfl

/-- Tags are outlined one after the other. -/
theorem outlines_cons (depth : Nat) (t : Tag) (ts : List Tag) :
    outlines depth (t :: ts) = outline depth t ++ outlines depth ts := by
  rw [outlines, outlinesOnto, outlinesOnto_eq, List.reverse_append]
  rfl

end Tag

end Mustache
