import Mustache.Element

/-!
# The tree of a template

How the elements of a template are built from its tokens.

## Shape decisions

* **A tree grows token by token.** A `Draft` holds the elements of the level that is being read
  and, for every section still open, what stands in front of it. No token is looked at twice, and
  a draft needs no more of a template than the part that has been read.
* **A close tag is checked against the innermost open section,** which is the only one it can
  close.
* **Text never stands next to text.** `addText` lengthens a text at the end of the level and leaves
  no element for an empty one, so a tag that leaves no element leaves no seam either.
-/

namespace Mustache

/-- What comes out of two steps has come out of the first and then of the second. -/
theorem bind_eq_ok_iff {ε α β : Type} {r : Except ε α} {f : α → Except ε β} {b : β} :
    r >>= f = .ok b ↔ ∃ a, r = .ok a ∧ f a = .ok b := by
  constructor
  · intro h
    cases r with
    | error e => cases h
    | ok a => exact ⟨a, rfl, h⟩
  · rintro ⟨a, rfl, h⟩
    exact h

/-- A section that waits for its close tag. -/
structure OpenSection where
  name : String
  inverted : Bool
  /-- The line of the open tag. -/
  line : Nat
  /-- The elements in front of the section on its own level, the latest first. -/
  before : List Element

/-- A template taken apart. -/
structure Tree where
  elements : List Element
  /-- The delimiters in effect at the end. -/
  delimiters : Delimiters

/-- A tree in the making. -/
structure Draft where
  /-- The elements of the level that is being read, the latest first. -/
  elements : List Element
  /-- The sections around that level, the innermost first. -/
  sections : List OpenSection

namespace Draft

/-- The draft before the first token. -/
def empty : Draft :=
  ⟨[], []⟩

/-- The draft with a text at its end. -/
def addText (d : Draft) (t : List Char) : Draft :=
  if t = [] then d
  else
    match d with
    | ⟨.text u :: es, sections⟩ => ⟨.text (u ++ String.ofList t) :: es, sections⟩
    | ⟨es, sections⟩ => ⟨.text (String.ofList t) :: es, sections⟩

/-- A text opens and closes nothing. -/
theorem sections_addText (d : Draft) (t : List Char) : (d.addText t).sections = d.sections := by
  unfold addText
  split
  · rfl
  · split <;> rfl

/-- The draft with the element of a tag at its end. -/
def addElement (d : Draft) (e : Element) : Draft :=
  { d with elements := e :: d.elements }

/-- The draft inside a section that starts at its end. -/
def enter (d : Draft) (name : String) (inverted : Bool) (line : Nat) : Draft :=
  ⟨[], ⟨name, inverted, line, d.elements⟩ :: d.sections⟩

/-- The draft behind the innermost section, which a close tag on this line ends. -/
def leave (d : Draft) (name : String) (line : Nat) : Except Malformed Draft :=
  match d.sections with
  | [] => .error ⟨line, .unmatchedClose⟩
  | s :: sections =>
    if s.name = name then
      .ok ⟨.block s.name s.inverted s.line d.elements.reverse :: s.before, sections⟩
    else .error ⟨line, .interleavedClose name⟩

/-- The draft behind a token. Every interpolation is raw where `forceRaw` is set. -/
def take (forceRaw : Bool) (d : Draft) (t : Token) : Except Malformed Draft :=
  let d := d.addText t.text
  match t.directive with
  | .enter name inverted => .ok (d.enter name inverted t.line)
  | .leave name => d.leave name t.line
  | _ =>
    match Element.ofToken? forceRaw t with
    | some e => .ok (d.addElement e)
    | none => .ok d

/-- The tree of a draft to which only the end of the template is missing. -/
def finish (d : Draft) : Ending → Except Malformed Tree
  | .defective m => .error m
  | .finished text delimiters =>
    match d.sections with
    | [] => .ok ⟨(d.addText text).elements.reverse, delimiters⟩
    | s :: _ => .error ⟨s.line, .unclosedSection s.name⟩

end Draft

namespace Tree

/-- The tree of tokens, or the first defect in the order of the text. -/
def ofTokens (forceRaw : Bool) (ts : Tokens) : Except Malformed Tree :=
  match ts.list.foldlM (Draft.take forceRaw) Draft.empty with
  | .error m => .error m
  | .ok d => d.finish ts.ending

/-- The tree of a template's text. Every interpolation is raw where `forceRaw` is set. -/
def ofText (forceRaw : Bool) (template : String) : Except Malformed Tree :=
  ofTokens forceRaw (Tokens.ofTemplate template.toList)

end Tree

end Mustache
