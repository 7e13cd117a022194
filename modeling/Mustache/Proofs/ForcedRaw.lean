import Mustache.Proofs.Descent

/-!
# Trees with every interpolation raw

In raw mode a text is read with every interpolation raw. That is all that the mode has to do with
reading: the tree is the one of any other mode with the flags of its interpolations set, and a
defect is the same defect (`Tree.ofText_eq_map_forced`).

A draft goes from token to token as its levels and open sections do (`Draft.take_forced`). The flag
is set where the element of a tag is made, and no later token looks at it.
-/

namespace Mustache

namespace Element

mutual

/-- The element with every interpolation in it raw, where `forceRaw` is set. -/
def forced (forceRaw : Bool) : Element → Element
  | .text t => .text t
  | .interpolation name raw => .interpolation name (raw || forceRaw)
  | .block name inverted line children => .block name inverted line (forcedAll forceRaw children)
  | .inclusion name indent lineEnd? => .inclusion name indent lineEnd?
termination_by structural e => e

/-- The elements with every interpolation in them raw, where `forceRaw` is set. -/
def forcedAll (forceRaw : Bool) : List Element → List Element
  | [] => []
  | e :: es => forced forceRaw e :: forcedAll forceRaw es
termination_by structural es => es

end

/-- Lists are forced element by element. -/
theorem forcedAll_eq_map (forceRaw : Bool) (es : List Element) :
    forcedAll forceRaw es = es.map (forced forceRaw) := by
  induction es with
  | nil => rfl
  | cons e es ih => rw [forcedAll, ih, List.map_cons]

mutual

/-- Nothing changes where raw tags are not forced. -/
theorem forced_false (e : Element) : e.forced false = e := by
  match e with
  | .text t => rfl
  | .interpolation name raw => rw [forced, Bool.or_false]
  | .block name inverted line children => rw [forced, forcedAll_false children]
  | .inclusion name indent lineEnd? => rfl
termination_by structural e

/-- Nothing changes where the flag is not set. -/
theorem forcedAll_false (es : List Element) : forcedAll false es = es := by
  match es with
  | [] => rfl
  | e :: es => rw [forcedAll, forced_false e, forcedAll_false es]
termination_by structural es

end

/-- The flag is set in the element of a tag. -/
theorem ofToken?_forced (forceRaw : Bool) (t : Token) :
    ofToken? forceRaw t = (ofToken? false t).map (forced forceRaw) := by
  unfold ofToken?
  split
  · rw [Bool.or_false]
    rfl
  · split <;> rfl
  · rfl

end Element

/-- The tree with every interpolation raw, where `forceRaw` is set. -/
def Tree.forced (forceRaw : Bool) (tree : Tree) : Tree :=
  { tree with elements := Element.forcedAll forceRaw tree.elements }

namespace Draft

/-- The draft with every interpolation raw, where `forceRaw` is set. -/
def forced (forceRaw : Bool) (d : Draft) : Draft where
  elements := Element.forcedAll forceRaw d.elements
  sections := d.sections.map fun s ↦ { s with before := Element.forcedAll forceRaw s.before }

theorem forced_addText (forceRaw : Bool) (d : Draft) (t : List Char) :
    (d.addText t).forced forceRaw = (d.forced forceRaw).addText t := by
  obtain ⟨es, sections⟩ := d
  unfold addText
  split
  · rfl
  · rcases es with - | ⟨_ | _ | _ | _, _⟩ <;> rfl

/-- **A token makes the same of a draft**, whether the flag is set in it before or after. -/
theorem take_forced (forceRaw : Bool) (d : Draft) (t : Token) :
    (d.forced forceRaw).take forceRaw t = (d.take false t).map (forced forceRaw) := by
  unfold take
  rw [← forced_addText]
  generalize d.addText t.text = d
  split
  · rfl
  · obtain ⟨es, sections⟩ := d
    rcases sections with - | ⟨s, outer⟩
    · rfl
    · simp only [leave, forced, List.map_cons]
      split
      · simp [Except.map, forced, Element.forcedAll_eq_map, Element.forced]
      · rfl
  · rw [Element.ofToken?_forced]
    rcases Element.ofToken? false t with - | e <;> rfl

/-- A whole reading can be forced as it goes or at its end. -/
theorem foldlM_take_forced (forceRaw : Bool) (ts : List Token) (d : Draft) :
    ts.foldlM (take forceRaw) (d.forced forceRaw) =
      (ts.foldlM (take false) d).map (forced forceRaw) := by
  induction ts generalizing d with
  | nil => rfl
  | cons t ts ih =>
    rw [List.foldlM_cons, List.foldlM_cons, take_forced]
    rcases d.take false t with m | next
    · rfl
    · exact ih next

/-- The same errors are found at the end, as names and lines are not touched. -/
theorem finish_forced (forceRaw : Bool) (d : Draft) (e : Ending) :
    (d.forced forceRaw).finish e = (d.finish e).map (Tree.forced forceRaw) := by
  rcases e with ⟨text, delimiters⟩ | m
  · obtain ⟨es, sections⟩ := d
    rcases sections with - | ⟨s, outer⟩
    · have hlevel := congrArg Draft.elements (forced_addText forceRaw ⟨es, []⟩ text)
      show Except.ok (Tree.mk (Draft.addText (forced forceRaw ⟨es, []⟩) text).elements.reverse _) =
        Except.ok
          (Tree.forced forceRaw ⟨(Draft.addText ⟨es, []⟩ text).elements.reverse, delimiters⟩)
      rw [← hlevel, Tree.forced, Draft.forced, Element.forcedAll_eq_map, Element.forcedAll_eq_map,
        List.map_reverse]
    · rfl
  · rfl

end Draft

/-- **Reading with every interpolation raw** is reading and then making them raw. -/
theorem Tree.ofText_eq_map_forced (forceRaw : Bool) (text : String) :
    ofText forceRaw text = (ofText false text).map (forced forceRaw) := by
  rw [ofText, ofText, ofTokens_eq_bind, ofTokens_eq_bind]
  have hstart : Draft.empty = Draft.empty.forced forceRaw := rfl
  rw [hstart, Draft.foldlM_take_forced, ← hstart]
  rcases (Tokens.ofTemplate text.toList).list.foldlM (Draft.take false) .empty with m | d
  · rfl
  · exact Draft.finish_forced forceRaw d _

end Mustache
