import Mustache.Proofs.DocumentOrder
import Mustache.Rendering

/-!
# The pieces of a printed source

The source text that a lambda gets to see, piece by piece: what each piece of a section is printed
as, and how much of a piece matters to whoever goes on with it.

* `sources_toList` — a source is the pieces of its elements, each printed by itself;
* `piecesOf_injective` — elements are known by their pieces, so what has been read piece by piece
  has been read;
* `Element.Alike` — elements that differ at most in the lines of open tags, and in whether a partial
  within a line is said to take nothing of that line with it. Alike elements render alike
  (`Compiler.renderAt_congr`).
-/

namespace Mustache

/-! ### Printed pieces -/

/-- A tag as it is printed, with this between its delimiters. -/
def printedTag (body : List Char) : List Char :=
  Delimiters.standard.opening ++ (body ++ Delimiters.standard.closing)

namespace Piece

/-- What the tag of a piece is printed with between its delimiters. -/
def body : Piece → List Char
  | .text _ => []
  | .interpolation name raw => if raw then '&' :: name.toList else name.toList
  | .enter name inverted _ => (if inverted then '^' else '#') :: name.toList
  | .leave name => '/' :: name.toList
  | .inclusion name _ _ => '>' :: name.toList

/-- The blanks that are printed in front of the tag of a piece. -/
def margin : Piece → List Char
  | .inclusion _ indent (some _) => indent.toList
  | _ => []

/-- The rest of the line that is printed behind the tag of a piece. -/
def lineEnd : Piece → List Char
  | .inclusion _ _ (some ending) => ending.toList
  | _ => []

/-- A piece as it is printed. -/
def printed : Piece → List Char
  | .text t => t.toList
  | p => p.margin ++ (printedTag p.body ++ p.lineEnd)

/-- A tag is printed between its margin and its line end, where it has them. -/
theorem printed_of_isText_eq_false {p : Piece} (h : p.isText = false) :
    p.printed = p.margin ++ (printedTag p.body ++ p.lineEnd) := by
  cases p with
  | text t => cases h
  | _ => rfl

end Piece

namespace Element

mutual

/-- The source of an element is what its pieces are printed as, one behind the other. -/
theorem source_toList (e : Element) : e.source.toList = e.pieces.flatMap Piece.printed := by
  match e with
  | .text t => simp [source, appendSource, pieces, Piece.printed]
  | .interpolation name raw =>
    cases raw <;>
      simp [source, appendSource, pieces, Piece.printed, Piece.margin, Piece.body, Piece.lineEnd,
        printedTag, Delimiters.standard]
  | .block name inverted line children =>
    have hchildren := sources_toList children
    cases inverted <;>
      simp [source_block, pieces, hchildren, Piece.printed, Piece.margin, Piece.body,
        Piece.lineEnd, printedTag, Delimiters.standard]
  | .inclusion name indent none =>
    simp [source, appendSource, pieces, Piece.printed, Piece.margin, Piece.body, Piece.lineEnd,
      printedTag, Delimiters.standard]
  | .inclusion name indent (some ending) =>
    simp [source, appendSource, pieces, Piece.printed, Piece.margin, Piece.body, Piece.lineEnd,
      printedTag, Delimiters.standard]
termination_by structural e

/-- **A source is its pieces**, each printed by itself. -/
theorem sources_toList (es : List Element) :
    (sources es).toList = (piecesOf es).flatMap Piece.printed := by
  match es with
  | [] => rfl
  | e :: es =>
    rw [sources_cons, String.toList_append, source_toList e, sources_toList es, piecesOf,
      List.flatMap_append]
termination_by structural es

end

end Element

/-! ### Elements are known by their pieces -/

namespace Element

/-- Whether pieces can come behind those of some elements: nothing can, or the end of the section
they are in. -/
def EndsLevel (ps : List Piece) : Prop :=
  ps = [] ∨ ∃ name ps', ps = .leave name :: ps'

/-- Elements can be told from their pieces and from where their level ends. -/
theorem eq_of_piecesOf_append {es fs : List Element} {ps qs : List Piece} (hps : EndsLevel ps)
    (hqs : EndsLevel qs) (h : piecesOf es ++ ps = piecesOf fs ++ qs) : es = fs ∧ ps = qs := by
  match es, fs with
  | [], [] => exact ⟨rfl, h⟩
  | [], f :: fs =>
    -- one level would end where the other has an element, and no element starts with a close
    exfalso
    rcases hps with rfl | ⟨name, ps', rfl⟩ <;>
      cases f <;> simp [piecesOf, pieces] at h
  | e :: es, [] =>
    exfalso
    rcases hqs with rfl | ⟨name, qs', rfl⟩ <;>
      cases e <;> simp [piecesOf, pieces] at h
  | e :: es, f :: fs =>
    have hrest : ∀ {ps' qs'}, EndsLevel ps' → EndsLevel qs' →
        piecesOf es ++ ps' = piecesOf fs ++ qs' → es = fs ∧ ps' = qs' :=
      fun hps' hqs' h' ↦ eq_of_piecesOf_append hps' hqs' h'
    cases e <;> cases f <;>
      simp only [piecesOf, pieces, List.cons_append, List.append_assoc,
        List.cons.injEq, reduceCtorEq, false_and, List.nil_append] at h
    case text.text | interpolation.interpolation | inclusion.inclusion =>
      obtain ⟨hhead, htail⟩ := h
      obtain ⟨rfl, rfl⟩ := hrest hps hqs htail
      cases hhead
      exact ⟨rfl, rfl⟩
    case block.block name inverted line children name' inverted' line' children' =>
      -- the children end at the close tag, which is the end of their level
      obtain ⟨hhead, htail⟩ := h
      obtain ⟨rfl, hbehind⟩ :=
        eq_of_piecesOf_append (.inr ⟨name, _, rfl⟩) (.inr ⟨name', _, rfl⟩) htail
      obtain ⟨-, hbehind⟩ := List.cons.inj hbehind
      obtain ⟨rfl, rfl⟩ := hrest hps hqs hbehind
      cases hhead
      exact ⟨rfl, rfl⟩
termination_by sizeOf es

/-- Elements are known by their pieces. -/
theorem piecesOf_injective {es fs : List Element} (h : piecesOf es = piecesOf fs) : es = fs := by
  have hends : EndsLevel [] := .inl rfl
  exact (eq_of_piecesOf_append hends hends (congrArg (· ++ []) h)).1

end Element

/-! ### What a rendering can tell -/

/-- The line end of a partial as far as a rendering can tell: one that is empty, with no blanks in
front of the partial, is none. -/
def lineEndCore (indent : String) (lineEnd? : Option String) : Option String :=
  if indent = "" ∧ lineEnd? = some "" then none else lineEnd?

/-- A piece as far as a rendering can tell. -/
def Piece.core : Piece → Piece
  | .enter name inverted _ => .enter name inverted 0
  | .inclusion name indent lineEnd? => .inclusion name indent (lineEndCore indent lineEnd?)
  | p => p

namespace Element

mutual

/-- An element as far as a rendering can tell. -/
def core : Element → Element
  | .block name inverted _ children => .block name inverted 0 (coresOf children)
  | .inclusion name indent lineEnd? => .inclusion name indent (lineEndCore indent lineEnd?)
  | e => e
termination_by structural e => e

/-- Elements as far as a rendering can tell. -/
def coresOf : List Element → List Element
  | [] => []
  | e :: es => e.core :: coresOf es
termination_by structural es => es

end

/-- Whether a rendering cannot tell some elements from others. -/
def Alike (es fs : List Element) : Prop :=
  coresOf es = coresOf fs

mutual

/-- The pieces of a core are the cores of the pieces. -/
theorem pieces_core (e : Element) : e.core.pieces = e.pieces.map Piece.core := by
  match e with
  | .text _ | .interpolation _ _ | .inclusion _ _ _ => rfl
  | .block name inverted line children =>
    rw [core, pieces, pieces, piecesOf_coresOf children]
    simp [Piece.core]
termination_by structural e

theorem piecesOf_coresOf (es : List Element) :
    piecesOf (coresOf es) = (piecesOf es).map Piece.core := by
  match es with
  | [] => rfl
  | e :: es => rw [coresOf, piecesOf, piecesOf, pieces_core e, piecesOf_coresOf es, List.map_append]
termination_by structural es

end

/-- Elements are alike exactly when their pieces are. -/
theorem alike_iff {es fs : List Element} :
    Alike es fs ↔ (piecesOf es).map Piece.core = (piecesOf fs).map Piece.core := by
  rw [← piecesOf_coresOf, ← piecesOf_coresOf]
  exact ⟨fun h ↦ congrArg piecesOf h, fun h ↦ piecesOf_injective h⟩

/-- Pieces that are alike are printed alike. -/
theorem printed_core (p : Piece) : p.core.printed = p.printed := by
  cases p with
  | inclusion name indent lineEnd? =>
    rw [Piece.core, lineEndCore]
    split
    · next h =>
      obtain ⟨rfl, rfl⟩ := h
      rfl
    · rfl
  | _ => rfl

/-- No source tells an element from its core: lines are not printed. -/
theorem sources_coresOf (es : List Element) : sources (coresOf es) = sources es := by
  refine String.toList_inj.1 ?_
  rw [sources_toList, sources_toList, piecesOf_coresOf, List.flatMap_map]
  exact congrArg (List.flatMap · (piecesOf es)) (funext printed_core)

end Element

namespace Compiler

variable (c : Compiler) (files : FileTree) (reenter : Reentry)

mutual

/-- An element renders as its core does. -/
theorem renderElement_core (e : Element) :
    c.renderElement files reenter e.core = c.renderElement files reenter e := by
  match e with
  | .text _ | .interpolation _ _ | .inclusion _ _ _ => rfl
  | .block name inverted line children =>
    funext chain rest
    rw [Element.core, renderElement, renderElement, renderElements_coresOf children,
      Element.sources_coresOf]
termination_by structural e

theorem renderElements_coresOf (es : List Element) :
    c.renderElements files reenter (Element.coresOf es) = c.renderElements files reenter es := by
  match es with
  | [] => rfl
  | e :: es =>
    funext chain rest
    rw [Element.coresOf, renderElements, renderElements, renderElement_core e,
      renderElements_coresOf es]
termination_by structural es

end

/-- **Alike elements render alike**, whatever the files and the scopes, and at every depth. -/
theorem renderAt_congr {es fs : List Element} (h : Element.Alike es fs) (depth : Nat) :
    c.renderAt files depth es = c.renderAt files depth fs := by
  cases depth with
  | zero => rfl
  | succ depth =>
    show c.renderElements files (c.renderAt files depth) es =
      c.renderElements files (c.renderAt files depth) fs
    rw [← renderElements_coresOf c files _ es, h, renderElements_coresOf]

end Compiler

end Mustache
