import Mustache.Tree

/-!
# Elements in document order

The elements of a template one after the other, as the text has them: a section is a piece where it
starts and a piece where it ends, with the pieces of its children in between.

## The tree is the pieces of its tokens

A `Draft` keeps its elements level by level, and a token changes the innermost level only. Read in
document order a draft is one list that grows at its end, whatever the token does to the levels:
`Draft.pieces_take` is the step, `pieces_of_ofTokens` the whole template. So what a tree holds, and
in which order, can be read off its tokens with no look at how they nest.

Lists that grow at their end are kept in reverse, like the levels of a draft.
-/

namespace Mustache

/-- A piece of a template. -/
inductive Piece
  | text (t : String)
  | interpolation (name : String) (raw : Bool)
  | enter (name : String) (inverted : Bool) (line : Nat)
  | leave (name : String)
  | inclusion (name indent : String) (lineEnd? : Option String)
  deriving DecidableEq

mutual

/-- The pieces of an element. -/
def Element.pieces : Element → List Piece
  | .text t => [.text t]
  | .interpolation name raw => [.interpolation name raw]
  | .block name inverted line children =>
    .enter name inverted line :: (piecesOf children ++ [.leave name])
  | .inclusion name indent lineEnd? => [.inclusion name indent lineEnd?]
termination_by structural e => e

/-- The pieces of elements in document order. -/
def Element.piecesOf : List Element → List Piece
  | [] => []
  | e :: es => e.pieces ++ piecesOf es
termination_by structural es => es

end

/-- The pieces of elements come in the order of the elements. -/
theorem Element.piecesOf_append (es fs : List Element) :
    piecesOf (es ++ fs) = piecesOf es ++ piecesOf fs := by
  induction es with
  | nil => rfl
  | cons e es ih => rw [List.cons_append, piecesOf, ih, piecesOf, List.append_assoc]

/-! ### Pieces of tokens -/

/-- The piece of a token's tag, if it leaves one. -/
def Token.piece? (forceRaw : Bool) (t : Token) : Option Piece :=
  match t.directive with
  | .interpolation name raw => some (.interpolation name (raw || forceRaw))
  | .enter name inverted => some (.enter name inverted t.line)
  | .leave name => some (.leave name)
  | .inclusion name =>
    match t.lineEnd? with
    | some ending => some (.inclusion name (String.ofList t.padding) (some (String.ofList ending)))
    | none => some (.inclusion name "" none)
  | .comment | .delimiters _ => none

namespace Piece

/-- The pieces read so far, the latest first, with a text behind them. -/
def addText (read : List Piece) (t : List Char) : List Piece :=
  if t = [] then read
  else
    match read with
    | .text u :: before => .text (u ++ String.ofList t) :: before
    | _ => .text (String.ofList t) :: read

/-- The pieces read so far, the latest first, with a token behind them. -/
def take (forceRaw : Bool) (read : List Piece) (t : Token) : List Piece :=
  (t.piece? forceRaw).toList ++ addText read t.text

/-- The characters of a text; other pieces have none. -/
def chars : Piece → List Char
  | .text t => t.toList
  | _ => []

/-- Whether a piece is text. -/
def isText : Piece → Bool
  | .text _ => true
  | _ => false

/-- A text as a piece, or as none when it is empty. -/
def ofText (t : List Char) : List Piece :=
  if t = [] then [] else [.text (String.ofList t)]

theorem ofText_nil : ofText [] = [] := rfl

/-- Texts are cut into pieces without loss. -/
theorem flatMap_chars_ofText (t : List Char) : (ofText t).flatMap chars = t := by
  unfold ofText
  split
  · next hnil => rw [hnil, List.flatMap_nil]
  · simp [chars]

/-- Behind anything but text, text joins the text that is read there. -/
theorem addText_ofText_append {read : List Piece}
    (hread : ∀ p, read.head? = some p → p.isText = false) (t u : List Char) :
    addText (ofText t ++ read) u = ofText (t ++ u) ++ read := by
  unfold addText
  split
  · next hu => rw [hu, List.append_nil]
  · next hu =>
    have htu : t ++ u ≠ [] := fun h ↦ hu (List.append_eq_nil_iff.1 h).2
    rw [ofText, ofText, if_neg htu]
    by_cases ht : t = []
    · rw [if_pos ht, ht]
      split
      · next before heq =>
        have htext := hread _ (congrArg List.head? heq)
        cases htext
      · rfl
    · rw [if_neg ht]
      simp

/-- The piece of a tag is no text. -/
theorem isText_of_piece? {forceRaw : Bool} {t : Token} {p : Piece}
    (h : t.piece? forceRaw = some p) : p.isText = false := by
  unfold Token.piece? at h
  split at h
  case h_4 => split at h <;> cases h <;> rfl
  all_goals cases h
  all_goals rfl

/-- The pieces of tokens in document order, with the text `pending` in front of the first token and
the text `last` behind the last. Text that only remarks part is one piece. -/
def ofTokens (forceRaw : Bool) (pending : List Char) : List Token → List Char → List Piece
  | [], last => ofText (pending ++ last)
  | t :: ts, last =>
    match t.piece? forceRaw with
    | some p => ofText (pending ++ t.text) ++ p :: ofTokens forceRaw [] ts last
    | none => ofTokens forceRaw (pending ++ t.text) ts last

/-- Taking tokens one by one leaves their pieces in document order. -/
theorem addText_foldl_take (forceRaw : Bool) {read : List Piece}
    (hread : ∀ p, read.head? = some p → p.isText = false) (pending : List Char) (ts : List Token)
    (last : List Char) :
    (addText (ts.foldl (take forceRaw) (ofText pending ++ read)) last).reverse =
      read.reverse ++ ofTokens forceRaw pending ts last := by
  have hreverse (t : List Char) : (ofText t).reverse = ofText t := by
    unfold ofText
    split <;> rfl
  induction ts generalizing read pending with
  | nil =>
    rw [List.foldl_nil, addText_ofText_append hread, List.reverse_append, hreverse, ofTokens]
  | cons t ts ih =>
    rw [List.foldl_cons, take, addText_ofText_append hread, ofTokens]
    cases hpiece : t.piece? forceRaw with
    | none => exact ih hread _
    | some p =>
      have hp : ∀ q, (p :: (ofText (pending ++ t.text) ++ read)).head? = some q →
          q.isText = false := by
        rintro q ⟨⟩
        exact isText_of_piece? hpiece
      have hrest := ih hp []
      rw [ofText_nil, List.nil_append] at hrest
      rw [Option.toList_some, List.singleton_append, hrest, List.reverse_cons, List.reverse_append,
        hreverse]
      simp

/-- Tokens bring their texts and nothing else. -/
theorem flatMap_chars_ofTokens (forceRaw : Bool) (pending : List Char) (ts : List Token)
    (last : List Char) :
    (ofTokens forceRaw pending ts last).flatMap chars =
      pending ++ ts.flatMap Token.text ++ last := by
  induction ts generalizing pending with
  | nil => rw [ofTokens, flatMap_chars_ofText, List.flatMap_nil, List.append_nil]
  | cons t ts ih =>
    rw [ofTokens]
    cases hpiece : t.piece? forceRaw with
    | none => simp [ih]
    | some p =>
      have hp : p.chars = [] := by
        cases p with
        | text u =>
          have htext := isText_of_piece? hpiece
          cases htext
        | _ => rfl
      simp [ih, hp, flatMap_chars_ofText]

end Piece

/-! ### Pieces of drafts -/

/-- The pieces of an open section and of what is in front of it on its level, the latest first. -/
def OpenSection.pieces (s : OpenSection) : List Piece :=
  .enter s.name s.inverted s.line :: (Element.piecesOf s.before.reverse).reverse

namespace Draft

/-- The pieces of a draft, the latest first. -/
def pieces (d : Draft) : List Piece :=
  (Element.piecesOf d.elements.reverse).reverse ++ d.sections.flatMap OpenSection.pieces

/-- Text is added to the last piece, or is a new one. -/
theorem pieces_addText (d : Draft) (t : List Char) :
    (d.addText t).pieces = Piece.addText d.pieces t := by
  unfold addText Piece.addText
  split
  · rfl
  · obtain ⟨es, sections⟩ := d
    cases es with
    | nil =>
      -- the piece in front is that of an open section
      cases sections <;> simp [pieces, Element.piecesOf, Element.pieces, OpenSection.pieces]
    | cons e es =>
      cases e <;>
        simp [pieces, Element.piecesOf_append, Element.piecesOf, Element.pieces]

/-- An element adds its pieces, in reverse as all that has been read. -/
theorem pieces_addElement (d : Draft) (e : Element) :
    (d.addElement e).pieces = e.pieces.reverse ++ d.pieces := by
  simp [pieces, addElement, Element.piecesOf_append, Element.piecesOf]

theorem pieces_enter (d : Draft) (name : String) (inverted : Bool) (line : Nat) :
    (d.enter name inverted line).pieces = .enter name inverted line :: d.pieces := rfl

/-- Leaving a section adds its close, and takes its children along in their order. -/
theorem pieces_leave {d d' : Draft} {name : String} {line : Nat} (h : d.leave name line = .ok d') :
    d'.pieces = .leave name :: d.pieces := by
  obtain ⟨es, sections⟩ := d
  unfold leave at h
  split at h
  · cases h
  · next s rest hsections =>
    split at h
    · next hname =>
      cases h
      obtain rfl : sections = s :: rest := hsections
      simp [pieces, OpenSection.pieces, Element.piecesOf_append, Element.piecesOf,
        Element.pieces, hname]
    · cases h

/-- **A token puts its text and its piece at the end**, whichever level it works on. -/
theorem pieces_take {forceRaw : Bool} {d d' : Draft} {t : Token}
    (h : d.take forceRaw t = .ok d') : d'.pieces = Piece.take forceRaw d.pieces t := by
  rw [Piece.take, ← pieces_addText]
  unfold take at h
  cases hd : t.directive with
  | enter name inverted =>
    simp only [hd] at h
    cases h
    simp [Token.piece?, hd, pieces_enter]
  | leave name =>
    simp only [hd] at h
    simp [Token.piece?, hd, pieces_leave h]
  | inclusion name =>
    cases hend : t.lineEnd? <;>
    · simp only [hd, Element.ofToken?, hend] at h
      cases h
      simp [Token.piece?, hd, hend, pieces_addElement, Element.pieces]
  | interpolation name raw =>
    simp only [hd, Element.ofToken?] at h
    cases h
    simp [Token.piece?, hd, pieces_addElement, Element.pieces]
  | comment | delimiters =>
    simp only [hd, Element.ofToken?] at h
    cases h
    simp [Token.piece?, hd]

/-- So it is for the tokens of a whole text. -/
theorem pieces_foldlM_take {forceRaw : Bool} {d d' : Draft} {ts : List Token}
    (h : ts.foldlM (take forceRaw) d = .ok d') :
    d'.pieces = ts.foldl (Piece.take forceRaw) d.pieces := by
  induction ts generalizing d with
  | nil =>
    cases h
    rfl
  | cons t ts ih =>
    rw [List.foldlM_cons] at h
    obtain ⟨d₁, hstep, hrest⟩ := bind_eq_ok_iff.1 h
    rw [List.foldl_cons, ← pieces_take hstep]
    exact ih hrest

end Draft

/-! ### Pieces of trees -/

/-- **The pieces of a tree are those of its tokens**, the text behind the last tag included. -/
theorem pieces_of_ofTokens {forceRaw : Bool} {ts : Tokens} {tree : Tree}
    (h : Tree.ofTokens forceRaw ts = .ok tree) :
    ∃ last, ts.ending = .finished last tree.delimiters ∧
      Element.piecesOf tree.elements = Piece.ofTokens forceRaw [] ts.list last := by
  unfold Tree.ofTokens at h
  split at h
  · cases h
  · next d hfold =>
    have hpieces := Draft.pieces_foldlM_take hfold
    unfold Draft.finish at h
    split at h
    · cases h
    · next last delimiters hending =>
      split at h
      · next hsections =>
        cases h
        refine ⟨last, hending, ?_⟩
        have hnone : (d.addText last).sections = [] :=
          (d.sections_addText last).trans hsections
        have htree : (d.addText last).pieces =
            (Element.piecesOf (d.addText last).elements.reverse).reverse := by
          simp [Draft.pieces, hnone]
        have hnil : ∀ p, ([] : List Piece).head? = some p → p.isText = false := by simp
        have htaken := Piece.addText_foldl_take forceRaw hnil [] ts.list last
        rw [Draft.pieces_addText, hpieces] at htree
        rw [← List.reverse_reverse (Element.piecesOf _), ← htree]
        exact htaken
      · cases h

/-- The texts of a tree are those of its tokens and the text behind the last tag. -/
theorem flatMap_chars_of_ofTokens {forceRaw : Bool} {ts : Tokens} {tree : Tree}
    (h : Tree.ofTokens forceRaw ts = .ok tree) :
    ∃ last, ts.ending = .finished last tree.delimiters ∧
      (Element.piecesOf tree.elements).flatMap Piece.chars =
        ts.list.flatMap Token.text ++ last := by
  obtain ⟨last, hending, hpieces⟩ := pieces_of_ofTokens h
  exact ⟨last, hending, by rw [hpieces, Piece.flatMap_chars_ofTokens, List.nil_append]⟩

end Mustache
