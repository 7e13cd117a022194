import Mustache.Proofs.Recast
import Mustache.Proofs.Seam
import Mustache.Proofs.SideBySide
import Mustache.Proofs.SourceRoundTrip

/-!
# Printing and reading canonical elements

Elements that are as plain as can be are printed and read back without any loss, wherever their
section stands (`canonical_source_read_back`). So a lambda gets to see exactly what its section was
written as.

Two things can go wrong with a printed source, a tag that does not end where it was made to end and
a tag that takes blanks and a line break with it (`Piece.Fits`). Canonical elements rule out both on
sight:

* **no name has a closing brace**, so the first closing delimiter is the one that was printed, and
  none but a raw interpolation could start with an opening brace;
* **no text has a line break**, so nothing can be taken along. Behind the open tag of the section
  the line is never blank again (`Text.not_blankSinceBreak_append`), and in front of the next tag
  there is no line break that the open tag could take (`Text.not_blankUntilBreak`). Line breaks
  within names do not matter.
-/

namespace Mustache

/-! ### Occupied lines -/

namespace Text

/-- A line that is not blank stays so as long as it goes on. -/
theorem not_blankSinceBreak_append {front t : List Char} (h : ¬ BlankSinceBreak front)
    (ht : '\n' ∉ t) : ¬ BlankSinceBreak (front ++ t) := by
  rintro ⟨lines, blanks, heq, hlines, hblanks⟩
  rcases List.append_eq_append_iff.1 heq with ⟨more, rfl, rfl⟩ | ⟨more, rfl, rfl⟩
  · -- a line break in the text that is added would be in `t`
    rcases List.eq_nil_or_concat more with rfl | ⟨init, x, rfl⟩
    · rw [List.append_nil] at hlines
      exact h ⟨front, [], (List.append_nil front).symm, hlines,
        fun c hc ↦ absurd hc List.not_mem_nil⟩
    · rcases hlines with hnil | hlast
      · simp at hnil
      · rw [List.concat_eq_append, ← List.append_assoc, List.getLast?_concat] at hlast
        refine ht ?_
        simp [Option.some.inj hlast]
  · exact h ⟨lines, more, rfl, hlines, fun c hc ↦ hblanks c (List.mem_append_left _ hc)⟩

/-- The line that a printed tag ends on is not blank. -/
theorem not_blankSinceBreak_printedTag (front body : List Char) :
    ¬ BlankSinceBreak (front ++ printedTag body) := by
  have hlast : (front ++ printedTag body).getLast? = some '\x7d' := by
    rw [printedTag, ← List.append_assoc, ← List.append_assoc, List.getLast?_append]
    rfl
  have hself : dropRightWhile isInline (front ++ printedTag body) = front ++ printedTag body := by
    refine dropRightWhile_eq_self fun c hc ↦ ?_
    rw [hlast] at hc
    exact Option.some.inj hc ▸ rfl
  rw [blankSinceBreak_iff, hself]
  rintro (hnil | hfeed)
  · rw [hnil] at hlast
    exact nomatch hlast
  · rw [hlast] at hfeed
    exact nomatch hfeed

/-- A line on which a brace follows is not blank. -/
theorem not_blankUntilBreak {t : List Char} (ht : '\n' ∉ t) (u : List Char) :
    ¬ BlankUntilBreak (t ++ '\x7b' :: u) := by
  rw [← isSome_lineEnd?_iff, Option.not_isSome_iff_eq_none]
  induction t with
  | nil => exact lineEnd?_eq_none rfl (by decide) fun h ↦ nomatch h
  | cons c t ih =>
    obtain ⟨hc, ht⟩ := List.ne_and_not_mem_of_not_mem_cons ht
    rw [List.cons_append]
    cases hinline : isInline c with
    | true => rw [lineEnd?_cons_of_isInline hinline, ih ht, Option.map_none]
    | false =>
      refine lineEnd?_eq_none hinline hc.symm fun _ ↦ ?_
      rcases t with - | ⟨d, t⟩
      · exact fun h ↦ nomatch h
      · exact fun h ↦ (List.ne_and_not_mem_of_not_mem_cons ht).1 (Option.some.inj h).symm

end Text

/-! ### Canonical elements -/

/-- Whether a name can be put between delimiters as it is. -/
def Text.PlainName (name : String) : Prop :=
  Text.trim name.toList = name.toList ∧ '\x7d' ∉ name.toList

/-- What a tag starts with that is no escaped interpolation. -/
def Directive.sigils : List Char :=
  ['!', '#', '^', '/', '>', '=', '&', '\x7b']

/-- Whether a piece is as plain as it can be: a text within a line, or a tag with a plain name and
nothing else to it. -/
def Piece.Canonical : Piece → Prop
  | .text t => t ≠ "" ∧ '\x7b' ∉ t.toList ∧ '\n' ∉ t.toList
  | .interpolation name raw =>
    Text.PlainName name ∧
      (raw = false → name ≠ "" ∧ ∀ x ∈ name.toList.head?, x ∉ Directive.sigils)
  | .enter name _ _ | .leave name => Text.PlainName name
  | .inclusion name indent lineEnd? => Text.PlainName name ∧ indent = "" ∧ lineEnd? = none

/-- Whether elements are canonical, at every level: all their pieces are, and no two texts stand
next to each other. In document order the tag of a section is between two texts of two levels. -/
structure Element.Canonical (es : List Element) : Prop where
  piece : ∀ p ∈ piecesOf es, p.Canonical
  apart : (piecesOf es).IsChain Piece.Apart

instance (name : String) : Decidable (Text.PlainName name) :=
  inferInstanceAs (Decidable (_ ∧ _))

instance : (p : Piece) → Decidable p.Canonical
  | .text t => inferInstanceAs (Decidable (t ≠ "" ∧ '\x7b' ∉ t.toList ∧ '\n' ∉ t.toList))
  | .interpolation name raw =>
    -- The one character at the front is looked at, not every character there is.
    have : Decidable (∀ x ∈ name.toList.head?, x ∉ Directive.sigils) :=
      Option.decidableForallMem _
    inferInstanceAs (Decidable (Text.PlainName name ∧
      (raw = false → name ≠ "" ∧ ∀ x ∈ name.toList.head?, x ∉ Directive.sigils)))
  | .enter name _ _ | .leave name => inferInstanceAs (Decidable (Text.PlainName name))
  | .inclusion name indent lineEnd? =>
    inferInstanceAs (Decidable (Text.PlainName name ∧ indent = "" ∧ lineEnd? = none))

instance (p q : Piece) : Decidable (Piece.Apart p q) :=
  inferInstanceAs (Decidable (¬ (_ ∧ _)))

/-! ### Canonical pieces -/

/-- Whether a tag with this between its delimiters is read as it was printed, and asks for this. -/
structure PlainBody (body : List Char) (asks? : Option Directive) : Prop where
  ne_nil : body ≠ []
  trim : Text.trim body = body
  not_mem : '\x7d' ∉ body
  head?_ne : body.head? ≠ some '\x7b'
  ofBody? : Directive.ofBody? body = asks?

/-- A plain name behind a sigil. -/
theorem Text.PlainName.behindSigil {name : String} (h : PlainName name) {sigil : Char}
    (hsigil : sigil ∈ ['#', '^', '/', '>', '&']) (ask : String → Directive)
    (hread : Directive.ofBody? (sigil :: name.toList) =
      some (ask (Directive.nameBehindSigil (sigil :: name.toList)))) :
    PlainBody (sigil :: name.toList) (some (ask name)) := by
  have hsigils : ∀ x ∈ ['#', '^', '/', '>', '&'],
      Text.isBlank x = false ∧ '\x7d' ≠ x ∧ x ≠ '\x7b' := by
    simp [Text.isBlank]
  obtain ⟨hblank, hclosing, hopening⟩ := hsigils sigil hsigil
  refine ⟨List.cons_ne_nil _ _, Text.trim_cons hblank h.1,
    List.not_mem_cons_of_ne_of_not_mem hclosing h.2,
    fun hhead ↦ hopening (Option.some.inj hhead), ?_⟩
  rw [hread, Directive.nameBehindSigil, List.tail_cons, h.1, String.ofList_toList]

/-- A plain name that starts like no other tag. -/
theorem Text.PlainName.escaped {name : String} (h : PlainName name) (hne : name ≠ "")
    (hfirst : ∀ x ∈ name.toList.head?, x ∉ Directive.sigils) :
    PlainBody name.toList (some (.interpolation name false)) := by
  obtain ⟨x, rest, hname⟩ := List.exists_cons_of_ne_nil (mt String.toList_eq_nil_iff.1 hne)
  have hx : x ∉ Directive.sigils := hfirst x (by rw [hname]; rfl)
  refine ⟨hname ▸ List.cons_ne_nil x rest, h.1, h.2, ?_, ?_⟩
  · rw [hname]
    rintro ⟨⟩
    exact hx (by decide)
  · rw [Directive.ofBody?]
    split
    case h_9 => rw [String.ofList_toList]
    all_goals
      next hhead =>
      rw [hname] at hhead
      obtain rfl := Option.some.inj hhead
      exact absurd (by decide) hx

namespace Piece.Canonical

variable {p : Piece}

/-- What stands between the delimiters of a canonical tag. -/
theorem plainBody (h : p.Canonical) (hp : p.isText = false) : PlainBody p.body p.directive? := by
  rcases p with t | ⟨name, _ | _⟩ | ⟨name, _ | _, line⟩ | name | ⟨name, indent, lineEnd?⟩
  case text => cases hp
  case interpolation.false =>
    obtain ⟨hne, hfirst⟩ := h.2 rfl
    exact h.1.escaped hne hfirst
  case interpolation.true => exact h.1.behindSigil (by decide) (.interpolation · true) rfl
  case enter.false => exact h.behindSigil (by decide) (.enter · false) rfl
  case enter.true => exact h.behindSigil (by decide) (.enter · true) rfl
  case leave => exact h.behindSigil (by decide) .leave rfl
  case inclusion => exact h.1.behindSigil (by decide) .inclusion rfl

theorem wellRead (h : p.Canonical) : p.WellRead where
  text heq := by
    subst heq
    exact ⟨h.1, Text.clear_of_not_mem h.2.1⟩
  body_ne_nil hp := (h.plainBody hp).ne_nil
  trim_body := by
    cases hp : p.isText with
    | true => cases p <;> first | rfl | cases hp
    | false => exact (h.plainBody hp).trim
  ofBody?_body hp := (h.plainBody hp).ofBody?
  lined := by
    cases p with
    | inclusion name indent lineEnd? =>
      obtain ⟨-, rfl, rfl⟩ := h
      rfl
    | _ => trivial

theorem legible (h : p.Canonical) (hp : p.isText = false) : p.Legible :=
  ⟨Text.clear_of_not_mem (h.plainBody hp).not_mem, (h.plainBody hp).head?_ne⟩

/-- A canonical tag is printed with nothing around it. -/
theorem printed_eq (h : p.Canonical) (hp : p.isText = false) : p.printed = printedTag p.body := by
  rw [printed_of_isText_eq_false hp]
  rcases p with t | ⟨name, raw⟩ | ⟨name, inverted, line⟩ | name | ⟨name, indent, lineEnd?⟩
  case inclusion =>
    obtain ⟨-, rfl, rfl⟩ := h
    exact List.append_nil _
  all_goals exact List.append_nil _

end Piece.Canonical

/-- **Behind a tag canonical pieces fit**, whatever they are. -/
theorem Piece.allFit_of_canonical {ps : List Piece} (h : ∀ p ∈ ps, p.Canonical) {front : List Char}
    (hfront : ¬ Text.BlankSinceBreak front) : Piece.AllFit front ps := by
  induction ps generalizing front with
  | nil => trivial
  | cons p ps ih =>
    obtain ⟨hp, hps⟩ := List.forall_mem_cons.1 h
    have hnot {behind : List Char} : ¬ TakesAlong front behind := fun htakes ↦ hfront htakes.1
    constructor
    · rcases p with t | ⟨name, raw⟩ | ⟨name, inverted, line⟩ | name | ⟨name, indent, lineEnd?⟩
      case text => trivial
      case interpolation => exact hp.legible rfl
      case inclusion =>
        obtain ⟨-, -, rfl⟩ := id hp
        exact ⟨hp.legible rfl, hnot⟩
      all_goals exact ⟨hp.legible rfl, hnot⟩
    · refine ih hps ?_
      cases htext : p.isText with
      | true =>
        obtain ⟨t, rfl⟩ : ∃ t, p = .text t := by cases p <;> cases htext; exact ⟨_, rfl⟩
        exact Text.not_blankSinceBreak_append hfront hp.2.2
      | false =>
        rw [hp.printed_eq htext]
        exact Text.not_blankSinceBreak_printedTag front p.body

/-- The first line behind the open tag of a section holds a tag. -/
theorem Piece.exists_printed_eq {ps : List Piece} (h : ∀ p ∈ ps, p.Canonical)
    (hapart : ps.IsChain Apart) (hlast : ∃ name, ps.getLast? = some (.leave name)) :
    ∃ t u, '\n' ∉ t ∧ ps.flatMap printed = t ++ '\x7b' :: u := by
  have htag {p : Piece} (hp : p.Canonical) (htext : p.isText = false) (qs : List Piece) :
      ∃ u, (p :: qs).flatMap printed = '\x7b' :: u := by
    rw [List.flatMap_cons, hp.printed_eq htext]
    exact ⟨_, rfl⟩
  obtain ⟨name, hlast⟩ := hlast
  match ps with
  | [] => cases hlast
  | p :: ps =>
    obtain ⟨hp, hps⟩ := List.forall_mem_cons.1 h
    cases htext : p.isText with
    | false =>
      obtain ⟨u, hu⟩ := htag hp htext ps
      exact ⟨[], u, List.not_mem_nil, hu⟩
    | true =>
      obtain ⟨t, rfl⟩ : ∃ t, p = .text t := by cases p <;> cases htext; exact ⟨_, rfl⟩
      match ps with
      | [] => cases hlast
      | q :: qs =>
        have hq : q.isText = false := by
          refine Bool.eq_false_iff.2 fun hq ↦ ?_
          exact (List.isChain_cons_cons.1 hapart).1 ⟨rfl, hq⟩
        obtain ⟨u, hu⟩ := htag (hps q List.mem_cons_self) hq qs
        exact ⟨t.toList, u, hp.2.2, by rw [List.flatMap_cons, hu]; rfl⟩

/-! ### Trees but for their lines -/

/-- Leaves everything but the lines of open tags and of defects. -/
def Recast.withoutLines : Recast where
  keepsTexts := true
  line _ := 0
  indent indent _ := indent

namespace Recast

mutual

/-- Where all line ends of partials are real ones, lines are all that a rendering cannot tell. -/
theorem element_withoutLines (e : Element) (h : ∀ p ∈ e.pieces, p.Lined) :
    withoutLines.element e = some e.core := by
  match e with
  | .text t | .interpolation name raw => rfl
  | .inclusion name indent lineEnd? =>
    have hlined := h _ List.mem_cons_self
    have hcore : lineEndCore indent lineEnd? = lineEnd? := by
      rw [lineEndCore]
      split
      · next hidle =>
        obtain ⟨rfl, rfl⟩ := hidle
        exact absurd rfl hlined.2.ne_nil
      · rfl
    rw [element, Element.core, hcore]
    rfl
  | .block name inverted line children =>
    rw [element, Element.core, elements_withoutLines children fun p hp ↦ h p ?_]
    · rfl
    · exact List.mem_cons_of_mem _ (List.mem_append_left _ hp)
termination_by structural e

theorem elements_withoutLines (es : List Element) (h : ∀ p ∈ Element.piecesOf es, p.Lined) :
    withoutLines.elements es = Element.coresOf es := by
  match es with
  | [] => rfl
  | e :: es =>
    rw [elements, Element.coresOf,
      element_withoutLines e fun p hp ↦ h p (List.mem_append_left _ hp),
      elements_withoutLines es fun p hp ↦ h p (List.mem_append_right _ hp)]
    rfl
termination_by structural es

end

end Recast

/-! ### The round trip -/

namespace Element

variable {es : List Element} {name : String}

/-- A section over canonical elements is canonical itself. -/
theorem Canonical.block (h : Canonical es) (hname : Text.PlainName name) (inverted : Bool)
    (line : Nat) : Canonical [.block name inverted line es] := by
  have hlast : (piecesOf es ++ [Piece.leave name]).IsChain Piece.Apart := by
    refine List.isChain_append.2 ⟨h.apart, .singleton _, fun p _ q hq ↦ ?_⟩
    obtain rfl := Option.some.inj hq
    exact fun htexts ↦ nomatch htexts.2
  constructor
  · intro p hp
    rw [piecesOf, piecesOf, pieces, List.append_nil] at hp
    rcases List.mem_cons.1 hp with rfl | hp
    · exact hname
    · rcases List.mem_append.1 hp with hp | hp
      · exact h.piece p hp
      · exact List.mem_singleton.1 hp ▸ hname
  · rw [piecesOf, piecesOf, pieces, List.append_nil]
    exact List.isChain_cons.2 ⟨fun q _ htexts ↦ (nomatch htexts.1), hlast⟩

/-- **A canonical section is read as it is printed.** -/
theorem Canonical.faithful {inverted : Bool} {line : Nat}
    (h : Canonical [.block name inverted line es]) : Faithful [.block name inverted line es] := by
  have hpieces : piecesOf [.block name inverted line es] =
      .enter name inverted line :: (piecesOf es ++ [.leave name]) := by
    rw [piecesOf, piecesOf, pieces, List.append_nil]
  have hcanonical := h.piece
  have hapart := h.apart
  rw [hpieces] at hcanonical hapart
  obtain ⟨htag, hinside⟩ := List.forall_mem_cons.1 hcanonical
  obtain ⟨t, u, ht, hu⟩ := Piece.exists_printed_eq hinside hapart.tail ⟨name, List.getLast?_concat⟩
  rw [Faithful, hpieces]
  refine ⟨⟨htag.legible rfl, fun htakes ↦ ?_⟩, Piece.allFit_of_canonical hinside ?_⟩
  · have hblank := htakes.2.1
    rw [hu] at hblank
    exact Text.not_blankUntilBreak ht u hblank
  · rw [htag.printed_eq rfl]
    exact Text.not_blankSinceBreak_printedTag [] _

/-- A faithful source that needs no other delimiters is read to elements that are alike. -/
theorem Faithful.exists_ofText (h : Faithful es) (hw : ∀ p ∈ piecesOf es, p.WellRead)
    (hapart : (piecesOf es).IsChain Piece.Apart) :
    ∃ again, Tree.ofText false (sources es) = .ok ⟨again, .standard⟩ ∧ Alike again es ∧
      ∀ t ∈ (Tokens.ofTemplate (sources es).toList).list, ∀ d, t.directive ≠ .delimiters d := by
  have hnil : Text.Clear Delimiters.standard.opening [] := Text.clear_of_not_mem (by simp)
  obtain ⟨last, hending, hdirectives, hpieces⟩ := Cursor.ofTokens_of_allFit hw rfl
    (Cursor.placed_start (sources es).toList) hnil hapart (sources_toList es) h
  have hnested := nested_piecesOf es .nil
  rw [List.append_nil, ← hdirectives] at hnested
  obtain ⟨⟨again, delimiters⟩, htree⟩ := (Tree.exists_ofTokens_eq_ok_iff false
    (Tokens.ofTemplate (sources es).toList)).2 ⟨⟨_, _, hending⟩, hnested⟩
  obtain ⟨text, hfinished, hread⟩ := pieces_of_ofTokens htree
  obtain ⟨rfl, rfl⟩ := Ending.finished.inj (hfinished.symm.trans hending)
  refine ⟨again, htree, alike_iff.2 (by rw [hread]; exact hpieces), fun t ht d hd ↦ ?_⟩
  -- no piece stands for a delimiter change
  have hmem : t.directive ∈ (piecesOf es).filterMap Piece.directive? :=
    hdirectives ▸ List.mem_map_of_mem ht
  rw [hd] at hmem
  obtain ⟨p, -, hp⟩ := List.mem_filterMap.1 hmem
  cases p <;> cases hp

/-- Elements that are alike a section are one. -/
theorem Alike.exists_eq_block {again : List Element} {inverted : Bool} {line : Nat}
    (h : Alike again [.block name inverted line es]) :
    ∃ line children, again = [.block name inverted line children] ∧ Alike children es := by
  match again with
  | [] => exact nomatch h
  | _ :: _ :: _ => exact nomatch (List.cons.inj h).2
  | [e] =>
    have hcore : e.core = .block name inverted 0 (coresOf es) := (List.cons.inj h).1
    cases e with
    | block _ _ line children =>
      obtain ⟨rfl, rfl, -, hchildren⟩ := block.inj hcore
      exact ⟨line, children, rfl, hchildren⟩
    | _ => exact nomatch hcore

end Element

/-- A section over a lambda calls it with the source of its children. -/
theorem Compiler.renderAt_calling (c : Compiler) (files : FileTree) {contexts : List Value}
    {name : String} {v : Value} {l : Lambda} (hv : (Value.lookup contexts name).found = .ok v)
    (hl : v.unwrapped = .lambda l) (line : Nat) (children : List Element) (depth : Nat) :
    c.renderAt files (depth + 1) [.block name false line children] contexts pure =
      Run.report (Value.lookup contexts name).notices >>= fun _ ↦
        c.callLambda (c.renderAt files depth) contexts name l (Element.sources children) := by
  have hvisit : Value.visit false (some v) = .calling l := by
    simp [Value.visit, Value.isEmpty, hl]
  show c.renderElement files (c.renderAt files depth) (.block name false line children) contexts
    (fun _ ↦ pure ()) = _
  rw [renderElement_block, valueOf, hv]
  simp only [bind_assoc, pure_bind, hvisit, renderVisit, bind_pure_unit]

/-- **Printing and reading are inverse on canonical elements.** The source of a section over them
compiles, in HTML and JSON mode, to that section and nothing else. Only the lines of open tags may
differ. So a lambda that the section's name stands for is called with the source that was
printed. -/
theorem canonical_source_read_back (c : Compiler) (hmode : c.escapeMode ≠ .raw) {es : List Element}
    (hes : Element.Canonical es) {name : String} (hname : Text.PlainName name) :
    ∃ line children,
      c.parse ("\x7b\x7b#" ++ name ++ "\x7d\x7d" ++ Element.sources es ++
        "\x7b\x7b/" ++ name ++ "\x7d\x7d") =
          .ok ⟨[.block name false line children], .standard⟩ ∧
      Recast.withoutLines.elements children = Recast.withoutLines.elements es ∧
      ∀ files contexts v l, (Value.lookup contexts name).found = .ok v → v.unwrapped = .lambda l →
        ∀ depth, c.renderAt files (depth + 1) [.block name false line children] contexts pure =
          Run.report (Value.lookup contexts name).notices >>= fun _ ↦
            c.callLambda (c.renderAt files depth) contexts name l (Element.sources es) := by
  have hraw : (c.escapeMode == .raw) = false := by
    cases hm : c.escapeMode <;> first | rfl | exact absurd hm hmode
  have hblock := hes.block hname false 0
  obtain ⟨again, htree, halike, hsame⟩ :=
    hblock.faithful.exists_ofText (fun p hp ↦ (hblock.piece p hp).wellRead) hblock.apart
  obtain ⟨line, children, rfl, hchildren⟩ := halike.exists_eq_block
  have hsource : Element.sources [.block name false 0 es] =
      "\x7b\x7b#" ++ name ++ "\x7d\x7d" ++ Element.sources es ++ "\x7b\x7b/" ++ name ++
        "\x7d\x7d" := by
    rw [Element.sources_cons, Element.sources_nil, String.append_empty, Element.source_block]
    rfl
  -- the section is followed by its end, so no partial in it is at the end of the text
  have hsection : Element.HasSection children ([] ++ [.block name false line children]) := .here
  obtain ⟨hw, -⟩ := wellRead_of_hasSection htree hsame hsection
  refine ⟨line, children, ?_, ?_, fun files contexts v l hv hl depth ↦ ?_⟩
  · rw [Compiler.parse, hraw, ← hsource]
    exact htree
  · rw [Recast.elements_withoutLines children fun p hp ↦ (hw p hp).lined,
      Recast.elements_withoutLines es fun p hp ↦ (hes.piece p hp).wellRead.lined]
    exact hchildren
  · have hsources : Element.sources children = Element.sources es := by
      rw [← Element.sources_coresOf children, ← Element.sources_coresOf es]
      exact congrArg Element.sources hchildren
    rw [c.renderAt_calling files hv hl, hsources]

/-- A section within the section, with a name that starts like a tag and braces in a text. -/
theorem canonical_source_read_back_of_nested :
    let es : List Element :=
      [.text " a\r", .block "s" true 3 [.text "b\x7d\x7d", .inclusion "p" "" none],
        .interpolation "\x7bx\ny" true, .interpolation "z" false]
    let contexts : List Value := [.map [("l", .lambda ⟨0, .answer⟩)]]
    Element.Canonical es ∧ Text.PlainName "l" ∧
      ∃ line children,
        Compiler.standard.parse ("\x7b\x7b#" ++ "l" ++ "\x7d\x7d" ++ Element.sources es ++
          "\x7b\x7b/" ++ "l" ++ "\x7d\x7d") =
            .ok ⟨[.block "l" false line children], .standard⟩ ∧
        Recast.withoutLines.elements children = Recast.withoutLines.elements es ∧
        (Compiler.standard.renderAt .empty 1 [.block "l" false line children] contexts pure).text =
          " a\r\x7b\x7b^s\x7d\x7db\x7d\x7d\x7b\x7b>p\x7d\x7d\x7b\x7b/s\x7d\x7d" ++
            "\x7b\x7b&\x7bx\ny\x7d\x7d\x7b\x7bz\x7d\x7d" := by
  intro es contexts
  have hes : Element.Canonical es := ⟨by decide, by decide⟩
  have hname : Text.PlainName "l" := by decide
  have hfound : (Value.lookup contexts "l").found = .ok (.lambda ⟨0, .answer⟩) := rfl
  obtain ⟨line, children, hparse, hlines, hcall⟩ :=
    canonical_source_read_back .standard (by decide) hes hname
  refine ⟨hes, hname, line, children, hparse, hlines, ?_⟩
  rw [hcall .empty contexts _ _ hfound rfl 0]
  rfl

end Mustache
