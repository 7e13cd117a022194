import Mathlib.Data.List.Chain
import Mustache.Proofs.PrintedTag

/-!
# Reading a printed source

When a source that has been put together from pieces is taken apart into the same pieces again.

A piece may come back as another, or not at all, for two reasons only:

* **its tag does not end where it was made to end** (`Piece.Legible`): what stands between the
  delimiters starts with a brace, or the closing delimiter is in it or overlaps with it;
* **its line is not what it was** (`Piece.Fits`): a tag that shared its line with a remark, or with
  the tag of the section itself, is on a line of its own now and takes blanks and a line break with
  it, or a partial that was on a line of its own no longer is.

Both are said of a piece and of the printed text on either side. `AllFit` says them of all pieces,
and it is exact: where all pieces fit the same pieces are read (`Cursor.ofTokens_of_allFit`), and
where the same pieces are read all of them fit (`Cursor.allFit_of_ofTokens`). Both are inductions
over the pieces along the positions of the reader, and each is one step of the reader seen from one
side. What the pieces of a source are like to begin with (`Piece.WellRead`) is what reading a
template makes sure of.
-/

namespace Mustache

/-! ### Tags on lines of their own -/

/-- Whether a tag between these texts would take some of them with it, if its kind may stand
alone. -/
def TakesAlong (front behind : List Char) : Prop :=
  Text.BlankSinceBreak front ∧ Text.BlankUntilBreak behind ∧
    ¬ (Text.EndsAtLineStart front ∧ behind = [])

instance (front behind : List Char) : Decidable (TakesAlong front behind) :=
  inferInstanceAs (Decidable (_ ∧ _ ∧ ¬ (_ ∧ _)))

namespace Piece

/-- Whether a piece is read back as it is printed, with these texts printed on either side. -/
def Fits (front behind : List Char) : Piece → Prop
  | .text _ => True
  | .interpolation name raw => (interpolation name raw).Legible
  | .enter name inverted line => (enter name inverted line).Legible ∧ ¬ TakesAlong front behind
  | .leave name => (leave name).Legible ∧ ¬ TakesAlong front behind
  | .inclusion name indent none =>
    (inclusion name indent none).Legible ∧ ¬ TakesAlong front behind
  | .inclusion name indent (some ending) =>
    (inclusion name indent (some ending)).Legible ∧ Text.EndsAtLineStart front

instance (front behind : List Char) : (p : Piece) → Decidable (p.Fits front behind)
  | .text _ => inferInstanceAs (Decidable True)
  | .interpolation _ _ => inferInstanceAs (Decidable (Legible _))
  | .enter _ _ _ | .leave _ | .inclusion _ _ none =>
    inferInstanceAs (Decidable (Legible _ ∧ ¬ TakesAlong _ _))
  | .inclusion _ _ (some _) => inferInstanceAs (Decidable (Legible _ ∧ Text.EndsAtLineStart _))

/-- Whether two pieces are not texts both, which would be one text. -/
def Apart (p q : Piece) : Prop :=
  ¬ (p.isText = true ∧ q.isText = true)

/-- Whether all pieces are read back as they are printed, one after the other behind this text. -/
def AllFit (front : List Char) : List Piece → Prop
  | [] => True
  | p :: ps => p.Fits front (ps.flatMap printed) ∧ AllFit (front ++ p.printed) ps

instance decidableAllFit (front : List Char) : (ps : List Piece) → Decidable (AllFit front ps)
  | [] => inferInstanceAs (Decidable True)
  | p :: ps =>
    @instDecidableAnd (p.Fits front (ps.flatMap printed)) _ inferInstance
      (decidableAllFit (front ++ p.printed) ps)

/-- No text is left to read in front of a text, which is all there is in front of the next tag. -/
theorem ofText_append_of_apart {lead : List Char} {u : String} {ps : List Piece} (hu : u ≠ "")
    (h : (ofText lead ++ .text u :: ps).IsChain Apart) :
    lead = [] ∧ ofText u.toList ++ ps = .text u :: ps := by
  constructor
  · refine Classical.by_contradiction fun hlead ↦ ?_
    rw [ofText, if_neg hlead] at h
    exact (List.isChain_cons_cons.1 h).1 ⟨rfl, rfl⟩
  · rw [ofText, if_neg fun hnil ↦ hu (String.toList_eq_nil_iff.1 hnil), String.ofList_toList]
    rfl

theorem map_core_ofText (t : List Char) : (ofText t).map core = ofText t := by
  unfold ofText
  split <;> rfl

theorem isText_core (p : Piece) : p.core.isText = p.isText := by
  cases p <;> rfl

theorem ofText_injective {t u : List Char} (h : ofText t = ofText u) : t = u := by
  rw [← flatMap_chars_ofText t, h, flatMap_chars_ofText]

/-- The text in front of a tag and the tag are told apart. -/
theorem ofText_append_cons_inj {t u : List Char} {p q : Piece} {ps qs : List Piece}
    (hp : p.isText = false) (hq : q.isText = false)
    (h : ofText t ++ p :: ps = ofText u ++ q :: qs) : t = u ∧ p = q ∧ ps = qs := by
  by_cases ht : t = [] <;> by_cases hu : u = []
  · rw [ht, hu, ofText_nil, List.nil_append, List.nil_append] at h
    obtain ⟨rfl, rfl⟩ := List.cons.inj h
    exact ⟨ht.trans hu.symm, rfl, rfl⟩
  · rw [ht, ofText_nil, ofText, if_neg hu] at h
    obtain ⟨rfl, -⟩ := List.cons.inj h
    cases hp
  · rw [hu, ofText_nil, ofText, if_neg ht] at h
    obtain ⟨rfl, -⟩ := List.cons.inj h
    cases hq
  · rw [ofText, ofText, if_neg ht, if_neg hu] at h
    obtain ⟨htext, htail⟩ := List.cons.inj h
    obtain ⟨rfl, rfl⟩ := List.cons.inj htail
    exact ⟨String.ofList_injective (Piece.text.inj htext), rfl, rfl⟩

theorem Fits.legible {front behind : List Char} {p : Piece} (h : p.Fits front behind)
    (hp : p.isText = false) : p.Legible := by
  rcases p with u | ⟨name, raw⟩ | ⟨name, inverted, line⟩ | name | ⟨name, indent, _ | ending⟩
  · cases hp
  · exact h
  all_goals exact h.1

end Piece

namespace Cursor

/-! ### A step through a printed source -/

/-- The text in front of a printed tag ends where it was made to end. -/
theorem cut?_printedTag {lead : List Char} (h : Text.Clear Delimiters.standard.opening lead)
    (body rest : List Char) :
    Text.cut? Delimiters.standard.opening (lead ++ (printedTag body ++ rest)) =
      some (lead, body ++ (Delimiters.standard.closing ++ rest)) := by
  have htext : lead ++ (printedTag body ++ rest) =
      lead ++ (Delimiters.standard.opening ++ (body ++ (Delimiters.standard.closing ++ rest))) := by
    simp only [printedTag, List.append_assoc]
  rw [htext]
  exact Text.cut?_append_of_clear Delimiters.standard.opening_usable.1 h _

/-- A step that has found a directive reads a token. -/
theorem exists_step_eq_token {c : Cursor} {text inside raw behind : List Char} {d : Directive}
    (hcut : Text.cut? c.delimiters.opening c.rest = some (text, inside))
    (hbody : body? c.delimiters inside = some (raw, behind)) (hraw : Text.trim raw ≠ [])
    (hd : Directive.ofBody? (Text.trim raw) = some d) : ∃ t next, c.step = .token t next := by
  simp only [step, hcut, hbody, if_neg hraw, hd, tagStep]
  split <;> exact ⟨_, _, rfl⟩

/-- A text that is read to its end has a token wherever an opening delimiter is left. -/
theorem exists_step_of_finished {c : Cursor} {text inside last : List Char} {d : Delimiters}
    (hcut : Text.cut? c.delimiters.opening c.rest = some (text, inside))
    (hending : c.tokens.ending = .finished last d) : ∃ t next, c.step = .token t next := by
  cases hstep : c.step with
  | token t next => exact ⟨t, next, rfl⟩
  | stop e =>
    rw [tokens_of_stop hstep] at hending
    obtain rfl : e = .finished last d := hending
    rw [(cut?_of_step_finished hstep).1] at hcut
    cases hcut

namespace Passage

variable {c next : Cursor} {t : Token} {front lead inside raw behind rest : List Char}

theorem lead_eq (P : Passage c t next inside raw behind) {text after : List Char}
    (hcut : Text.cut? c.delimiters.opening c.rest = some (text, after)) :
    t.before ++ t.padding = text ∧ inside = after := by
  have heq := P.cut_opening.symm.trans hcut
  exact Prod.mk.inj (Option.some.inj heq)

/-- A tag that takes no line end leaves everything around it. -/
theorem of_lineEnd?_eq_none (P : Passage c t next inside raw behind) (h : t.lineEnd? = none) :
    t.text = t.before ++ t.padding ∧ next.rest = behind := by
  have hbehind := P.behind_eq
  rw [h] at hbehind
  refine ⟨?_, hbehind.symm⟩
  rw [Token.text, h]
  rfl

/-- The text in front of the padding of a tag that stands alone ends where a line starts. -/
theorem endsAtLineStart (P : Passage c t next inside raw behind) (hplaced : Placed front c)
    (h : t.lineEnd?.isSome = true) : Text.EndsAtLineStart (front ++ t.before) := by
  have hpadding := P.takeRightWhile_eq_padding hplaced h
  have hblank := Text.blankSinceBreak_iff.1 ((P.isSome_lineEnd?_iff hplaced).1 h).2.1
  have hsplit := Text.dropRightWhile_append_takeRightWhile Text.isInline
    (front ++ (t.before ++ t.padding))
  rw [hpadding, ← List.append_assoc] at hsplit
  rwa [← List.append_assoc, List.append_cancel_right hsplit] at hblank

/-- A tag with nothing to take along leaves everything around it, if it stands alone or not. -/
theorem of_not_takesAlong (P : Passage c t next inside raw behind) (hplaced : Placed front c)
    (h : ¬ TakesAlong (front ++ (t.before ++ t.padding)) behind) :
    t.text = t.before ++ t.padding ∧ next.rest = behind ∧
      (t.lineEnd? = none ∨ t.lineEnd? = some [] ∧ t.padding = []) := by
  cases hend : t.lineEnd? with
  | none =>
    obtain ⟨htext, hrest⟩ := P.of_lineEnd?_eq_none hend
    exact ⟨htext, hrest, .inl rfl⟩
  | some ending =>
    have hsome : t.lineEnd?.isSome = true := by rw [hend]; rfl
    obtain ⟨-, hsince, huntil⟩ := (P.isSome_lineEnd?_iff hplaced).1 hsome
    obtain ⟨hstart, rfl⟩ : Text.EndsAtLineStart (front ++ (t.before ++ t.padding)) ∧ behind = [] :=
      Classical.not_not.1 fun hnot ↦ h ⟨hsince, huntil, hnot⟩
    have hpadding : t.padding = [] := by
      rw [← P.takeRightWhile_eq_padding hplaced hsome]
      exact Text.takeRightWhile_eq_nil fun x ↦ hstart.not_isInline_of_getLast?
    have hbehind := P.behind_eq
    rw [hend, Option.getD_some] at hbehind
    obtain ⟨rfl, hrest⟩ := List.append_eq_nil_iff.1 hbehind.symm
    refine ⟨?_, hrest, .inr ⟨rfl, hpadding⟩⟩
    rw [Token.text, hend, hpadding, List.append_nil]
    rfl

end Passage

/-! ### A piece that fits -/

variable {c next : Cursor} {t : Token} {front lead inside raw behind rest : List Char} {p : Piece}

/-- A tag that leaves a piece leaves this one, unless it is a partial. -/
theorem piece?_of_directive? (h : p.directive? = some t.directive)
    (hp : ∀ name indent lineEnd?, p ≠ .inclusion name indent lineEnd?) :
    ∃ q, t.piece? false = some q ∧ q.core = p.core := by
  rcases p with u | ⟨name, raw⟩ | ⟨name, inverted, line⟩ | name | ⟨name, indent, lineEnd?⟩
  · cases h
  · refine ⟨.interpolation name raw, ?_, rfl⟩
    simp only [Token.piece?, ← Option.some.inj h, Bool.or_false]
  · refine ⟨.enter name inverted t.line, ?_, rfl⟩
    simp only [Token.piece?, ← Option.some.inj h]
  · refine ⟨.leave name, ?_, rfl⟩
    simp only [Token.piece?, ← Option.some.inj h]
  · exact absurd rfl (hp name indent lineEnd?)

/-- A partial with a line to itself is read as one, and the whole of its line with it. -/
theorem Passage.of_line {indent ending : List Char} (P : Passage c t next inside raw behind)
    (hplaced : Placed front c) (hmay : mayStandAlone (Text.trim raw) = true)
    (hlead : t.before ++ t.padding = lead ++ indent) (hbehind : behind = ending ++ rest)
    (hindent : ∀ x ∈ indent, Text.isInline x = true) (hending : Text.IsLineEnd ending)
    (hstart : Text.EndsAtLineStart (front ++ lead)) :
    t.text = lead ∧ next.rest = rest ∧ t.padding = indent ∧ t.lineEnd? = some ending := by
  have hcut : Text.lineEnd? behind = some (ending, rest) := by
    rw [hbehind, hending.lineEnd?_append]
  -- only blanks are on the line in front of the tag, and behind it is where the line ends
  have hsome : t.lineEnd?.isSome = true := by
    refine (P.isSome_lineEnd?_iff hplaced).2 ⟨hmay, ?_, ?_⟩
    · rw [hlead, ← List.append_assoc]
      exact ⟨_, _, rfl, hstart, hindent⟩
    · rw [← Text.isSome_lineEnd?_iff, hcut]
      rfl
  -- so all of the blanks are padding, as the text in front of them ends with a line
  have hpadding : t.padding = indent := by
    rw [← P.takeRightWhile_eq_padding hplaced hsome, hlead, ← List.append_assoc,
      Text.takeRightWhile_append_of_all _ hindent,
      Text.takeRightWhile_eq_nil fun x ↦ hstart.not_isInline_of_getLast?, List.nil_append]
  obtain ⟨taken, htaken⟩ := Option.isSome_iff_exists.1 hsome
  obtain ⟨rfl, hnext⟩ :=
    Prod.mk.inj (Option.some.inj (hcut.symm.trans (P.lineEnd?_eq_of_some htaken)))
  refine ⟨?_, hnext.symm, hpadding, htaken⟩
  rw [hpadding] at hlead
  rw [Token.text, if_pos hsome]
  exact List.append_cancel_right hlead

/-- **A piece that fits is read as it was printed**: with the text in front of it and with what is
printed behind it left. -/
theorem Passage.of_fits (P : Passage c t next inside p.body behind) (hplaced : Placed front c)
    (hw : p.WellRead) (hlead : t.before ++ t.padding = lead ++ p.margin)
    (hbehind : behind = p.lineEnd ++ rest) (hd : p.directive? = some t.directive)
    (hfits : p.Fits (front ++ lead) rest) :
    t.text = lead ∧ next.rest = rest ∧ ∃ q, t.piece? false = some q ∧ q.core = p.core := by
  -- sections, and partials within a line, are printed without margin and line end, and fit where
  -- there is nothing around them to take along
  have hplain (hmargin : p.margin = []) (hend : p.lineEnd = [])
      (hnot : ¬ TakesAlong (front ++ lead) rest) :
      t.text = lead ∧ next.rest = rest ∧
        (t.lineEnd? = none ∨ t.lineEnd? = some [] ∧ t.padding = []) := by
    rw [hmargin, List.append_nil] at hlead
    rw [hend, List.nil_append] at hbehind
    rw [← hlead, ← hbehind] at hnot ⊢
    exact P.of_not_takesAlong hplaced hnot
  rcases p with u | ⟨name, raw⟩ | ⟨name, inverted, line⟩ | name | ⟨name, indent, _ | ending⟩
  case text => cases hd
  case interpolation =>
    have hread := (hw.ofBody?_body rfl).trans rfl
    have hnone : t.lineEnd? = none := by
      rw [← Option.not_isSome_iff_eq_none, P.isSome_lineEnd?_iff hplaced, hw.trim_body,
        Piece.mayStandAlone_of_interpolation hread]
      exact fun h ↦ Bool.false_ne_true h.1
    obtain ⟨htext, hrest⟩ := P.of_lineEnd?_eq_none hnone
    refine ⟨?_, hrest.trans hbehind, piece?_of_directive? hd (by simp)⟩
    rw [htext, hlead]
    exact List.append_nil lead
  case enter | leave =>
    obtain ⟨htext, hrest, -⟩ := hplain rfl rfl hfits.2
    exact ⟨htext, hrest, piece?_of_directive? hd (by simp)⟩
  case inclusion.none =>
    obtain ⟨htext, hrest, hend⟩ := hplain rfl rfl hfits.2
    obtain rfl : indent = "" := hw.lined
    refine ⟨htext, hrest, ?_⟩
    -- it may be read as one that stands alone on an empty rest of a line, which renders the same
    rcases hend with hend | ⟨hend, hpadding⟩
    · exact ⟨.inclusion name "" none, by simp only [Token.piece?, ← Option.some.inj hd, hend], rfl⟩
    · exact ⟨.inclusion name "" (some ""),
        by simp only [Token.piece?, ← Option.some.inj hd, hend, hpadding,
          String.ofList_nil], rfl⟩
  case inclusion.some =>
    obtain ⟨hindent, hending⟩ := hw.lined
    have hmargin : t.before ++ t.padding = lead ++ indent.toList := hlead
    have hrest : behind = ending.toList ++ rest := hbehind
    obtain ⟨htext, hrest, hpadding, htaken⟩ :=
      P.of_line hplaced (by rw [hw.trim_body]; rfl) hmargin hrest hindent hending hfits.2
    refine ⟨htext, hrest, .inclusion name indent (some ending), ?_, rfl⟩
    simp only [Token.piece?, ← Option.some.inj hd, htaken, hpadding, String.ofList_toList]

/-- A tag that leaves a piece leaves the delimiters as they are. -/
theorem delimitersAfter_of_directive? {d : Directive} (h : p.directive? = some d) (c : Cursor) :
    c.delimitersAfter d = c.delimiters := by
  cases p <;> cases h <;> rfl

/-- The tag of a piece in what has been printed. -/
theorem append_printed (hp : p.isText = false) (lead rest : List Char) :
    lead ++ (p.printed ++ rest) =
      (lead ++ p.margin) ++ (printedTag p.body ++ (p.lineEnd ++ rest)) := by
  rw [Piece.printed_of_isText_eq_false hp]
  simp only [List.append_assoc]

/-- The step that reads a legible tag. -/
theorem exists_passage_of_legible {c : Cursor} (hw : p.WellRead) (hp : p.isText = false)
    (hlegible : p.Legible) (hstd : c.delimiters = .standard)
    (hclear : Text.Clear Delimiters.standard.opening lead)
    (hrest : c.rest = lead ++ (p.printed ++ rest)) :
    ∃ t next inside, c.step = .token t next ∧
      Passage c t next inside p.body (p.lineEnd ++ rest) ∧
      t.before ++ t.padding = lead ++ p.margin ∧ p.directive? = some t.directive := by
  have hcut := cut?_printedTag (hclear.append hw.clear_margin) p.body (p.lineEnd ++ rest)
  rw [← append_printed hp, ← hrest, ← hstd] at hcut
  have hbody := hlegible.body? (hw.body_ne_nil hp) (p.lineEnd ++ rest)
  rw [← hstd] at hbody
  obtain ⟨d, hd⟩ : ∃ d, p.directive? = some d := by
    cases p with
    | text u => cases hp
    | _ => exact ⟨_, rfl⟩
  have hread : Directive.ofBody? (Text.trim p.body) = some d := by
    rw [hw.trim_body, hw.ofBody?_body hp, hd]
  have hraw : Text.trim p.body ≠ [] := by
    rw [hw.trim_body]
    exact hw.body_ne_nil hp
  obtain ⟨t, next, hstep⟩ := exists_step_eq_token hcut hbody hraw hread
  obtain ⟨inside, raw, behind, P⟩ := exists_passage_of_step hstep
  obtain ⟨hlead, rfl⟩ := P.lead_eq hcut
  rw [hstd] at hbody
  have hfound := P.body
  rw [hstd, hbody] at hfound
  obtain ⟨rfl, rfl⟩ := Prod.mk.inj (Option.some.inj hfound)
  exact ⟨t, next, _, hstep, P, hlead, hd.trans (hread.symm.trans P.directive)⟩

/-- **One step through pieces that fit.** The text `lead` is what has been printed in front of the
piece. The tag leaves it as it is and takes no more along than what is printed for the piece. -/
theorem exists_next_of_fits {c : Cursor} (hw : p.WellRead) (hp : p.isText = false)
    (hstd : c.delimiters = .standard) (hplaced : Placed front c)
    (hclear : Text.Clear Delimiters.standard.opening lead)
    (hrest : c.rest = lead ++ (p.printed ++ rest)) (hfits : p.Fits (front ++ lead) rest) :
    ∃ t next, c.step = .token t next ∧
      (next.delimiters = .standard ∧ Placed (front ++ lead ++ p.printed) next ∧
        next.rest = rest) ∧
      t.text = lead ∧ p.directive? = some t.directive ∧
      ∃ q, t.piece? false = some q ∧ q.core = p.core := by
  obtain ⟨t, next, inside, hstep, P, hlead, hd⟩ :=
    exists_passage_of_legible hw hp (hfits.legible hp) hstd hclear hrest
  obtain ⟨htext, hnext, hpiece⟩ := P.of_fits hplaced hw hlead rfl hd hfits
  have hsource : t.source = lead ++ p.printed := by
    have hsplit := rest_of_step hstep
    rw [hrest, hnext, ← List.append_assoc] at hsplit
    exact (List.append_cancel_right hsplit).symm
  have hnextstd : next.delimiters = .standard := by
    rw [P.delimiters, delimitersAfter_of_directive? hd, hstd]
  have hplacednext : Placed (front ++ t.source) next := P.placed_next
  rw [hsource, ← List.append_assoc] at hplacednext
  exact ⟨t, next, hstep, ⟨hnextstd, hplacednext, hnext⟩, htext, hd, hpiece⟩

/-- **Where all pieces fit, they are read again.** The text `lead` is what has been printed behind
the position of the reader and in front of the pieces. -/
theorem ofTokens_of_allFit {ps : List Piece} (hw : ∀ p ∈ ps, p.WellRead) {c : Cursor}
    {front lead : List Char} (hstd : c.delimiters = .standard) (hplaced : Placed front c)
    (hclear : Text.Clear Delimiters.standard.opening lead)
    (hapart : (Piece.ofText lead ++ ps).IsChain Piece.Apart)
    (hrest : c.rest = lead ++ ps.flatMap Piece.printed)
    (hfits : Piece.AllFit (front ++ lead) ps) :
    ∃ last, c.tokens.ending = .finished last .standard ∧
      c.tokens.list.map Token.directive = ps.filterMap Piece.directive? ∧
      (Piece.ofTokens false [] c.tokens.list last).map Piece.core =
        (Piece.ofText lead ++ ps).map Piece.core := by
  induction ps generalizing c front lead with
  | nil =>
    -- no tag is left, and what has been printed in front is the last text
    rw [List.flatMap_nil, List.append_nil] at hrest
    have hcut : Text.cut? c.delimiters.opening c.rest = none := by
      rw [hstd, hrest]
      exact Text.cut?_eq_none_of_clear hclear
    have hstep : c.step = .stop (.finished lead .standard) := by
      rw [step, hcut, hrest, hstd]
    rw [tokens_of_stop hstep]
    exact ⟨lead, rfl, rfl, by rw [Piece.ofTokens, List.nil_append, List.append_nil]⟩
  | cons p ps ih =>
    have hwp : p.WellRead := hw p List.mem_cons_self
    have hwps : ∀ q ∈ ps, q.WellRead := fun q hq ↦ hw q (List.mem_cons_of_mem p hq)
    obtain ⟨hfit, hfits⟩ := hfits
    cases hp : p.isText with
    | true =>
      -- a text is read in front of the next tag: it takes the place of `lead`, which is empty
      obtain ⟨u, rfl⟩ : ∃ u, p = .text u := by cases p <;> cases hp; exact ⟨_, rfl⟩
      obtain ⟨hne, hu⟩ := hwp.text rfl
      obtain ⟨rfl, hjoin⟩ := Piece.ofText_append_of_apart hne hapart
      rw [List.append_nil] at hfits
      have hread := ih hwps hstd hplaced hu (hjoin.symm ▸ hapart) hrest hfits
      rw [hjoin] at hread
      exact hread
    | false =>
      rw [List.flatMap_cons] at hrest
      obtain ⟨t, next, hstep, ⟨hnextstd, hplacednext, hnext⟩, htext, hd, q, hq, hcore⟩ :=
        exists_next_of_fits hwp hp hstd hplaced hclear hrest hfit
      -- behind a tag nothing has been printed yet in front of the next piece
      have hnil : Text.Clear Delimiters.standard.opening [] := Text.clear_of_not_mem (by simp)
      have hapartnext : (Piece.ofText [] ++ ps).IsChain Piece.Apart :=
        hapart.right_of_append.tail
      have hfitsnext : Piece.AllFit (front ++ lead ++ p.printed ++ []) ps := by
        rwa [List.append_nil]
      obtain ⟨last, hending, hdirectives, hpieces⟩ :=
        ih hwps hnextstd hplacednext hnil hapartnext hnext hfitsnext
      rw [tokens_of_token hstep]
      refine ⟨last, hending, ?_, ?_⟩
      · rw [Tokens.push, List.map_cons, hdirectives, List.filterMap_cons_some hd]
      · simp only [Tokens.push, Piece.ofTokens, hq, List.nil_append, htext, List.map_append,
          List.map_cons, hcore, hpieces]
        rfl

/-! ### A piece that is read as it was printed -/

/-- The step that comes upon a printed tag, legible or not, when the text is read to its end. -/
theorem exists_passage_of_finished {c : Cursor} {last : List Char} {d : Delimiters}
    (hw : p.WellRead) (hp : p.isText = false) (hstd : c.delimiters = .standard)
    (hclear : Text.Clear Delimiters.standard.opening lead)
    (hrest : c.rest = lead ++ (p.printed ++ rest)) (hending : c.tokens.ending = .finished last d) :
    ∃ t next inside raw behind, c.step = .token t next ∧ Passage c t next inside raw behind ∧
      t.before ++ t.padding = lead ++ p.margin ∧
      body? .standard (p.body ++ (Delimiters.standard.closing ++ (p.lineEnd ++ rest))) =
        some (raw, behind) := by
  have hcut := cut?_printedTag (hclear.append hw.clear_margin) p.body (p.lineEnd ++ rest)
  rw [← append_printed hp, ← hrest, ← hstd] at hcut
  obtain ⟨t, next, hstep⟩ := exists_step_of_finished hcut hending
  obtain ⟨inside, raw, behind, P⟩ := exists_passage_of_step hstep
  obtain ⟨hlead, rfl⟩ := P.lead_eq hcut
  have hbody := P.body
  rw [hstd] at hbody
  exact ⟨t, next, _, raw, behind, hstep, P, hlead, hbody⟩

/-- What a tag has taken along of the text behind it is in front of the next tag. -/
theorem exists_eq_append_of_taken {lead margin body taken rest : List Char}
    (h : lead ++ (margin ++ (printedTag body ++ behind)) = taken ++ rest)
    (hmargin : ∀ x ∈ margin, Text.isInline x = true)
    (htaken : ∀ x ∈ taken, Text.IsLineEndChar x)
    (hbreak : rest = [] ∨ taken = [] ∨ taken.getLast? = some '\n') :
    ∃ kept, lead = taken ++ kept ∧ rest = kept ++ (margin ++ (printedTag body ++ behind)) := by
  have hbrace : '\x7b' ∉ taken := fun hmem ↦ absurd (htaken _ hmem) (by decide)
  have hne : rest ≠ [] := by
    rintro rfl
    rw [List.append_nil] at h
    exact hbrace (by rw [← h]; simp [printedTag, Delimiters.standard])
  rcases List.append_eq_append_iff.1 h with ⟨excess, rfl, hexcess⟩ | ⟨kept, hlead, hrest⟩
  · rcases List.eq_nil_or_concat excess with rfl | ⟨front, x, rfl⟩
    · exact ⟨[], by simp, by rw [List.nil_append, hexcess, List.nil_append]⟩
    · -- what goes beyond the lead would have its line break in the margin, or a brace
      exfalso
      have hx : x ∉ margin := by
        intro hmem
        have hfeed : x = '\n' := by
          rcases hbreak with hnil | hnil | hlast
          · exact absurd hnil hne
          · simp at hnil
          · simpa using hlast
        have hblank := hmargin x hmem
        rw [hfeed] at hblank
        cases hblank
      rcases List.append_eq_append_iff.1 hexcess with ⟨beyond, hbeyond, htag⟩ | ⟨inside, hinside, -⟩
      · rcases beyond with - | ⟨y, beyond⟩
        · rw [List.append_nil] at hbeyond
          exact hx (by rw [← hbeyond]; simp)
        · obtain rfl : '\x7b' = y := (List.cons.inj htag).1
          exact hbrace (by rw [hbeyond]; simp)
      · exact hx (by rw [hinside]; simp)
  · exact ⟨kept, hlead, hrest⟩

/-- A tag that leaves the text in front of it has nothing to take along, unless it takes something
of the text behind it. The text `taken` is what the tag in front of it has taken along. -/
theorem Passage.of_text_eq {taken : List Char} (P : Passage c t next inside raw behind)
    (hplaced : Placed (front ++ taken) c) (hmay : mayStandAlone (Text.trim raw) = true)
    (hlead : t.before ++ t.padding = lead) (htext : t.text = taken ++ lead) :
    taken = [] ∧ ∃ more, behind = more ++ next.rest ∧ (∀ x ∈ more, Text.IsLineEndChar x) ∧
      (next.rest = [] ∨ more = [] ∨ more.getLast? = some '\n') ∧
      (more = [] → ¬ TakesAlong (front ++ lead) behind) := by
  have halone := P.isSome_lineEnd?_iff hplaced
  cases hend : t.lineEnd? with
  | none =>
    -- the tag does not stand alone, so all that is in front of it is its text
    obtain ⟨hall, hrest⟩ := P.of_lineEnd?_eq_none hend
    have htaken : taken = [] := by
      rw [hall, hlead] at htext
      exact List.self_eq_append_left.1 htext
    rw [htaken, List.append_nil, hlead, hend] at halone
    refine ⟨htaken, [], hrest.symm, by simp, .inr (.inl rfl), ?_⟩
    rintro - ⟨hsince, huntil, -⟩
    have hsome := halone.2 ⟨hmay, hsince, huntil⟩
    cases hsome
  | some ending =>
    have hsome : t.lineEnd?.isSome = true := by rw [hend]; rfl
    obtain ⟨-, hbreak, hchars⟩ := Text.lineEnd?_eq_some (P.lineEnd?_eq_of_some hend)
    have hbehind := P.behind_eq
    rw [hend, Option.getD_some] at hbehind
    rw [Token.text, if_pos hsome, ← hlead] at htext
    -- the text is no longer than what is in front of the tag, so there is no padding either
    have hlength := congrArg List.length htext
    simp only [List.length_append] at hlength
    obtain rfl : taken = [] := List.eq_nil_of_length_eq_zero (by omega)
    have hpadding : t.padding = [] := List.eq_nil_of_length_eq_zero (by omega)
    rw [hpadding, List.append_nil] at hlead
    have hstart := P.endsAtLineStart hplaced hsome
    rw [List.append_nil, hlead] at hstart
    refine ⟨rfl, ending, hbehind, hchars, hbreak.imp_right .inr, ?_⟩
    rintro rfl ⟨-, -, hnot⟩
    have hnil : next.rest = [] := by
      rcases hbreak with hnil | hlast
      · exact hnil
      · cases hlast
    exact hnot ⟨hstart, by rw [hbehind, hnil]; rfl⟩

/-- A partial that is read as one on a line of its own is on one. -/
theorem Passage.of_inclusion_eq {taken : List Char} {name indent ending : String} {q : Piece}
    (P : Passage c t next inside raw behind) (hplaced : Placed (front ++ taken) c)
    (hlead : t.before ++ t.padding = lead ++ indent.toList) (hending : ending ≠ "")
    (hbehind : behind = ending.toList ++ rest) (hd : Directive.inclusion name = t.directive)
    (hq : t.piece? false = some q)
    (hcore : q.core = (Piece.inclusion name indent (some ending)).core)
    (htext : t.text = taken ++ lead) :
    taken = [] ∧ rest = next.rest ∧ Text.EndsAtLineStart (front ++ lead) := by
  simp only [Token.piece?, ← hd] at hq
  cases hend : t.lineEnd? with
  | none =>
    -- a partial within its line is no piece with a line end
    rw [hend] at hq
    cases hq
    simp [Piece.core, lineEndCore, hending] at hcore
  | some found =>
    rw [hend] at hq
    cases hq
    have hsame : String.ofList t.padding = indent ∧ String.ofList found = ending := by
      simp only [Piece.core, lineEndCore, Option.some.injEq, hending, and_false, if_false] at hcore
      split at hcore
      · cases hcore
      · exact ⟨(Piece.inclusion.inj hcore).2.1, Option.some.inj (Piece.inclusion.inj hcore).2.2⟩
    obtain ⟨rfl, rfl⟩ := hsame
    have hsome : t.lineEnd?.isSome = true := by rw [hend]; rfl
    rw [String.toList_ofList] at hlead hbehind
    have hbefore : t.before = lead := List.append_cancel_right hlead
    rw [Token.text, if_pos hsome, hbefore] at htext
    have htaken : taken = [] := List.self_eq_append_left.1 htext
    have hall := P.behind_eq
    rw [hend, Option.getD_some, hbehind] at hall
    have hstart := P.endsAtLineStart hplaced hsome
    rw [htaken, List.append_nil, hbefore] at hstart
    exact ⟨htaken, List.append_cancel_left hall, hstart⟩

/-- **A piece that is read as it was printed fits**, if what it has taken along of the text behind
it is nothing. The text `taken` is what the tag in front of it has taken along. -/
theorem Passage.fits_of_text_eq {taken : List Char} {q : Piece}
    (P : Passage c t next inside p.body behind) (hplaced : Placed (front ++ taken) c)
    (hw : p.WellRead) (hlegible : p.Legible) (hlead : t.before ++ t.padding = lead ++ p.margin)
    (hbehind : behind = p.lineEnd ++ rest) (hq : t.piece? false = some q)
    (hcore : q.core = p.core) (htext : t.text = taken ++ lead) :
    taken = [] ∧ ∃ more, rest = more ++ next.rest ∧ (∀ x ∈ more, Text.IsLineEndChar x) ∧
      (next.rest = [] ∨ more = [] ∨ more.getLast? = some '\n') ∧
      (more = [] → p.Fits (front ++ lead) rest) := by
  have hd : p.directive? = some t.directive := by
    rw [← Piece.directive?_core, ← hcore, Piece.directive?_core]
    exact Piece.directive?_of_piece? hq
  -- sections, and partials within a line, are printed without margin and line end
  have hplain (hmargin : p.margin = []) (hend : p.lineEnd = [])
      (hmay : mayStandAlone p.body = true) :
      taken = [] ∧ ∃ more, rest = more ++ next.rest ∧ (∀ x ∈ more, Text.IsLineEndChar x) ∧
        (next.rest = [] ∨ more = [] ∨ more.getLast? = some '\n') ∧
        (more = [] → ¬ TakesAlong (front ++ lead) rest) := by
    rw [hmargin, List.append_nil] at hlead
    rw [hend, List.nil_append] at hbehind
    rw [← hw.trim_body] at hmay
    rw [← hbehind]
    exact P.of_text_eq hplaced hmay hlead htext
  rcases p with u | ⟨name, raw⟩ | ⟨name, inverted, line⟩ | name | ⟨name, indent, _ | ending⟩
  case text => cases hd
  case interpolation =>
    have hread := (hw.ofBody?_body rfl).trans rfl
    have hnone : t.lineEnd? = none := by
      rw [← Option.not_isSome_iff_eq_none, P.isSome_lineEnd?_iff hplaced, hw.trim_body,
        Piece.mayStandAlone_of_interpolation hread]
      exact fun h ↦ Bool.false_ne_true h.1
    obtain ⟨hall, hrest⟩ := P.of_lineEnd?_eq_none hnone
    have htaken : taken = [] := by
      rw [hall, hlead] at htext
      exact List.self_eq_append_left.1 ((List.append_nil lead).symm.trans htext)
    exact ⟨htaken, [], hbehind.symm.trans hrest.symm, by simp, .inr (.inl rfl), fun _ ↦ hlegible⟩
  case enter =>
    obtain ⟨htaken, more, hrest, hchars, hbreak, hnot⟩ := hplain rfl rfl (by cases inverted <;> rfl)
    exact ⟨htaken, more, hrest, hchars, hbreak, fun hmore ↦ ⟨hlegible, hnot hmore⟩⟩
  case leave | inclusion.none =>
    obtain ⟨htaken, more, hrest, hchars, hbreak, hnot⟩ := hplain rfl rfl rfl
    exact ⟨htaken, more, hrest, hchars, hbreak, fun hmore ↦ ⟨hlegible, hnot hmore⟩⟩
  case inclusion.some =>
    have hending : ending ≠ "" := by
      rintro rfl
      exact hw.lined.2.ne_nil rfl
    obtain ⟨htaken, hrest, hstart⟩ :=
      P.of_inclusion_eq hplaced hlead hending hbehind (Option.some.inj hd) hq hcore htext
    exact ⟨htaken, [], hrest, by simp, .inr (.inl rfl), fun _ ↦ ⟨hlegible, hstart⟩⟩

/-- **One step through pieces that are read again.** The text `lead` is what has been printed in
front of the piece, and `taken` is what the last tag has taken along of it, which is nothing. What
the tag of the piece takes along is `more`, of which the next step says the same. -/
theorem exists_next_of_ofTokens {ps : List Piece} (hw : p.WellRead) (hp : p.isText = false)
    {c : Cursor} {taken last : List Char} {d : Delimiters} (hstd : c.delimiters = .standard)
    (hplaced : Placed (front ++ taken) c)
    (hclear : Text.Clear Delimiters.standard.opening lead)
    (hrest : lead ++ (p.printed ++ rest) = taken ++ c.rest)
    (htaken : ∀ x ∈ taken, Text.IsLineEndChar x)
    (hbreak : c.rest = [] ∨ taken = [] ∨ taken.getLast? = some '\n')
    (hending : c.tokens.ending = .finished last d)
    (hread : (Piece.ofTokens false [] c.tokens.list last).map Piece.core =
      (Piece.ofText lead ++ p :: ps).map Piece.core) :
    taken = [] ∧ ∃ next more,
      (next.delimiters = .standard ∧ Placed (front ++ (lead ++ p.printed) ++ more) next) ∧
      (rest = more ++ next.rest ∧ (∀ x ∈ more, Text.IsLineEndChar x) ∧
        (next.rest = [] ∨ more = [] ∨ more.getLast? = some '\n')) ∧
      next.tokens.ending = .finished last d ∧
      (Piece.ofTokens false [] next.tokens.list last).map Piece.core = ps.map Piece.core ∧
      (more = [] → p.Fits (front ++ lead) rest) := by
  rw [append_printed hp, List.append_assoc] at hrest
  obtain ⟨kept, rfl, hkept⟩ :=
    exists_eq_append_of_taken hrest hw.isInline_of_mem_margin htaken hbreak
  rw [← List.append_assoc, ← append_printed hp] at hkept
  obtain ⟨t, next, inside, raw, behind, hstep, P, hlead, hbody⟩ :=
    exists_passage_of_finished hw hp hstd hclear.of_append hkept hending
  rw [tokens_of_token hstep] at hending hread
  have hraw : raw ≠ [] := by
    rintro rfl
    exact P.trim_ne_nil rfl
  -- the piece that is read is the one that was printed, so its whole body has been found
  obtain ⟨q, hq⟩ := Piece.exists_piece?_of_head? hp (hw.ofBody?_body hp)
    (Piece.head?_trim_of_body? hw hp hbody hraw) P.directive
  simp only [Tokens.push, Piece.ofTokens, hq, List.nil_append, List.map_append, List.map_cons,
    Piece.map_core_ofText] at hread
  obtain ⟨htext, hcore, hpieces⟩ := Piece.ofText_append_cons_inj
    (by rw [Piece.isText_core]; exact Piece.isText_of_piece? hq)
    (by rw [Piece.isText_core]; exact hp) hread
  have hd : p.directive? = some t.directive := by
    rw [← Piece.directive?_core, ← hcore, Piece.directive?_core]
    exact Piece.directive?_of_piece? hq
  obtain ⟨rfl, rfl, hlegible⟩ := Piece.eq_body_of_ofBody? hw hp hbody (P.directive.trans hd.symm)
  obtain ⟨rfl, more, hmore, hchars, hstop, hfit⟩ :=
    P.fits_of_text_eq hplaced hw hlegible hlead rfl hq hcore htext
  have hsource : t.source = kept ++ (p.printed ++ more) := by
    have hsplit := rest_of_step hstep
    rw [hkept, hmore, ← List.append_assoc p.printed, ← List.append_assoc] at hsplit
    exact (List.append_cancel_right hsplit).symm
  have hnext : Placed (front ++ [] ++ t.source) next := P.placed_next
  rw [hsource, List.append_nil, ← List.append_assoc kept, ← List.append_assoc] at hnext
  have hnextstd : next.delimiters = .standard := by
    rw [P.delimiters, delimitersAfter_of_directive? hd, hstd]
  exact ⟨rfl, next, more, ⟨hnextstd, hnext⟩, ⟨hmore, hchars, hstop⟩, hending, hpieces, hfit⟩

/-- **Where pieces are read again, all of them fit.** The text `lead` is what has been printed in
front of the pieces, and `taken` is what the last tag has taken along of it. -/
theorem allFit_of_ofTokens {ps : List Piece} (hw : ∀ p ∈ ps, p.WellRead) {c : Cursor}
    {front lead taken last : List Char} {d : Delimiters} (hstd : c.delimiters = .standard)
    (hplaced : Placed (front ++ taken) c)
    (hclear : Text.Clear Delimiters.standard.opening lead)
    (hapart : (Piece.ofText lead ++ ps).IsChain Piece.Apart)
    (hrest : lead ++ ps.flatMap Piece.printed = taken ++ c.rest)
    (htaken : ∀ x ∈ taken, Text.IsLineEndChar x)
    (hbreak : c.rest = [] ∨ taken = [] ∨ taken.getLast? = some '\n')
    (hending : c.tokens.ending = .finished last d)
    (hread : (Piece.ofTokens false [] c.tokens.list last).map Piece.core =
      (Piece.ofText lead ++ ps).map Piece.core) :
    taken = [] ∧ Piece.AllFit (front ++ lead) ps := by
  induction ps generalizing c front lead taken with
  | nil =>
    -- the last text is read as it is, so nothing of it has been taken along
    rw [List.flatMap_nil, List.append_nil] at hrest
    rw [hrest] at hclear
    have hcut : Text.cut? c.delimiters.opening c.rest = none := by
      rw [hstd]
      exact Text.cut?_eq_none_of_clear hclear.of_append
    have hstep : c.step = .stop (.finished c.rest c.delimiters) := by
      rw [step, hcut]
    rw [tokens_of_stop hstep] at hending hread
    obtain ⟨rfl, -⟩ := Ending.finished.inj hending
    rw [Piece.ofTokens, List.nil_append, List.append_nil, Piece.map_core_ofText,
      Piece.map_core_ofText] at hread
    have hlead := Piece.ofText_injective hread
    rw [← hlead] at hrest
    exact ⟨List.self_eq_append_left.1 hrest, trivial⟩
  | cons p ps ih =>
    have hwp : p.WellRead := hw p List.mem_cons_self
    have hwps : ∀ q ∈ ps, q.WellRead := fun q hq ↦ hw q (List.mem_cons_of_mem p hq)
    cases hp : p.isText with
    | true =>
      -- a text is read in front of the next tag
      obtain ⟨u, rfl⟩ : ∃ u, p = .text u := by cases p <;> cases hp; exact ⟨_, rfl⟩
      obtain ⟨hne, hu⟩ := hwp.text rfl
      obtain ⟨rfl, hjoin⟩ := Piece.ofText_append_of_apart hne hapart
      rw [Piece.ofText_nil, List.nil_append] at hapart hread
      rw [← hjoin] at hapart hread
      obtain ⟨rfl, hfits⟩ := ih hwps hstd hplaced hu hapart hrest htaken hbreak hending hread
      rw [List.append_nil]
      exact ⟨rfl, trivial, hfits⟩
    | false =>
      rw [List.flatMap_cons] at hrest
      -- what this tag takes along is nothing, by what the induction says of the next pieces
      obtain ⟨rfl, next, more, ⟨hnextstd, hnext⟩, ⟨hmore, hchars, hstop⟩, hnextending, hpieces,
        hfit⟩ :=
        exists_next_of_ofTokens hwp hp hstd hplaced hclear hrest htaken hbreak hending hread
      have hnil : Text.Clear Delimiters.standard.opening [] := Text.clear_of_not_mem (by simp)
      have hapartnext : (Piece.ofText [] ++ ps).IsChain Piece.Apart :=
        hapart.right_of_append.tail
      obtain ⟨rfl, hfits⟩ :=
        ih hwps hnextstd hnext hnil hapartnext hmore hchars hstop hnextending hpieces
      rw [List.append_nil, ← List.append_assoc] at hfits
      exact ⟨rfl, hfit rfl, hfits⟩

end Cursor

end Mustache
