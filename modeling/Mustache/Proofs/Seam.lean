import Mathlib.Data.List.Basic
import Mustache.Proofs.Descent

/-!
# The seam between two texts

Reading a template that ends where a line starts sees nothing of a text that is put behind it, and
reading that text sees nothing of the template but the line it starts on. What looks across the
seam does not get far: a mark that is searched for holds no line break, so none lies across
(`Text.cut?_append_of_eq_none`); the remainder of a line ends with the break in front of the seam
(`Text.lineEnd?_append`); and the blanks in front of a tag end where its line starts
(`Lead.ofText_append`).

* `Cursor.step_extended` — a step that reads a token in front of the seam.
* `Cursor.step_extended_of_cut?_eq_none` — the step across: the text that is left in front of the
  seam is text in front of what is read behind it.

Together they are `Draft.along_extended`: a draft goes on behind the seam from what the template
has left, which is its tree, its delimiters and its number of lines.
-/

namespace Mustache

namespace Text

section

variable {mark t front behind : List Char}

/-- What is found in a text is found there with more text behind it. -/
theorem cut?_append (hmark : mark ≠ []) (h : cut? mark t = some (front, behind)) (u : List Char) :
    cut? mark (t ++ u) = some (front, behind ++ u) := by
  have hclear := cut?_append_of_clear hmark (clear_of_cut? hmark h) (behind ++ u)
  rwa [← List.append_assoc mark, ← List.append_assoc, ← eq_append_of_cut? h] at hclear

/-- A text without a mark is passed over, when no mark can lie across its end. -/
theorem cut?_append_of_eq_none (h : cut? mark t = none)
    (hlast : ∀ x, t.getLast? = some x → x ∉ mark) (u : List Char) :
    cut? mark (t ++ u) = (cut? mark u).map fun parts ↦ (t ++ parts.1, parts.2) := by
  induction t with
  | nil => simp
  | cons c t ih =>
    rw [cut?_cons] at h
    split at h
    · cases h
    · next hnone =>
      have hfirst : ¬ mark <+: c :: (t ++ u) := by
        intro hp
        rcases Nat.le_total mark.length (c :: t).length with hle | hle
        · exact not_prefix_of_isPrefixOf? hnone
            (List.prefix_of_prefix_length_le hp (List.prefix_append (c :: t) u) hle)
        · have hall := List.prefix_of_prefix_length_le (List.prefix_append (c :: t) u) hp hle
          exact hlast _ (List.getLast?_eq_some_getLast (List.cons_ne_nil c t))
            (hall.subset (List.getLast_mem _))
      have hrest : ∀ x, t.getLast? = some x → x ∉ mark := by
        intro x hx
        refine hlast x ?_
        rw [List.getLast?_cons, hx]
        rfl
      rw [List.cons_append, cut?_cons, isPrefixOf?_eq_none hfirst,
        ih (Option.map_eq_none_iff.1 h) hrest, Option.map_map]
      rfl

end

/-! ### The remainder of a line -/

/-- A text is read to the end of its line blank by blank, up to its break or to anything else. -/
theorem line_induction {P : List Char → Prop} (nil : P [])
    (inline : ∀ c t, isInline c = true → P t → P (c :: t)) (feed : ∀ t, P ('\n' :: t))
    (carriage : ∀ t, P ('\r' :: '\n' :: t))
    (other : ∀ c t, isInline c = false → c ≠ '\n' → (c = '\r' → t.head? ≠ some '\n') → P (c :: t))
    (t : List Char) : P t := by
  induction t with
  | nil => exact nil
  | cons c t ih =>
    rcases hc : isInline c with - | -
    · by_cases hfeed : c = '\n'
      · exact hfeed ▸ feed t
      · by_cases hcarriage : c = '\r' ∧ t.head? = some '\n'
        · obtain ⟨rfl, hhead⟩ := hcarriage
          obtain ⟨u, rfl⟩ := List.head?_eq_some_iff.1 hhead
          exact carriage u
        · exact other c t hc hfeed fun hreturn hhead ↦ hcarriage ⟨hreturn, hhead⟩
    · exact inline c t hc ih

/-- A blank in front of the remainder of a line belongs to it. -/
theorem lineEnd?_cons_of_isInline {c : Char} (hc : isInline c = true) (t : List Char) :
    lineEnd? (c :: t) = (lineEnd? t).map fun parts ↦ (c :: parts.1, parts.2) := by
  unfold lineEnd?
  dsimp only
  rw [List.takeWhile_cons_of_pos hc, List.dropWhile_cons_of_pos hc]
  split <;> rfl

theorem lineEnd?_eq_none {c : Char} {t : List Char} (hc : isInline c = false) (hfeed : c ≠ '\n')
    (hcarriage : c = '\r' → t.head? ≠ some '\n') : lineEnd? (c :: t) = none := by
  have hdrop : (c :: t).dropWhile isInline = c :: t := by
    refine List.dropWhile_cons_of_neg ?_
    rw [hc]
    decide
  unfold lineEnd?
  dsimp only
  rw [hdrop]
  split
  · next heq => cases heq
  · next heq => exact absurd (List.cons.inj heq).1 hfeed
  · next heq =>
    obtain ⟨rfl, rfl⟩ := List.cons.inj heq
    exact absurd rfl (hcarriage rfl)
  · rfl

/-- The remainder of a line is the same with more text behind a text that ends with a line
break. -/
theorem lineEnd?_append {t : List Char} (h : t.getLast? = some '\n') (u : List Char) :
    lineEnd? (t ++ u) = (lineEnd? t).map fun parts ↦ (parts.1, parts.2 ++ u) := by
  induction t using line_induction with
  | nil => cases h
  | feed t | carriage t => rfl
  | inline c t hc ih =>
    have ht : t.getLast? = some '\n' := by
      rcases t with - | ⟨d, t⟩
      · obtain rfl : c = '\n' := Option.some.inj h
        cases hc
      · exact h
    rw [List.cons_append, lineEnd?_cons_of_isInline hc, lineEnd?_cons_of_isInline hc, ih ht,
      Option.map_map, Option.map_map]
    rfl
  | other c t hc hfeed hcarriage =>
    have hlonger : c = '\r' → (t ++ u).head? ≠ some '\n' := by
      rcases t with - | ⟨d, t⟩
      · exact absurd (Option.some.inj h) hfeed
      · exact hcarriage
    rw [List.cons_append, lineEnd?_eq_none hc hfeed hcarriage, lineEnd?_eq_none hc hfeed hlonger]
    rfl

/-! ### Where lines start -/

/-- Where a text does not end with a character in `p`, the run at the end of what is put behind it
is that of both. -/
theorem dropRightWhile_append_of_getLast? {p : Char → Bool} {t : List Char}
    (h : ∀ c, t.getLast? = some c → p c = false) (u : List Char) :
    dropRightWhile p (t ++ u) = t ++ dropRightWhile p u ∧
      takeRightWhile p (t ++ u) = takeRightWhile p u := by
  have hrun : ∀ c ∈ takeRightWhile p u, p c = true := fun c hc ↦ of_mem_takeRightWhile hc
  have hlast : ∀ c, (t ++ dropRightWhile p u).getLast? = some c → p c = false := by
    intro c hc
    rw [List.getLast?_append] at hc
    rcases hu : (dropRightWhile p u).getLast? with - | d
    · rw [hu] at hc
      exact h c hc
    · rw [hu] at hc
      exact of_getLast?_dropRightWhile (hu.trans hc)
  have hsplit : t ++ u = (t ++ dropRightWhile p u) ++ takeRightWhile p u := by
    rw [List.append_assoc, dropRightWhile_append_takeRightWhile]
  rw [hsplit, dropRightWhile_append_of_all _ hrun, takeRightWhile_append_of_all _ hrun,
    dropRightWhile_eq_self hlast, takeRightWhile_eq_nil hlast]
  exact ⟨rfl, rfl⟩

/-- Whether a line starts behind the text, which itself starts where a line does or not. -/
def lineStartsBehind (atLineStart : Bool) (t : List Char) : Bool :=
  t.getLast?.elim atLineStart (· == '\n')

theorem lineStartsBehind_append (atLineStart : Bool) (t u : List Char) :
    lineStartsBehind atLineStart (t ++ u) =
      lineStartsBehind (lineStartsBehind atLineStart t) u := by
  unfold lineStartsBehind
  rw [List.getLast?_append]
  rcases u.getLast? with - | x <;> rfl

end Text

/-- The text in front of a tag is parted the same behind text that a line starts behind. -/
theorem Lead.ofText_append {atLineStart : Bool} {t : List Char}
    (h : Text.lineStartsBehind atLineStart t = true) (text : List Char) :
    ofText atLineStart (t ++ text) =
      { ofText true text with before := t ++ (ofText true text).before } := by
  have hinline : ∀ c, t.getLast? = some c → Text.isInline c = false := by
    intro c hc
    rw [Text.lineStartsBehind, hc] at h
    rw [eq_of_beq h]
    rfl
  obtain ⟨hdrop, htake⟩ := Text.dropRightWhile_append_of_getLast? hinline text
  have hstarts :=
    Text.lineStartsBehind_append atLineStart t (Text.dropRightWhile Text.isInline text)
  rw [h] at hstarts
  unfold ofText
  dsimp only
  rw [hdrop, htake]
  unfold Text.lineStartsBehind at hstarts
  rw [hstarts]
  split <;> rfl

/-- The step with a text without tags in front of what it reads. -/
def Step.behind (u : List Char) : Step → Step
  | .token t next => .token { t with before := u ++ t.before } next
  | .stop (.finished text d) => .stop (.finished (u ++ text) d)
  | .stop (.defective m) => .stop (.defective m)

namespace Cursor

/-- The position with more text behind the template. -/
def extended (c : Cursor) (u : List Char) : Cursor :=
  { c with rest := c.rest ++ u }

/-- The position at the start of a text that is put behind the template, when a line starts
there. -/
def atEnd (c : Cursor) (u : List Char) : Cursor :=
  ⟨u, c.line + Text.lineBreaks c.rest, true, c.delimiters⟩

/-- Whether a line starts behind the template. -/
def EndsAtLineStart (c : Cursor) : Prop :=
  Text.lineStartsBehind c.atLineStart c.rest = true

theorem lineBreaks_eq_zero_of_usable {mark : List Char} (h : Usable mark) :
    Text.lineBreaks mark = 0 :=
  List.count_eq_zero_of_not_mem (not_mem_of_isLineEndChar h (.inr (.inl rfl)))

theorem body?_append {d : Delimiters} {t raw behind : List Char}
    (h : body? d t = some (raw, behind)) (u : List Char) :
    body? d (t ++ u) = some (raw, behind ++ u) := by
  have hhead : (t ++ u).head? = t.head? := by
    refine List.head?_append_of_ne_nil _ ?_
    rintro rfl
    rw [body?, if_neg (fun heq ↦ nomatch heq), Text.cut?_nil, if_neg d.closing_usable.1] at h
    cases h
  unfold body? at h ⊢
  rw [hhead]
  split at h
  · next hbrace =>
    obtain ⟨⟨front, after⟩, hparts, heq⟩ := Option.map_eq_some_iff.1 h
    obtain ⟨rfl, rfl⟩ := Prod.mk.inj heq
    rw [if_pos hbrace, Text.cut?_append (List.cons_ne_nil _ _) hparts]
    rfl
  · next hbrace =>
    rw [if_neg hbrace]
    exact Text.cut?_append d.closing_usable.1 h u

variable {c next : Cursor} {t : Token} {text inside raw behind : List Char}

/-- What is ahead is a text, a tag and what is behind the tag. -/
theorem rest_eq_append (htext : Text.cut? c.delimiters.opening c.rest = some (text, inside))
    (hbody : body? c.delimiters inside = some (raw, behind)) :
    c.rest = text ++ (c.delimiters.opening ++ (raw ++ c.delimiters.closing)) ++ behind := by
  rw [Text.eq_append_of_cut? htext, eq_append_of_body? hbody]
  simp only [List.append_assoc]

/-- The break at the end of a template is behind its tags. -/
theorem EndsAtLineStart.getLast?_behind (hline : c.EndsAtLineStart)
    (htext : Text.cut? c.delimiters.opening c.rest = some (text, inside))
    (hbody : body? c.delimiters inside = some (raw, behind)) : behind.getLast? = some '\n' := by
  obtain ⟨x, hx, hfeed, -⟩ := exists_getLast?_of_usable c.delimiters.closing_usable
  rw [EndsAtLineStart, Text.lineStartsBehind, rest_eq_append htext hbody,
    List.getLast?_append] at hline
  rcases hbehind : behind.getLast? with - | y
  · rw [hbehind] at hline
    simp [hx, hfeed] at hline
  · rw [hbehind] at hline
    exact congrArg some (eq_of_beq hline)

theorem EndsAtLineStart.of_step (hline : c.EndsAtLineStart) (h : c.step = .token t next) :
    next.EndsAtLineStart := by
  obtain ⟨inside, raw, behind, P⟩ := exists_passage_of_step h
  have hlast := hline.getLast?_behind P.cut_opening P.body
  rw [P.behind_eq] at hlast
  rw [EndsAtLineStart, Text.lineStartsBehind]
  rcases hend : t.lineEnd? with - | ending
  · rw [hend, Option.getD_none, List.nil_append] at hlast
    rw [hlast]
    rfl
  · rw [List.getLast?_append] at hlast
    rcases hrest : next.rest.getLast? with - | x
    · rw [P.atLineStart, hend]
      rfl
    · rw [hrest] at hlast
      obtain rfl : x = '\n' := Option.some.inj hlast
      rfl

/-- Lines and line breaks ahead add up to the same all the way through a template. -/
theorem line_add_lineBreaks_of_step (h : c.step = .token t next) :
    next.line + Text.lineBreaks next.rest = c.line + Text.lineBreaks c.rest := by
  obtain ⟨text, inside, raw, behind, directive, htext, hbody, -, -, htag⟩ :=
    exists_tagStep_of_step h
  have hlines : Text.lineBreaks c.rest =
      Text.lineBreaks text + Text.lineBreaks raw + Text.lineBreaks behind := by
    rw [rest_eq_append htext hbody]
    simp only [Text.lineBreaks_append, lineBreaks_eq_zero_of_usable c.delimiters.opening_usable,
      lineBreaks_eq_zero_of_usable c.delimiters.closing_usable]
    omega
  simp only [tagStep] at htag
  split at htag
  · obtain ⟨rfl, rfl⟩ := Step.token.inj htag
    dsimp only
    omega
  · next ending rest htaken =>
    obtain ⟨rfl, rfl⟩ := Step.token.inj htag
    have hbehind : ending ++ rest = behind := by
      unfold takenLineEnd? at htaken
      split at htaken
      · exact Text.append_of_lineEnd? htaken
      · cases htaken
    rw [← hbehind, Text.lineBreaks_append] at hlines
    dsimp only
    omega

/-- **No step sees the text that is put behind a template** that ends where a line starts. -/
theorem step_extended (h : c.step = .token t next) (hline : c.EndsAtLineStart) (u : List Char) :
    (c.extended u).step = .token t (next.extended u) := by
  obtain ⟨text, inside, raw, behind, directive, htext, hbody, hne, hdirective, htag⟩ :=
    exists_tagStep_of_step h
  have hlast := hline.getLast?_behind htext hbody
  have htaken (lead : Lead) (body : List Char) : takenLineEnd? lead body (behind ++ u) =
      (takenLineEnd? lead body behind).map fun parts ↦ (parts.1, parts.2 ++ u) := by
    unfold takenLineEnd?
    split
    · exact Text.lineEnd?_append hlast u
    · rfl
  have hstep : (c.extended u).step =
      (c.extended u).tagStep (Lead.ofText c.atLineStart text) raw (behind ++ u)
        (c.line + Text.lineBreaks text + Text.lineBreaks raw) directive := by
    have htext' := Text.cut?_append c.delimiters.opening_usable.1 htext u
    have hbody' := body?_append hbody u
    simp only [step, extended, htext', hbody', if_neg hne, hdirective]
  rw [hstep, tagStep, htaken]
  simp only [tagStep] at htag
  rcases htake : takenLineEnd? (Lead.ofText c.atLineStart text) (Text.trim raw) behind with
    - | ⟨ending, rest⟩
  all_goals
    rw [htake] at htag
    obtain ⟨rfl, rfl⟩ := Step.token.inj htag
    rfl

/-- **Text without a tag is read as text in front of what follows it**, when a line starts behind
it. -/
theorem step_extended_of_cut?_eq_none (hcut : Text.cut? c.delimiters.opening c.rest = none)
    (hline : c.EndsAtLineStart) (u : List Char) :
    (c.extended u).step = (c.atEnd u).step.behind c.rest := by
  have hmark : ∀ x, c.rest.getLast? = some x → x ∉ c.delimiters.opening := by
    intro x hx
    rw [EndsAtLineStart, Text.lineStartsBehind, hx] at hline
    exact not_mem_of_isLineEndChar c.delimiters.opening_usable (.inr (.inl (eq_of_beq hline)))
  have hfirst := Text.cut?_append_of_eq_none hcut hmark u
  unfold step
  dsimp only [extended, atEnd]
  rw [hfirst]
  rcases Text.cut? c.delimiters.opening u with - | ⟨text, inside⟩
  · rfl
  · dsimp only [Option.map_some]
    rcases body? c.delimiters inside with - | ⟨raw, behind⟩
    · rw [Text.lineBreaks_append, ← Nat.add_assoc]
      rfl
    · dsimp only
      rw [Text.lineBreaks_append, ← Nat.add_assoc, Lead.ofText_append hline]
      split
      · rfl
      · rcases Directive.ofBody? (Text.trim raw) with - | directive
        · rfl
        · have htaken (before : List Char) :
              takenLineEnd? { Lead.ofText true text with before := before } (Text.trim raw) behind =
                takenLineEnd? (Lead.ofText true text) (Text.trim raw) behind := rfl
          simp only [tagStep, htaken]
          rcases takenLineEnd? (Lead.ofText true text) (Text.trim raw) behind with
            - | ⟨ending, rest⟩
          · rfl
          · rfl

end Cursor

/-! ### Drafts -/

namespace Draft

theorem addText_addText (d : Draft) (t u : List Char) :
    (d.addText t).addText u = d.addText (t ++ u) := by
  have hnil (d : Draft) : d.addText [] = d := rfl
  by_cases ht : t = []
  · rw [ht, hnil, List.nil_append]
  · by_cases hu : u = []
    · rw [hu, hnil, List.append_nil]
    · obtain ⟨es, sections⟩ := d
      have htu : t ++ u ≠ [] := fun h ↦ ht (List.append_eq_nil_iff.1 h).1
      unfold addText
      rw [if_neg ht, if_neg hu, if_neg htu, String.ofList_append]
      rcases es with - | ⟨u | _ | _ | _, es⟩
      · rfl
      · dsimp only
        rw [String.append_assoc]
      all_goals rfl

variable (forceRaw : Bool)

/-- A text that a draft has taken is as good as one in front of what it reads next. -/
theorem along_of_step_eq_behind {c next : Cursor} {t : List Char} (h : c.step = next.step.behind t)
    (d : Draft) : d.along forceRaw c = (d.addText t).along forceRaw next := by
  rcases hstep : next.step with ⟨tok, after⟩ | ⟨text, delimiters⟩ | m
  · rw [hstep] at h
    have htext : Token.text { tok with before := t ++ tok.before } = t ++ tok.text := by
      unfold Token.text
      split
      · rfl
      · exact List.append_assoc _ _ _
    rw [along_of_token forceRaw h, along_of_token forceRaw hstep, take, take, htext,
      addText_addText]
    rfl
  · rw [hstep] at h
    rw [along_of_stop forceRaw h, along_of_stop forceRaw hstep, finish, finish, addText_addText,
      sections_addText]
  · rw [hstep] at h
    rw [along_of_stop forceRaw h, along_of_stop forceRaw hstep]
    rfl

/-- **What is put behind a template** is read from the draft of the template on. -/
theorem along_extended {d : Draft} {c : Cursor} {tree : Tree} (h : d.along forceRaw c = .ok tree)
    (hline : c.EndsAtLineStart) (u : List Char) :
    d.along forceRaw (c.extended u) =
      along forceRaw ⟨tree.elements.reverse, []⟩
        { c.atEnd u with delimiters := tree.delimiters } := by
  match hstep : c.step with
  | .stop (.defective m) =>
    rw [along_of_stop forceRaw hstep] at h
    cases h
  | .stop (.finished text delimiters) =>
    -- no tag is open and no section either, so the last text goes on in what is put behind it
    rw [along_of_stop forceRaw hstep] at h
    obtain ⟨hcut, rfl, rfl⟩ := Cursor.cut?_of_step_finished hstep
    rw [along_of_step_eq_behind forceRaw (Cursor.step_extended_of_cut?_eq_none hcut hline u)]
    obtain ⟨es, sections⟩ := d
    cases sections with
    | cons s outer => cases h
    | nil =>
      obtain rfl := Except.ok.inj h
      rw [List.reverse_reverse, addText_mk]
      rfl
  | .token t next =>
    have hextended := Cursor.step_extended hstep hline u
    have hlines := Cursor.line_add_lineBreaks_of_step hstep
    rw [along_of_token forceRaw hstep] at h
    obtain ⟨d', htake, hrest⟩ := bind_eq_ok_iff.1 h
    rw [along_of_token forceRaw hextended, htake]
    show along forceRaw d' (next.extended u) = _
    rw [along_extended hrest (hline.of_step hstep) u, Cursor.atEnd, hlines]
    rfl
termination_by c.rest.length
decreasing_by exact Cursor.length_rest_lt_of_step hstep

end Draft

end Mustache
