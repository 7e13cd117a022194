import Mustache.Token

/-!
# Standing alone on a line

Whether a tag stands alone is a matter of the whole template: only spaces and tabs lie between the
line break in front of it and the tag, and only spaces and tabs between the tag and the line break
behind it. Reading a template decides it from less, the text since the last tag and one bit about
the position behind that tag.

## What the bit is worth

* `Cursor.Placed front c` says what a position knows of the text in front of it. It is the
  invariant of reading (`Passage.placed_next`), and it is lost nowhere but at the end of the
  template, where no further tag can ask for it.
* With it a step's decision is the global one (`Passage.isSome_lineEnd?_iff`).

A step that reads a token is taken apart once, into a `Passage`.
-/

namespace Mustache

namespace Text

/-! ### Lines from outside -/

/-- Whether the text ends where a line starts. -/
def EndsAtLineStart (t : List Char) : Prop :=
  t = [] ∨ t.getLast? = some '\n'

/-- Whether only spaces and tabs lie behind the last line break of the text, or behind its start
when it has none. -/
def BlankSinceBreak (t : List Char) : Prop :=
  ∃ lines blanks, t = lines ++ blanks ∧ EndsAtLineStart lines ∧ ∀ c ∈ blanks, isInline c = true

/-- Whether only spaces and tabs lie in front of the first line break of the text, or in front of
its end when it has none. A carriage return may precede the line feed. -/
def BlankUntilBreak (t : List Char) : Prop :=
  ∃ blanks others, t = blanks ++ others ∧ (∀ c ∈ blanks, isInline c = true) ∧
    (others = [] ∨ ['\n'] <+: others ∨ ['\r', '\n'] <+: others)

/-- The length of the line break at the start of the text, which is zero when there is none. -/
def breakLength : List Char → Nat
  | '\n' :: _ => 1
  | '\r' :: '\n' :: _ => 2
  | _ => 0

/-- The characters of a line end. -/
def IsLineEndChar (c : Char) : Prop :=
  isInline c = true ∨ c = '\n' ∨ c = '\r'

instance (c : Char) : Decidable (IsLineEndChar c) :=
  inferInstanceAs (Decidable (_ ∨ _ ∨ _))

theorem EndsAtLineStart.not_isInline_of_getLast? {t : List Char} (h : EndsAtLineStart t) {c : Char}
    (hlast : t.getLast? = some c) : isInline c = false := by
  rcases h with rfl | h
  · cases hlast
  · rw [h] at hlast
    cases hlast
    rfl

theorem blankSinceBreak_iff {t : List Char} :
    BlankSinceBreak t ↔ EndsAtLineStart (dropRightWhile isInline t) := by
  constructor
  · rintro ⟨lines, blanks, rfl, hlines, hblanks⟩
    rwa [dropRightWhile_append_of_all lines hblanks,
      dropRightWhile_eq_self fun c ↦ hlines.not_isInline_of_getLast?]
  · intro h
    exact ⟨_, _, (dropRightWhile_append_takeRightWhile isInline t).symm, h,
      fun c hc ↦ of_mem_takeRightWhile hc⟩

/-- What a line end is made of. -/
theorem lineEnd?_eq_some {t ending rest : List Char} (h : lineEnd? t = some (ending, rest)) :
    ending.length = (t.takeWhile isInline).length + breakLength (t.dropWhile isInline) ∧
      (rest = [] ∨ ending.getLast? = some '\n') ∧ ∀ c ∈ ending, IsLineEndChar c := by
  have hblanks : ∀ c ∈ t.takeWhile isInline, IsLineEndChar c :=
    fun c hc ↦ .inl (List.all_eq_true.1 List.all_takeWhile c hc)
  simp only [lineEnd?] at h
  split at h
  · next heq =>
    obtain ⟨rfl, rfl⟩ := Prod.mk.inj (Option.some.inj h)
    exact ⟨by rw [heq]; rfl, .inl rfl, hblanks⟩
  · next heq =>
    obtain ⟨rfl, rfl⟩ := Prod.mk.inj (Option.some.inj h)
    refine ⟨by rw [heq, List.length_append]; rfl, .inr List.getLast?_concat, fun c hc ↦ ?_⟩
    rcases List.mem_append.1 hc with hc | hc
    · exact hblanks c hc
    · exact .inr (.inl (List.mem_singleton.1 hc))
  · next heq =>
    obtain ⟨rfl, rfl⟩ := Prod.mk.inj (Option.some.inj h)
    refine ⟨by rw [heq, List.length_append]; rfl, .inr (by simp), fun c hc ↦ ?_⟩
    rcases List.mem_append.1 hc with hc | hc
    · exact hblanks c hc
    · simp only [List.mem_cons, List.not_mem_nil, or_false] at hc
      exact .inr hc.symm
  · cases h

/-- Whether the text is the remainder of a line: spaces and tabs, and a line break behind them. -/
def IsLineEnd (t : List Char) : Prop :=
  ∃ blanks, (∀ c ∈ blanks, isInline c = true) ∧
    (t = blanks ++ ['\n'] ∨ t = blanks ++ ['\r', '\n'])

theorem IsLineEnd.ne_nil {t : List Char} (h : IsLineEnd t) : t ≠ [] := by
  obtain ⟨blanks, -, rfl | rfl⟩ := h <;> simp

theorem IsLineEnd.getLast? {t : List Char} (h : IsLineEnd t) : t.getLast? = some '\n' := by
  obtain ⟨blanks, -, rfl | rfl⟩ := h <;> simp

/-- The remainder of a line is cut off what follows it. -/
theorem IsLineEnd.lineEnd?_append {t : List Char} (h : IsLineEnd t) (rest : List Char) :
    lineEnd? (t ++ rest) = some (t, rest) := by
  obtain ⟨blanks, hblanks, rfl | rfl⟩ := h
  all_goals
    rw [List.append_assoc, lineEnd?, List.takeWhile_append_of_pos hblanks,
      List.dropWhile_append_of_pos hblanks]
    simp [isInline]

/-- A line end has its line break, or the text ends without one. -/
theorem isLineEnd_or_of_lineEnd? {t ending rest : List Char}
    (h : lineEnd? t = some (ending, rest)) :
    IsLineEnd ending ∨ rest = [] ∧ ∀ c ∈ ending, isInline c = true := by
  have hblanks : ∀ c ∈ t.takeWhile isInline, isInline c = true :=
    List.all_eq_true.1 List.all_takeWhile
  simp only [lineEnd?] at h
  split at h
  · obtain ⟨rfl, rfl⟩ := Prod.mk.inj (Option.some.inj h)
    exact .inr ⟨rfl, hblanks⟩
  · obtain ⟨rfl, -⟩ := Prod.mk.inj (Option.some.inj h)
    exact .inl ⟨_, hblanks, .inl rfl⟩
  · obtain ⟨rfl, -⟩ := Prod.mk.inj (Option.some.inj h)
    exact .inl ⟨_, hblanks, .inr rfl⟩
  · cases h

/-- A line end that something follows has its line break. -/
theorem isLineEnd_of_lineEnd? {t ending rest : List Char}
    (h : lineEnd? t = some (ending, rest)) (hrest : rest ≠ []) : IsLineEnd ending :=
  (isLineEnd_or_of_lineEnd? h).resolve_right fun hend ↦ hrest hend.1

theorem isSome_lineEnd?_iff {t : List Char} : (lineEnd? t).isSome = true ↔ BlankUntilBreak t := by
  have hsplit := List.takeWhile_append_dropWhile (p := isInline) (l := t)
  have hblanks : ∀ c ∈ t.takeWhile isInline, isInline c = true :=
    List.all_eq_true.1 List.all_takeWhile
  constructor
  · intro h
    refine ⟨_, _, hsplit.symm, hblanks, ?_⟩
    simp only [lineEnd?] at h
    split at h
    · next heq => exact .inl heq
    · next rest heq => exact .inr (.inl ⟨rest, heq.symm⟩)
    · next rest heq => exact .inr (.inr ⟨rest, heq.symm⟩)
    · cases h
  · rintro ⟨blanks, others, rfl, hall, hothers⟩
    -- the blanks are all there are: what follows them is no blank
    have hdrop : (blanks ++ others).dropWhile isInline = others := by
      rw [List.dropWhile_append_of_pos hall]
      rcases hothers with rfl | ⟨rest, rfl⟩ | ⟨rest, rfl⟩ <;> rfl
    simp only [lineEnd?, hdrop]
    rcases hothers with rfl | ⟨rest, rfl⟩ | ⟨rest, rfl⟩ <;> rfl

instance (t : List Char) : Decidable (EndsAtLineStart t) :=
  inferInstanceAs (Decidable (t = [] ∨ t.getLast? = some '\n'))

instance (t : List Char) : Decidable (BlankSinceBreak t) :=
  decidable_of_iff _ blankSinceBreak_iff.symm

instance (t : List Char) : Decidable (BlankUntilBreak t) :=
  decidable_of_iff _ isSome_lineEnd?_iff

end Text

/-! ### The text in front of a tag -/

/-- The two ways of parting the text in front of a tag. -/
theorem Lead.ofText_eq (atLineStart : Bool) (text : List Char) :
    ofText atLineStart text =
      if (ofText atLineStart text).startsLine then
        ⟨Text.dropRightWhile Text.isInline text, Text.takeRightWhile Text.isInline text, true⟩
      else ⟨text, [], false⟩ := by
  simp only [ofText]
  split <;> rfl

namespace Cursor

/-! ### A step taken apart -/

/-- What a step that reads a token has found: the text behind the opening delimiter, what stands
between the delimiters, and the text behind the closing one. -/
structure Passage (c : Cursor) (t : Token) (next : Cursor) (inside raw behind : List Char) :
    Prop where
  cut_opening : Text.cut? c.delimiters.opening c.rest = some (t.before ++ t.padding, inside)
  body : body? c.delimiters inside = some (raw, behind)
  trim_ne_nil : Text.trim raw ≠ []
  directive : Directive.ofBody? (Text.trim raw) = some t.directive
  written : t.written = c.delimiters.opening ++ (raw ++ c.delimiters.closing)
  before : t.before = (Lead.ofText c.atLineStart (t.before ++ t.padding)).before
  padding : t.padding = (Lead.ofText c.atLineStart (t.before ++ t.padding)).padding
  /-- What the token takes of the text behind it. -/
  taken : takenLineEnd? (Lead.ofText c.atLineStart (t.before ++ t.padding)) (Text.trim raw) behind =
    t.lineEnd?.map fun ending ↦ (ending, next.rest)
  behind_eq : behind = t.lineEnd?.getD [] ++ next.rest
  atLineStart : next.atLineStart = t.lineEnd?.isSome
  delimiters : next.delimiters = c.delimitersAfter t.directive

theorem exists_passage_of_step {c next : Cursor} {t : Token} (h : c.step = .token t next) :
    ∃ inside raw behind, Passage c t next inside raw behind := by
  obtain ⟨text, inside, raw, behind, directive, htext, hbody, hne, hdirective, htag⟩ :=
    exists_tagStep_of_step h
  have hlead := Lead.before_append_padding c.atLineStart text
  refine ⟨inside, raw, behind, ?_⟩
  simp only [tagStep] at htag
  split at htag
  · next hnone =>
    obtain ⟨rfl, rfl⟩ := Step.token.inj htag
    constructor <;> simp [hlead, htext, hbody, hne, hdirective, hnone]
  · next ending rest hsome =>
    obtain ⟨rfl, rfl⟩ := Step.token.inj htag
    have hbehind : behind = ending ++ rest := by
      unfold takenLineEnd? at hsome
      split at hsome
      · exact (Text.append_of_lineEnd? hsome).symm
      · cases hsome
    subst hbehind
    constructor <;> simp [hlead, htext, hbody, hne, hdirective, hsome]

/-- The text is finished where no opening delimiter is left, with the delimiters in effect. -/
theorem cut?_of_step_finished {c : Cursor} {text : List Char} {d : Delimiters}
    (h : c.step = .stop (.finished text d)) :
    Text.cut? c.delimiters.opening c.rest = none ∧ text = c.rest ∧ d = c.delimiters := by
  unfold step at h
  split at h
  · next hcut =>
    cases h
    exact ⟨hcut, rfl, rfl⟩
  · split at h
    · cases h
    · split at h
      · cases h
      · split at h
        · cases h
        · unfold tagStep at h
          split at h <;> cases h

/-! ### What a position knows of its line -/

/-- Whether the bit of a position agrees with the text in front of it. At the end of the template
nothing is asked of it. -/
def Placed (front : List Char) (c : Cursor) : Prop :=
  c.rest = [] ∨ (c.atLineStart = true ∧ Text.EndsAtLineStart front) ∨
    (c.atLineStart = false ∧
      ∃ x, front.getLast? = some x ∧ x ≠ '\n' ∧ Text.isInline x = false)

theorem placed_start (template : List Char) : Placed [] (start template) :=
  .inr (.inl ⟨rfl, .inl rfl⟩)

/-- A delimiter ends with a character that is neither blank nor a line break. -/
theorem exists_getLast?_of_usable {mark : List Char} (h : Usable mark) :
    ∃ x, mark.getLast? = some x ∧ x ≠ '\n' ∧ Text.isInline x = false := by
  obtain ⟨hne, hall⟩ := h
  refine ⟨mark.getLast hne, List.getLast?_eq_some_getLast hne, ?_⟩
  have hsep := (hall _ (List.getLast_mem hne)).2
  simp only [Text.isSeparator, Bool.or_eq_false_iff, beq_eq_false_iff_ne] at hsep
  obtain ⟨⟨⟨⟨hspace, htab⟩, hfeed⟩, -⟩, -⟩ := hsep
  exact ⟨hfeed, by simp [Text.isInline, hspace, htab]⟩

/-- No character of a line end is in a delimiter. -/
theorem not_mem_of_isLineEndChar {mark : List Char} (h : Usable mark) {c : Char}
    (hc : Text.IsLineEndChar c) : c ∉ mark := by
  intro hmem
  have hsep := (h.2 c hmem).2
  simp only [Text.isSeparator, Bool.or_eq_false_iff, beq_eq_false_iff_ne] at hsep
  obtain ⟨⟨⟨⟨hspace, htab⟩, hfeed⟩, -⟩, hreturn⟩ := hsep
  rcases hc with hc | rfl | rfl
  · simp [Text.isInline, hspace, htab] at hc
  · exact hfeed rfl
  · exact hreturn rfl

variable {c next : Cursor} {t : Token} {front inside raw behind : List Char}

namespace Passage

variable (p : Passage c t next inside raw behind)
include p

theorem rest_ne_nil : c.rest ≠ [] := by
  intro hnil
  have hcut := p.cut_opening
  rw [hnil, Text.cut?_nil, if_neg c.delimiters.opening_usable.1] at hcut
  cases hcut

/-- The line end a token takes, with what is said of it. -/
theorem lineEnd?_eq_of_some {ending : List Char} (h : t.lineEnd? = some ending) :
    Text.lineEnd? behind = some (ending, next.rest) := by
  have htaken := p.taken
  rw [h] at htaken
  unfold takenLineEnd? at htaken
  split at htaken
  · exact htaken
  · cases htaken

/-- **The invariant of reading** is kept by a step. -/
theorem placed_next : Placed (front ++ t.source) next := by
  cases hend : t.lineEnd? with
  | none =>
    obtain ⟨x, hx, hfeed, hblank⟩ := exists_getLast?_of_usable c.delimiters.closing_usable
    refine .inr (.inr ⟨by rw [p.atLineStart, hend]; rfl, x, ?_, hfeed, hblank⟩)
    rw [Token.source, hend, p.written]
    simp [hx]
  | some ending =>
    obtain ⟨-, hrest | hlast, -⟩ := Text.lineEnd?_eq_some (p.lineEnd?_eq_of_some hend)
    · exact .inl hrest
    · refine .inr (.inl ⟨by rw [p.atLineStart, hend]; rfl, .inr ?_⟩)
      rw [Token.source, hend]
      simp [hlast]

/-- Only blanks are in front of the tag on its line exactly when the step has found so. -/
theorem startsLine_iff (hplaced : Placed front c) :
    (Lead.ofText c.atLineStart (t.before ++ t.padding)).startsLine = true ↔
      Text.BlankSinceBreak (front ++ (t.before ++ t.padding)) := by
  generalize t.before ++ t.padding = text
  have hsplit := Text.dropRightWhile_append_takeRightWhile Text.isInline text
  have hblanks : ∀ c ∈ Text.takeRightWhile Text.isInline text, Text.isInline c = true :=
    fun c hc ↦ Text.of_mem_takeRightWhile hc
  rw [Text.blankSinceBreak_iff, ← hsplit, ← List.append_assoc,
    Text.dropRightWhile_append_of_all _ hblanks, hsplit]
  cases hlast : (Text.dropRightWhile Text.isInline text).getLast? with
  | some x =>
    -- the text has something on the line of the tag, or a line break
    have hx := Text.of_getLast?_dropRightWhile hlast
    have hne : Text.dropRightWhile Text.isInline text ≠ [] := by
      intro hnil
      rw [hnil] at hlast
      cases hlast
    rw [Text.dropRightWhile_eq_self (by simp [hlast, hx])]
    by_cases hfeed : x = '\n' <;>
      simp [Lead.ofText, hlast, Text.EndsAtLineStart, hfeed, hne]
  | none =>
    -- the text is blank, and the line goes on from the position
    have hnil := List.getLast?_eq_none_iff.1 hlast
    rcases hplaced with hrest | ⟨hstart, hfront⟩ | ⟨hstart, x, hx, hfeed, hblank⟩
    · exact absurd hrest p.rest_ne_nil
    · rw [hnil, List.append_nil,
        Text.dropRightWhile_eq_self fun c ↦ hfront.not_isInline_of_getLast?]
      simp [Lead.ofText, hnil, hstart, hfront]
    · have hne : front ≠ [] := by rintro rfl; cases hx
      rw [hnil, List.append_nil, Text.dropRightWhile_eq_self (by simp [hx, hblank])]
      simp [Lead.ofText, hnil, hstart, Text.EndsAtLineStart, hx, hfeed, hne]

/-- **A tag takes the end of its line exactly when it stands alone**: when its kind may, and the
whole template has nothing but spaces and tabs around it on its line. -/
theorem isSome_lineEnd?_iff (hplaced : Placed front c) :
    t.lineEnd?.isSome = true ↔
      mayStandAlone (Text.trim raw) = true ∧
        Text.BlankSinceBreak (front ++ (t.before ++ t.padding)) ∧ Text.BlankUntilBreak behind := by
  have htaken := congrArg Option.isSome p.taken
  rw [Option.isSome_map] at htaken
  rw [← htaken, ← p.startsLine_iff hplaced, ← Text.isSome_lineEnd?_iff, takenLineEnd?]
  split
  · next hmay =>
    rw [Bool.and_eq_true] at hmay
    simp [hmay]
  · next hmay =>
    rw [Bool.and_eq_true, not_and] at hmay
    simp only [Option.isSome_none, Bool.false_eq_true, false_iff]
    rintro ⟨hkind, hstart, -⟩
    exact hmay hstart hkind

/-- The text in front of a position does not end with a space or a tab. -/
theorem not_isInline_of_getLast?_front (hplaced : Placed front c) {x : Char}
    (hx : front.getLast? = some x) : Text.isInline x = false := by
  rcases hplaced with hrest | ⟨-, hfront⟩ | ⟨-, y, hy, -, hblank⟩
  · exact absurd hrest p.rest_ne_nil
  · exact hfront.not_isInline_of_getLast? hx
  · obtain rfl : x = y := Option.some.inj (hx.symm.trans hy)
    exact hblank

/-- The padding of a tag that stands alone is all the spaces and tabs in front of it. -/
theorem takeRightWhile_eq_padding (hplaced : Placed front c) (halone : t.lineEnd?.isSome = true) :
    Text.takeRightWhile Text.isInline (front ++ (t.before ++ t.padding)) = t.padding := by
  have hstarts := (p.startsLine_iff hplaced).2 ((p.isSome_lineEnd?_iff hplaced).1 halone).2.1
  have hbefore := p.before
  have hpadding := p.padding
  rw [Lead.ofText_eq, if_pos hstarts] at hbefore hpadding
  have hblanks : ∀ x ∈ t.padding, Text.isInline x = true := by
    rw [hpadding]
    exact fun x hx ↦ Text.of_mem_takeRightWhile hx
  rw [← List.append_assoc, Text.takeRightWhile_append_of_all _ hblanks,
    Text.takeRightWhile_eq_nil, List.nil_append]
  intro x hx
  rw [List.getLast?_append] at hx
  cases hlast : t.before.getLast? with
  | none =>
    rw [hlast] at hx
    exact p.not_isInline_of_getLast?_front hplaced hx
  | some y =>
    rw [hlast] at hx
    obtain rfl : y = x := Option.some.inj hx
    rw [hbefore] at hlast
    exact Text.of_getLast?_dropRightWhile hlast

end Passage

end Cursor

end Mustache
