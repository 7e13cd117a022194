import Mustache.Proofs.Indentation

/-!
# Indented lines

What a margin does to a text, line by line. A line is looked at here the way a tag that stands alone
looks at the end of its own: a carriage return in front of the line feed belongs to the break.

* `rows_indent` — an indented text has the lines of the text, in order and with the same ends, and
  every one with the margin but those that are a line feed and nothing else.
* `rows_indent_eq_iff` — empty lines are left alone where none of them is ended by carriage return
  and line feed. Such a line is empty as well, and it does get the margin: `Text.indent` compares
  lines with the one break that it splits a text at.
-/

namespace Mustache

namespace Text

/-- A line, with what ends it apart. -/
structure Row where
  content : List Char
  ending : List Char
  deriving DecidableEq

namespace Row

/-- An empty line that a line feed ends. -/
def feed : Row :=
  ⟨[], ['\n']⟩

/-- An empty line that a carriage return and a line feed end. -/
def returnFeed : Row :=
  ⟨[], ['\r', '\n']⟩

/-- The line as it stands in a text. -/
def text (r : Row) : List Char :=
  r.content ++ r.ending

/-- The line behind a margin. -/
def behind (margin : List Char) (r : Row) : Row :=
  ⟨margin ++ r.content, r.ending⟩

/-- The line behind a margin, unless it is empty. -/
def behindUnlessEmpty (margin : List Char) (r : Row) : Row :=
  if r.content = [] then r else r.behind margin

/-- The line behind a margin, unless it is a line feed. -/
def behindUnlessFeed (margin : List Char) (r : Row) : Row :=
  if r = feed then r else r.behind margin

end Row

/-- Texts taken apart at every break, and nowhere else. The last line may have no end, and is not
empty then. -/
inductive AreLines : List Row → Prop
  | nil : AreLines []
  | unended {content : List Char} (hline : '\n' ∉ content) (hne : content ≠ []) :
    AreLines [⟨content, []⟩]
  | feed {content : List Char} {rs : List Row} (hline : '\n' ∉ content)
    (hreturn : content.getLast? ≠ some '\r') (hrs : AreLines rs) :
    AreLines (⟨content, ['\n']⟩ :: rs)
  | returnFeed {content : List Char} {rs : List Row} (hline : '\n' ∉ content)
    (hrs : AreLines rs) : AreLines (⟨content, ['\r', '\n']⟩ :: rs)

/-- The line with a character in front of it. -/
def Row.cons (c : Char) (r : Row) : Row :=
  if c = '\r' ∧ r = .feed then .returnFeed else ⟨c :: r.content, r.ending⟩

/-- The lines with a character in front of the first one, which is there at the latest then. -/
def consRow (c : Char) (rs : List Row) : List Row :=
  (rs.headD ⟨[], []⟩).cons c :: rs.tail

/-- The lines of a text. The last one may have no end. -/
def rows (t : List Char) : List Row :=
  t.foldr (fun c rs ↦ if c = '\n' then .feed :: rs else consRow c rs) []

theorem rows_feed (t : List Char) : rows ('\n' :: t) = .feed :: rows t := rfl

theorem rows_cons {c : Char} (hc : c ≠ '\n') (t : List Char) : rows (c :: t) = consRow c (rows t) :=
  if_neg hc

theorem Row.text_cons (c : Char) (r : Row) : (r.cons c).text = c :: r.text := by
  unfold cons
  split
  · next h =>
    obtain ⟨rfl, rfl⟩ := h
    rfl
  · rfl

/-- A character is no line feed at the start of a line. -/
theorem Row.cons_ne_feed (c : Char) (r : Row) : r.cons c ≠ .feed := by
  unfold cons
  split
  · decide
  · exact fun h ↦ nomatch congrArg content h

theorem flatMap_consRow (c : Char) (rs : List Row) :
    (consRow c rs).flatMap Row.text = c :: rs.flatMap Row.text := by
  rw [consRow, List.flatMap_cons, Row.text_cons]
  cases rs <;> rfl

/-- The lines make up the text. -/
theorem flatMap_rows (t : List Char) : (rows t).flatMap Row.text = t := by
  induction t with
  | nil => rfl
  | cons c t ih =>
    by_cases hc : c = '\n'
    · rw [hc, rows_feed, List.flatMap_cons, ih]
      rfl
    · rw [rows_cons hc, flatMap_consRow, ih]

theorem areLines_consRow {c : Char} (hc : c ≠ '\n') {rs : List Row} (h : AreLines rs) :
    AreLines (consRow c rs) := by
  have hmem {content : List Char} (hline : '\n' ∉ content) : '\n' ∉ c :: content :=
    List.not_mem_cons_of_ne_of_not_mem hc.symm hline
  have hcons (content ending : List Char) (hne : ending ≠ ['\n']) :
      Row.cons c ⟨content, ending⟩ = ⟨c :: content, ending⟩ :=
    if_neg fun h ↦ hne (Row.mk.inj h.2).2
  rw [consRow]
  cases h with
  | nil =>
    rw [List.headD_nil, hcons [] [] (by decide)]
    exact .unended (hmem List.not_mem_nil) (List.cons_ne_nil c [])
  | @unended content hline _ =>
    rw [List.headD_cons, hcons content [] (by decide)]
    exact .unended (hmem hline) (List.cons_ne_nil c content)
  | @returnFeed content rs hline hrs =>
    rw [List.headD_cons, hcons content ['\r', '\n'] (by decide)]
    exact .returnFeed (hmem hline) hrs
  | @feed content rs hline hreturn hrs =>
    rw [List.headD_cons, Row.cons]
    split
    · exact .returnFeed List.not_mem_nil hrs
    · next hnot =>
      refine .feed (hmem hline) ?_ hrs
      rcases content with - | ⟨d, content⟩
      · exact fun h ↦ hnot ⟨Option.some.inj h, rfl⟩
      · rwa [List.getLast?_cons_cons]

/-- The lines of a text are that. -/
theorem areLines_rows (t : List Char) : AreLines (rows t) := by
  induction t with
  | nil => exact .nil
  | cons c t ih =>
    by_cases hc : c = '\n'
    · rw [hc, rows_feed]
      exact .feed List.not_mem_nil (by decide) ih
    · rw [rows_cons hc]
      exact areLines_consRow hc ih

theorem AreLines.eq_feed_or_eq_returnFeed {rs : List Row} (h : AreLines rs) {r : Row} (hr : r ∈ rs)
    (hempty : r.content = []) : r = .feed ∨ r = .returnFeed := by
  obtain ⟨content, ending⟩ := r
  obtain rfl : content = [] := hempty
  induction h with
  | nil => cases hr
  | unended _ hne =>
    obtain ⟨heq, -⟩ := Row.mk.inj (List.mem_singleton.1 hr)
    exact absurd heq.symm hne
  | feed _ _ _ ih =>
    rcases List.mem_cons.1 hr with heq | hr
    · exact .inl (by rw [Row.feed, (Row.mk.inj heq).2])
    · exact ih hr
  | returnFeed _ _ ih =>
    rcases List.mem_cons.1 hr with heq | hr
    · exact .inr (by rw [Row.returnFeed, (Row.mk.inj heq).2])
    · exact ih hr

/-! ### Margins -/

section

variable {margin : List Char} (hmargin : ∀ c ∈ margin, isInline c = true)

include hmargin

/-- A margin in front of a text is in front of its first line. -/
theorem rows_append_of_isInline {t : List Char} {r : Row} {rs : List Row} (h : rows t = r :: rs) :
    rows (margin ++ t) = r.behind margin :: rs := by
  induction margin with
  | nil => exact h
  | cons c margin ih =>
    obtain ⟨hc, hmargin⟩ := List.forall_mem_cons.1 hmargin
    have hfeed : c ≠ '\n' := by rintro rfl; cases hc
    have hreturn : c ≠ '\r' := by rintro rfl; cases hc
    rw [List.cons_append, rows_cons hfeed, ih hmargin, consRow, List.headD_cons, Row.cons,
      if_neg fun h ↦ hreturn h.1]
    rfl

/-- Behind the start of a line the rest of that line has no margin, and all further lines do. -/
theorem rows_indentFrom (t : List Char) :
    rows (indentFrom margin true t) = (rows t).map (Row.behindUnlessFeed margin) ∧
      (rows (indentFrom margin false t)).headD ⟨[], []⟩ = (rows t).headD ⟨[], []⟩ ∧
      (rows (indentFrom margin false t)).tail =
        (rows t).tail.map (Row.behindUnlessFeed margin) := by
  induction t with
  | nil => exact ⟨rfl, rfl, rfl⟩
  | cons c t ih =>
    obtain ⟨htrue, hhead, htail⟩ := ih
    by_cases hc : c = '\n'
    · rw [hc, indentFrom_feed, indentFrom_feed, rows_feed, rows_feed, htrue]
      exact ⟨rfl, rfl, rfl⟩
    · have hline : rows (c :: indentFrom margin false t) =
          ((rows t).headD ⟨[], []⟩).cons c :: (rows t).tail.map (Row.behindUnlessFeed margin) := by
        rw [rows_cons hc, consRow, hhead, htail]
      rw [indentFrom_cons margin hc, indentFrom_cons_false margin hc, rows_cons hc]
      refine ⟨?_, by rw [hline]; rfl, by rw [hline]; rfl⟩
      rw [marginAt, if_pos rfl, rows_append_of_isInline hmargin hline, consRow, List.map_cons,
        Row.behindUnlessFeed, if_neg (Row.cons_ne_feed c _)]

/-- **Indenting a text is indenting its lines**, up to those that are a line feed. -/
theorem rows_indent (t : List Char) :
    rows (indent margin t) = (rows t).map (Row.behindUnlessFeed margin) := by
  rw [indent_eq_indentFrom]
  exact (rows_indentFrom hmargin t).1

/-- Empty lines are left alone exactly where a line feed ends all of them. -/
theorem rows_indent_eq_iff (hne : margin ≠ []) (t : List Char) :
    rows (indent margin t) = (rows t).map (Row.behindUnlessEmpty margin) ↔
      Row.returnFeed ∉ rows t := by
  rw [rows_indent hmargin, List.map_inj_left]
  constructor
  · intro hsame hmem
    -- this line is empty and no line feed
    have hcontent : margin ++ [] = [] := congrArg Row.content (hsame .returnFeed hmem)
    exact hne (List.append_eq_nil_iff.1 hcontent).1
  · intro hnot r hr
    rw [Row.behindUnlessEmpty]
    split
    · next hempty =>
      rcases (areLines_rows t).eq_feed_or_eq_returnFeed hr hempty with rfl | rfl
      · rfl
      · exact absurd hr hnot
    · next hfull =>
      exact if_neg fun h ↦ hfull (congrArg Row.content h)

end

end Text

/-- **A margin is put in front of every line of a text that is more than a line feed, and once.**
The lines are the ones of the text and end the way they did, nothing is put behind the last end of
a line, and margins add up. An empty line that ends with a carriage return and a line feed gets a
margin too: empty lines are left alone exactly where there is none. -/
theorem indented_line_by_line {margin : List Char} (hne : margin ≠ [])
    (hmargin : ∀ c ∈ margin, Text.isInline c = true) (t : List Char) :
    (Text.AreLines (Text.rows t) ∧ (Text.rows t).flatMap Text.Row.text = t) ∧
    Text.rows (Text.indent margin t) =
      (Text.rows t).map (Text.Row.behindUnlessFeed margin) ∧
    (Text.rows (Text.indent margin t) = (Text.rows t).map (Text.Row.behindUnlessEmpty margin) ↔
      Text.Row.returnFeed ∉ Text.rows t) ∧
    (Text.indent margin t).getLast? = t.getLast? ∧
    ∀ further, Text.indent further (Text.indent margin t) = Text.indent (further ++ margin) t := by
  refine ⟨⟨Text.areLines_rows t, Text.flatMap_rows t⟩, Text.rows_indent hmargin t,
    Text.rows_indent_eq_iff hmargin hne t, ?_, fun further ↦ ?_⟩
  · rw [Text.indent_eq_indentFrom, Text.getLast?_indentFrom]
  · have hfeed : '\n' ∉ margin := fun h ↦ nomatch hmargin _ h
    exact (Text.indent_append further hfeed t).symm

/-- Lines with either end and without one, with blanks in them only and with nothing. -/
theorem indented_line_by_line_of_either_end :
    let margin := " \t".toList
    let t := "a\n\n \r\n\r\nb".toList
    margin ≠ [] ∧ (∀ c ∈ margin, Text.isInline c = true) ∧
      Text.rows (Text.indent margin t) =
        [⟨" \ta".toList, ['\n']⟩, .feed, ⟨" \t ".toList, ['\r', '\n']⟩,
          ⟨" \t".toList, ['\r', '\n']⟩, ⟨" \tb".toList, []⟩] ∧
      Text.rows (Text.indent margin t) ≠ (Text.rows t).map (Text.Row.behindUnlessEmpty margin) := by
  intro margin t
  have hne : margin ≠ [] := by decide
  have hmargin : ∀ c ∈ margin, Text.isInline c = true := List.all_eq_true.1 (by decide)
  have hreturn : Text.Row.returnFeed ∈ Text.rows t := by decide
  obtain ⟨-, hrows, hempty, -⟩ := indented_line_by_line hne hmargin t
  exact ⟨hne, hmargin, hrows.trans (by decide), fun h ↦ hempty.1 h hreturn⟩

/-- An empty line gets a margin when a carriage return is in front of its line feed. -/
theorem empty_line_is_indented_of_return_feed :
    let margin := "  ".toList
    let t := "a\r\n\r\nb".toList
    Text.rows t = [⟨['a'], ['\r', '\n']⟩, .returnFeed, ⟨['b'], []⟩] ∧
      Text.indent margin t = "  a\r\n  \r\n  b".toList ∧
      ((Text.rows t).map (Text.Row.behindUnlessEmpty margin)).flatMap Text.Row.text =
        "  a\r\n\r\n  b".toList ∧
      Text.rows (Text.indent margin t) ≠
        (Text.rows t).map (Text.Row.behindUnlessEmpty margin) := by
  decide

end Mustache
