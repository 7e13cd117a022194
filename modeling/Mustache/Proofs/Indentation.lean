import Mustache.Proofs.Seam

/-!
# Indented texts

A margin in front of every line is put there after line breaks and nowhere else. Whatever takes a
text apart finds the same parts in the indented text, each indented, as long as it looks for nothing
that a margin could be mistaken for or could part.

`indentFrom` is the indentation with the knowledge of whether the text itself starts a line, which
makes it a recursion, and one that goes on behind a part (`indentFrom_append`). The part in front of
something that starts in the middle of a text takes the margin in front of that along (`stretch`).
-/

namespace Mustache

namespace Text

/-- What holds of the space and of the tab holds of what stays within a line. -/
theorem of_isInline {p : Char → Bool} {c : Char} (h : isInline c = true) (hspace : p ' ' = true)
    (htab : p '\t' = true) : p c = true := by
  rw [isInline, Bool.or_eq_true, beq_iff_eq, beq_iff_eq] at h
  rcases h with rfl | rfl
  · exact hspace
  · exact htab

/-- The margin in front of what is no line feed. -/
def marginAt (margin : List Char) (atLineStart : Bool) : List Char :=
  if atLineStart then margin else []

/-- The text with a margin in front of every line that is more than a line feed. The text itself
starts where a line does or not. -/
def indentFrom (margin : List Char) : Bool → List Char → List Char
  | _, [] => []
  | atLineStart, c :: t =>
    if c = '\n' then '\n' :: indentFrom margin true t
    else marginAt margin atLineStart ++ c :: indentFrom margin false t

/-- The indented text with the margin of the line that starts behind it, if one does. -/
def stretch (margin : List Char) (atLineStart : Bool) (t : List Char) : List Char :=
  indentFrom margin atLineStart t ++ marginAt margin (lineStartsBehind atLineStart t)

section

variable (margin : List Char)

theorem indentFrom_feed (atLineStart : Bool) (t : List Char) :
    indentFrom margin atLineStart ('\n' :: t) = '\n' :: indentFrom margin true t := by
  rw [indentFrom, if_pos rfl]

/-- Any character but a line feed gets the margin in front if it starts its line. -/
theorem indentFrom_cons {c : Char} (hc : c ≠ '\n') (atLineStart : Bool) (t : List Char) :
    indentFrom margin atLineStart (c :: t) =
      marginAt margin atLineStart ++ c :: indentFrom margin false t := by
  rw [indentFrom, if_neg hc]

theorem indentFrom_cons_false {c : Char} (hc : c ≠ '\n') (t : List Char) :
    indentFrom margin false (c :: t) = c :: indentFrom margin false t :=
  indentFrom_cons margin hc false t

/-- What is behind a part is indented by where the part ends. -/
theorem indentFrom_append (atLineStart : Bool) (t u : List Char) :
    indentFrom margin atLineStart (t ++ u) =
      indentFrom margin atLineStart t ++ indentFrom margin (lineStartsBehind atLineStart t) u := by
  induction t generalizing atLineStart with
  | nil => rfl
  | cons c t ih =>
    have hbehind : lineStartsBehind atLineStart (c :: t) = lineStartsBehind (c == '\n') t :=
      lineStartsBehind_append atLineStart [c] t
    rw [hbehind, List.cons_append]
    by_cases hc : c = '\n'
    · rw [hc, indentFrom_feed, indentFrom_feed, ih]
      rfl
    · rw [indentFrom_cons margin hc, indentFrom_cons margin hc, ih, beq_false_of_ne hc,
        List.append_assoc]
      rfl

/-- A part in front of something that is no line feed takes its margin along. -/
theorem indentFrom_append_cons {c : Char} (hc : c ≠ '\n') (atLineStart : Bool) (t u : List Char) :
    indentFrom margin atLineStart (t ++ c :: u) =
      stretch margin atLineStart t ++ indentFrom margin false (c :: u) := by
  rw [indentFrom_append, indentFrom_cons margin hc, indentFrom_cons_false margin hc, stretch,
    List.append_assoc]

theorem indentFrom_concat {c : Char} (hc : c ≠ '\n') (atLineStart : Bool) (t : List Char) :
    indentFrom margin atLineStart (t ++ [c]) = stretch margin atLineStart t ++ [c] := by
  rw [indentFrom_append_cons margin hc, indentFrom_cons_false margin hc]
  rfl

theorem indentFrom_of_not_mem {t : List Char} (h : '\n' ∉ t) : indentFrom margin false t = t := by
  induction t with
  | nil => rfl
  | cons c t ih =>
    rw [indentFrom_cons_false margin fun hc ↦ h (hc ▸ List.mem_cons_self),
      ih fun ht ↦ h (List.mem_cons_of_mem c ht)]

theorem head?_indentFrom (t : List Char) : (indentFrom margin false t).head? = t.head? := by
  rcases t with - | ⟨c, t⟩
  · rfl
  · by_cases hc : c = '\n'
    · rw [hc, indentFrom_feed]
      rfl
    · rw [indentFrom_cons_false margin hc]
      rfl

/-- No line starts behind a text that ends within one. -/
theorem lineStartsBehind_of_getLast? {t : List Char} (h : t.getLast? ≠ some '\n') :
    lineStartsBehind false t = false := by
  rw [lineStartsBehind]
  rcases hlast : t.getLast? with - | c
  · rfl
  · exact beq_false_of_ne fun hc ↦ h (hc ▸ hlast)

theorem lineStartsBehind_of_not_mem {t : List Char} (h : '\n' ∉ t) :
    lineStartsBehind false t = false :=
  lineStartsBehind_of_getLast? fun hlast ↦ h (List.mem_of_getLast? hlast)

/-- The lines of a text, indented one by one, are the text indented. -/
theorem indent_eq_indentFrom (t : List Char) : indent margin t = indentFrom margin true t := by
  -- behind the start of a line the rest of that line has no margin
  have hboth : indentFrom margin true t = indent margin t ∧
      indentFrom margin false t = (lines t).headD [] ++
        (lines t).tail.flatMap fun line ↦ if line = ['\n'] then line else margin ++ line := by
    induction t with
    | nil => exact ⟨rfl, rfl⟩
    | cons c t ih =>
      obtain ⟨htrue, hfalse⟩ := ih
      rw [indent, lines_cons]
      by_cases hc : c = '\n'
      · rw [if_pos hc, hc, indentFrom_feed, indentFrom_feed, htrue]
        exact ⟨rfl, rfl⟩
      · rw [if_neg hc, indentFrom_cons_false margin hc, indentFrom_cons margin hc, hfalse]
        have hline (line : List Char) : (c :: line) ≠ ['\n'] := fun h ↦ hc (List.cons.inj h).1
        rcases lines t with - | ⟨line, others⟩
        · exact ⟨by simp [consFirst, hline, marginAt], by simp [consFirst]⟩
        · exact ⟨by simp [consFirst, hline, marginAt], by simp [consFirst]⟩
  exact hboth.1.symm

/-- A margin is never the end of a text. -/
theorem getLast?_indentFrom (atLineStart : Bool) (t : List Char) :
    (indentFrom margin atLineStart t).getLast? = t.getLast? := by
  rcases List.eq_nil_or_concat t with rfl | ⟨front, c, rfl⟩
  · rfl
  · rw [List.concat_eq_append]
    by_cases hc : c = '\n'
    · rw [indentFrom_append, hc, indentFrom_feed, indentFrom, List.getLast?_concat,
        List.getLast?_concat]
    · rw [indentFrom_concat margin hc, List.getLast?_concat, List.getLast?_concat]

theorem stretch_feed (atLineStart : Bool) (t : List Char) :
    stretch margin atLineStart ('\n' :: t) = '\n' :: stretch margin true t := by
  have hbehind : lineStartsBehind atLineStart ('\n' :: t) = lineStartsBehind true t :=
    lineStartsBehind_append atLineStart ['\n'] t
  rw [stretch, hbehind, indentFrom_feed]
  rfl

theorem stretch_cons {c : Char} (hc : c ≠ '\n') (atLineStart : Bool) (t : List Char) :
    stretch margin atLineStart (c :: t) =
      marginAt margin atLineStart ++ c :: stretch margin false t := by
  have hbehind : lineStartsBehind atLineStart (c :: t) = lineStartsBehind (c == '\n') t :=
    lineStartsBehind_append atLineStart [c] t
  rw [stretch, hbehind, indentFrom_cons margin hc, beq_false_of_ne hc, List.append_assoc]
  rfl

/-- Nothing is put in front of a margin that is not there: a text that ends within a line is
stretched as it is indented. -/
theorem stretch_eq_indentFrom {t : List Char} {atLineStart : Bool}
    (h : lineStartsBehind atLineStart t = false) :
    stretch margin atLineStart t = indentFrom margin atLineStart t := by
  rw [stretch, h]
  exact List.append_nil _

/-- Behind a first part the margin goes on from where that part ends. -/
theorem stretch_append (atLineStart : Bool) (t u : List Char) :
    stretch margin atLineStart (t ++ u) =
      indentFrom margin atLineStart t ++ stretch margin (lineStartsBehind atLineStart t) u := by
  rw [stretch, indentFrom_append, lineStartsBehind_append, List.append_assoc]
  rfl

theorem stretch_append_cons {c : Char} (hc : c ≠ '\n') (atLineStart : Bool) (t u : List Char) :
    stretch margin atLineStart (t ++ c :: u) =
      stretch margin atLineStart t ++ stretch margin false (c :: u) := by
  rw [stretch_append, stretch_cons margin hc, stretch_cons margin hc]
  exact (List.append_assoc _ _ _).symm

theorem stretch_of_not_mem {t : List Char} (h : '\n' ∉ t) (atLineStart : Bool) :
    stretch margin atLineStart t = marginAt margin atLineStart ++ t := by
  rcases t with - | ⟨c, t⟩
  · exact (List.append_nil _).symm
  · have ht : '\n' ∉ t := fun hmem ↦ h (List.mem_cons_of_mem c hmem)
    rw [stretch_cons margin (fun hc ↦ h (hc ▸ List.mem_cons_self)),
      stretch_eq_indentFrom margin (lineStartsBehind_of_not_mem ht),
      indentFrom_of_not_mem margin ht]

/-- **Margins add up:** a text that is indented twice has both margins, the later one in front. -/
theorem indent_append {further : List Char} (h : '\n' ∉ further) (t : List Char) :
    indent (margin ++ further) t = indent margin (indent further t) := by
  have hfrom (atLineStart : Bool) : indentFrom (margin ++ further) atLineStart t =
      indentFrom margin atLineStart (indentFrom further atLineStart t) := by
    have hat (b : Bool) :
        marginAt (margin ++ further) b = stretch margin b (marginAt further b) := by
      cases b
      · rfl
      · exact (stretch_of_not_mem margin h true).symm
    induction t generalizing atLineStart with
    | nil => rfl
    | cons c t ih =>
      by_cases hc : c = '\n'
      · rw [hc, indentFrom_feed, indentFrom_feed, indentFrom_feed, ih]
      · rw [indentFrom_cons _ hc, indentFrom_cons _ hc, indentFrom_append_cons _ hc,
          indentFrom_cons_false _ hc, ih, hat]
  rw [indent_eq_indentFrom, indent_eq_indentFrom, indent_eq_indentFrom, hfrom]

/-- What holds of line feeds and of margins holds of a stretched text when it holds of the text. -/
theorem forall_mem_stretch {P : Char → Prop} (hmargin : ∀ c ∈ margin, P c) {t : List Char}
    (ht : ∀ c ∈ t, P c) (atLineStart : Bool) : ∀ c ∈ stretch margin atLineStart t, P c := by
  have hat (b : Bool) : ∀ c ∈ marginAt margin b, P c := by
    cases b
    · exact fun c hc ↦ absurd hc List.not_mem_nil
    · exact hmargin
  induction t generalizing atLineStart with
  | nil => exact hat atLineStart
  | cons c t ih =>
    have hrest := ih fun d hd ↦ ht d (List.mem_cons_of_mem c hd)
    by_cases hc : c = '\n'
    · rw [hc, stretch_feed]
      exact List.forall_mem_cons.2 ⟨hc ▸ ht c List.mem_cons_self, hrest true⟩
    · rw [stretch_cons margin hc]
      intro d hd
      rcases List.mem_append.1 hd with hd | hd
      · exact hat atLineStart d hd
      · exact List.forall_mem_cons.2 ⟨ht c List.mem_cons_self, hrest false⟩ d hd

end

section

variable {margin : List Char} (hmargin : ∀ c ∈ margin, isInline c = true)
include hmargin

/-! ### Lines -/

/-- Margins hold no line breaks. -/
theorem lineBreaks_stretch (atLineStart : Bool) (t : List Char) :
    lineBreaks (stretch margin atLineStart t) = lineBreaks t := by
  have hat (b : Bool) : lineBreaks (marginAt margin b) = 0 := by
    refine List.count_eq_zero_of_not_mem fun hmem ↦ ?_
    cases b
    · exact absurd hmem List.not_mem_nil
    · cases hmargin _ hmem
  induction t generalizing atLineStart with
  | nil => exact hat atLineStart
  | cons c t ih =>
    by_cases hc : c = '\n'
    · rw [hc, stretch_feed, lineBreaks, List.count_cons_self, lineBreaks, List.count_cons_self]
      exact congrArg (· + 1) (ih true)
    · have hcount (t : List Char) : lineBreaks (c :: t) = lineBreaks t :=
        List.count_cons_of_ne hc
      rw [stretch_cons margin hc, lineBreaks_append, hat, hcount, hcount, ih, Nat.zero_add]

omit hmargin in
/-- The remainder of a line stays as it is, and what is behind it is indented. -/
theorem lineEnd?_indentFrom (t : List Char) :
    lineEnd? (indentFrom margin false t) =
      (lineEnd? t).map fun parts ↦ (parts.1, indentFrom margin true parts.2) := by
  induction t using line_induction with
  | nil => rfl
  | inline c t hc ih =>
    have hfeed : c ≠ '\n' := fun hfeed ↦ nomatch hfeed ▸ hc
    rw [indentFrom_cons_false margin hfeed, lineEnd?_cons_of_isInline hc,
      lineEnd?_cons_of_isInline hc, ih, Option.map_map, Option.map_map]
    rfl
  | feed t =>
    rw [indentFrom_feed]
    rfl
  | carriage t =>
    rw [indentFrom_cons_false margin (by decide), indentFrom_feed]
    rfl
  | other c t hc hfeed hcarriage =>
    have hindented : c = '\r' → (indentFrom margin false t).head? ≠ some '\n' := by
      rwa [head?_indentFrom]
    rw [indentFrom_cons_false margin hfeed, lineEnd?_eq_none hc hfeed hcarriage,
      lineEnd?_eq_none hc hfeed hindented]
    rfl

/-! ### Marks -/

omit hmargin in
/-- A mark without line breaks at the start of an indented text is at the start of the text. -/
theorem prefix_of_prefix_indentFrom {mark t : List Char} (hmark : '\n' ∉ mark)
    (h : mark <+: indentFrom margin false t) : mark <+: t := by
  induction mark generalizing t with
  | nil => exact List.nil_prefix
  | cons m ms ih =>
    rcases t with - | ⟨c, t⟩
    · exact absurd h (by simp [indentFrom])
    · by_cases hc : c = '\n'
      · rw [hc, indentFrom_feed] at h
        exact absurd (List.cons_prefix_cons.1 h).1 fun hm ↦ hmark (hm ▸ List.mem_cons_self)
      · rw [indentFrom_cons_false margin hc] at h
        obtain ⟨rfl, hrest⟩ := List.cons_prefix_cons.1 h
        exact List.cons_prefix_cons.2 ⟨rfl, ih (fun hm ↦ hmark (List.mem_cons_of_mem _ hm)) hrest⟩

/-- **A mark is found where it is without the margins.** -/
theorem cut?_indentFrom {mark : List Char} (hne : mark ≠ [])
    (hmark : ∀ c ∈ mark, ¬ IsLineEndChar c) (atLineStart : Bool) (t : List Char) :
    cut? mark (indentFrom margin atLineStart t) =
      (cut? mark t).map fun parts ↦
        (stretch margin atLineStart parts.1, indentFrom margin false parts.2) := by
  have hfeed : '\n' ∉ mark := fun hm ↦ hmark _ hm (.inr (.inl rfl))
  have hskip (b : Bool) : ∀ c ∈ marginAt margin b, c ∉ mark := by
    cases b
    · exact fun c hc ↦ absurd hc List.not_mem_nil
    · exact fun c hc hm ↦ hmark c hm (.inl (hmargin c hc))
  induction t generalizing atLineStart with
  | nil =>
    rw [indentFrom, cut?_nil, if_neg hne]
    rfl
  | cons c t ih =>
    by_cases hc : c = '\n'
    · -- at a line feed no mark starts, and behind it the margin comes next
      have hfirst (t : List Char) : ¬ mark <+: '\n' :: t := by
        rcases mark with - | ⟨m, ms⟩
        · exact absurd rfl hne
        · exact fun hp ↦ hfeed ((List.cons_prefix_cons.1 hp).1 ▸ List.mem_cons_self)
      rw [hc, indentFrom_feed, cut?_cons, cut?_cons, isPrefixOf?_eq_none (hfirst _),
        isPrefixOf?_eq_none (hfirst _), ih, Option.map_map, Option.map_map]
      refine congrArg (Option.map · (cut? mark t)) (funext fun parts ↦ ?_)
      simp only [Function.comp_apply, stretch_feed]
    · rw [indentFrom_cons margin hc, cut?_append_of_disjoint hne (hskip atLineStart), cut?_cons,
        cut?_cons]
      by_cases hfirst : mark <+: c :: t
      · -- a mark has no line end in it, so no margin is put into it
        obtain ⟨behind, hbehind⟩ := hfirst
        have hstart : lineStartsBehind false mark = false := lineStartsBehind_of_not_mem hfeed
        have hindented :
            c :: indentFrom margin false t = mark ++ indentFrom margin false behind := by
          rw [← indentFrom_cons_false margin hc, ← hbehind, indentFrom_append,
            indentFrom_of_not_mem margin hfeed, hstart]
        rw [hindented, ← hbehind, isPrefixOf?_append, isPrefixOf?_append]
        exact congrArg (fun front ↦ some (front, indentFrom margin false behind))
          (List.append_nil _)
      · have hfirst' : ¬ mark <+: c :: indentFrom margin false t := by
          rw [← indentFrom_cons_false margin hc]
          exact fun hp ↦ hfirst (prefix_of_prefix_indentFrom hfeed hp)
        rw [isPrefixOf?_eq_none hfirst, isPrefixOf?_eq_none hfirst', ih, Option.map_map,
          Option.map_map, Option.map_map]
        refine congrArg (Option.map · (cut? mark t)) (funext fun parts ↦ ?_)
        simp only [Function.comp_apply, stretch_cons margin hc]

/-! ### Blanks at the ends -/

omit hmargin in
/-- Blanks at either end make no difference to what is between them. -/
theorem trim_append {front t behind : List Char} (hfront : ∀ c ∈ front, isBlank c = true)
    (hbehind : ∀ c ∈ behind, isBlank c = true) : trim (front ++ (t ++ behind)) = trim t := by
  rw [trim, List.dropWhile_append_of_pos hfront, List.dropWhile_append]
  split
  · next hnil =>
    have hdrop : behind.dropWhile isBlank = [] := by
      rw [← List.append_nil behind, List.dropWhile_append_of_pos hbehind]
      rfl
    rw [hdrop, trim, List.isEmpty_iff.1 hnil]
  · exact dropRightWhile_append_of_all _ hbehind

omit hmargin in
/-- Trimming takes blanks off both ends, and nothing else. -/
theorem exists_eq_append_trim (t : List Char) :
    ∃ front behind, t = front ++ (trim t ++ behind) ∧ (∀ c ∈ front, isBlank c = true) ∧
      ∀ c ∈ behind, isBlank c = true := by
  refine ⟨t.takeWhile isBlank, takeRightWhile isBlank (t.dropWhile isBlank), ?_,
    List.all_eq_true.1 List.all_takeWhile, fun c hc ↦ of_mem_takeRightWhile hc⟩
  rw [trim, dropRightWhile_append_takeRightWhile, List.takeWhile_append_dropWhile]

/-- **A text is trimmed to the same, indented.** -/
theorem trim_stretch (atLineStart : Bool) (t : List Char) :
    trim (stretch margin atLineStart t) = indentFrom margin false (trim t) := by
  have hblank : ∀ c ∈ margin, isBlank c = true :=
    fun c hc ↦ of_isInline (hmargin c hc) rfl rfl
  obtain ⟨front, behind, heq, hfront, hbehind⟩ := exists_eq_append_trim t
  have hfirst : ∀ c, (trim t).head? = some c → isBlank c = false :=
    fun c ↦ not_isBlank_of_head?_trim
  have hlast : ∀ c, (trim t).getLast? = some c → isBlank c = false :=
    fun c ↦ not_isBlank_of_getLast?_trim
  generalize trim t = core at heq hfirst hlast
  subst heq
  rcases core with - | ⟨c, core⟩
  · -- nothing but blanks
    have hall : ∀ c ∈ stretch margin atLineStart (front ++ ([] ++ behind)), isBlank c = true :=
      forall_mem_stretch margin hblank
        (fun c hc ↦ (List.mem_append.1 hc).elim (hfront c) (hbehind c)) _
    have htrim := trim_append (t := []) hall fun c hc ↦ absurd hc List.not_mem_nil
    rw [List.append_nil, List.append_nil] at htrim
    exact htrim
  · -- the first character that stays is no line feed, so no margin is put in front of it anew
    have hc : c ≠ '\n' := fun hc ↦ nomatch hc ▸ hfirst c rfl
    have hstretch : stretch margin atLineStart (front ++ (c :: core ++ behind)) =
        stretch margin atLineStart front ++ (indentFrom margin false (c :: core) ++
          stretch margin (lineStartsBehind false (c :: core)) behind) := by
      rw [← stretch_append]
      exact stretch_append_cons margin hc atLineStart front (core ++ behind)
    rw [hstretch, trim_append (forall_mem_stretch margin hblank hfront _)
      (forall_mem_stretch margin hblank hbehind _)]
    refine trim_eq_self (fun d hd ↦ ?_) fun d hd ↦ ?_
    · rw [indentFrom_cons_false margin hc] at hd
      exact hfirst d hd
    · rw [getLast?_indentFrom] at hd
      exact hlast d hd

/-- A name that stays on its line has no margin in it. -/
theorem trim_stretch_of_not_mem {t : List Char} (h : '\n' ∉ trim t) (atLineStart : Bool) :
    trim (stretch margin atLineStart t) = trim t := by
  rw [trim_stretch hmargin, indentFrom_of_not_mem margin h]

/-! ### Words -/

/-- The word that a text starts with and the words behind it. -/
def wordsFrom (p : Char → Bool) (t : List Char) : List Char × List (List Char) :=
  t.foldr (fun c s ↦ if p c then ([], words.finish s) else (c :: s.1, s.2)) ([], [])

omit hmargin in
/-- Separators in front of a text part nothing in it. -/
theorem finish_wordsFrom_append {p : Char → Bool} {front : List Char} (h : ∀ c ∈ front, p c = true)
    (t : List Char) : words.finish (wordsFrom p (front ++ t)) = words.finish (wordsFrom p t) := by
  induction front with
  | nil => rfl
  | cons c front ih =>
    have hskip : wordsFrom p (c :: front ++ t) = ([], words.finish (wordsFrom p (front ++ t))) :=
      if_pos (h c List.mem_cons_self)
    rw [hskip]
    exact ih fun d hd ↦ h d (List.mem_cons_of_mem c hd)

/-- Margins part no words: they are behind line feeds, which have done so. -/
theorem words_stretch (t : List Char) :
    words isSeparator (stretch margin false t) = words isSeparator t := by
  have hseparator : ∀ c ∈ margin, isSeparator c = true :=
    fun c hc ↦ of_isInline (hmargin c hc) rfl rfl
  -- behind a line feed only the finished words count
  have hboth : wordsFrom isSeparator (stretch margin false t) = wordsFrom isSeparator t ∧
      words.finish (wordsFrom isSeparator (stretch margin true t)) =
        words.finish (wordsFrom isSeparator t) := by
    induction t with
    | nil => exact ⟨rfl, (List.append_nil margin) ▸ finish_wordsFrom_append hseparator []⟩
    | cons c t ih =>
      obtain ⟨hfalse, htrue⟩ := ih
      by_cases hc : c = '\n'
      · have hfeed (t : List Char) : wordsFrom isSeparator ('\n' :: t) =
            ([], words.finish (wordsFrom isSeparator t)) := rfl
        rw [hc, stretch_feed, stretch_feed, hfeed, hfeed, htrue]
        exact ⟨rfl, rfl⟩
      · have hcons : wordsFrom isSeparator (c :: stretch margin false t) =
            wordsFrom isSeparator (c :: t) :=
          congrArg (fun s : List Char × List (List Char) ↦
            if isSeparator c then ([], words.finish s) else (c :: s.1, s.2)) hfalse
        rw [stretch_cons margin hc, stretch_cons margin hc]
        exact ⟨hcons, (finish_wordsFrom_append hseparator _).trans (congrArg words.finish hcons)⟩
  exact congrArg words.finish hboth.1

end

end Text

/-- The text in front of a tag has the margin in the padding, when it is one. -/
theorem Lead.ofText_stretch {margin : List Char} (hmargin : ∀ c ∈ margin, Text.isInline c = true)
    (atLineStart : Bool) (text : List Char) :
    (ofText atLineStart (Text.stretch margin atLineStart text)).startsLine =
        (ofText atLineStart text).startsLine ∧
      ((ofText atLineStart text).startsLine = true →
        (ofText atLineStart (Text.stretch margin atLineStart text)).padding =
          margin ++ (ofText atLineStart text).padding) := by
  have hsplit := Text.dropRightWhile_append_takeRightWhile Text.isInline text
  have hlast : ∀ c, (Text.dropRightWhile Text.isInline text).getLast? = some c →
      Text.isInline c = false := fun c ↦ Text.of_getLast?_dropRightWhile
  have hpadding : ∀ c ∈ Text.takeRightWhile Text.isInline text, Text.isInline c = true :=
    fun c ↦ Text.of_mem_takeRightWhile
  unfold ofText
  generalize Text.dropRightWhile Text.isInline text = front at hsplit hlast
  generalize Text.takeRightWhile Text.isInline text = padding at hsplit hpadding
  have hfeed : '\n' ∉ padding := fun hmem ↦ nomatch hpadding _ hmem
  -- the margin goes in front of the padding where the padding starts its line, and is blank as well
  have hblanks : ∀ c ∈ Text.marginAt margin (Text.lineStartsBehind atLineStart front) ++ padding,
      Text.isInline c = true := by
    rw [← Text.stretch_of_not_mem margin hfeed]
    exact Text.forall_mem_stretch margin hmargin hpadding _
  have hfront : ∀ c, (Text.indentFrom margin atLineStart front).getLast? = some c →
      Text.isInline c = false := by
    rw [Text.getLast?_indentFrom]
    exact hlast
  rw [← hsplit, Text.stretch_append, Text.stretch_of_not_mem margin hfeed,
    Text.dropRightWhile_append_of_all _ hblanks, Text.dropRightWhile_eq_self hfront,
    Text.takeRightWhile_append_of_all _ hblanks, Text.takeRightWhile_eq_nil hfront]
  dsimp only
  rw [Text.getLast?_indentFrom]
  split
  · next hstarts =>
    have hat : Text.lineStartsBehind atLineStart front = true := hstarts
    rw [hat]
    exact ⟨rfl, fun _ ↦ rfl⟩
  · exact ⟨rfl, fun h ↦ nomatch h⟩

/-- Whether no name that a tag asks for goes over a line's end. -/
def Directive.NameInLine : Directive → Prop
  | .enter name _ | .leave name | .inclusion name | .interpolation name _ => '\n' ∉ name.toList
  | .comment | .delimiters _ => True

instance : DecidablePred Directive.NameInLine
  | .enter name _ | .leave name | .inclusion name | .interpolation name _ =>
    inferInstanceAs (Decidable ('\n' ∉ name.toList))
  | .comment | .delimiters _ => inferInstanceAs (Decidable True)

/-! ### Bodies of tags -/

/-- A delimiter change goes by the words of its body. -/
theorem Delimiters.ofBody?_congr {t u : List Char} (hlast : t.getLast? = u.getLast?)
    (hwords : Text.words Text.isSeparator t.dropLast = Text.words Text.isSeparator u.dropLast) :
    ofBody? ('=' :: t) = ofBody? ('=' :: u) := by
  simp only [ofBody?, hlast, hwords]

namespace Directive

/-- A body that starts with a brace is a raw name when it ends with one. -/
theorem ofBody?_brace (mid : List Char) (y : Char) :
    ofBody? ('\x7b' :: (mid ++ [y])) =
      if y = '\x7d' then some (.interpolation (String.ofList (Text.trim mid)) true)
      else some (.interpolation (String.ofList ('\x7b' :: (mid ++ [y]))) false) := by
  have hend : ('\x7b' :: (mid ++ [y])).getLast? = some y :=
    List.getLast?_concat (l := '\x7b' :: mid)
  have hclosed : (1 < ('\x7b' :: (mid ++ [y])).length ∧ some y = some '\x7d') ↔ y = '\x7d' := by
    simp
  unfold ofBody?
  dsimp only [List.head?_cons]
  rw [hend, if_congr hclosed rfl rfl, List.tail_cons, List.dropLast_concat]
  rfl

variable {margin : List Char} (hmargin : ∀ c ∈ margin, Text.isInline c = true)
include hmargin

theorem nameBehindSigil_indentFrom {c y : Char} (hy : y ≠ '\n') {mid : List Char}
    (h : '\n' ∉ (nameBehindSigil (c :: (mid ++ [y]))).toList) :
    nameBehindSigil (c :: Text.indentFrom margin false (mid ++ [y])) =
      nameBehindSigil (c :: (mid ++ [y])) := by
  have hstarts : Text.lineStartsBehind false (mid ++ [y]) = false :=
    Text.lineStartsBehind_of_getLast? (by simpa using hy)
  rw [nameBehindSigil, List.tail_cons, String.toList_ofList] at h
  rw [nameBehindSigil, nameBehindSigil, List.tail_cons, List.tail_cons,
    ← Text.stretch_eq_indentFrom margin hstarts, Text.trim_stretch_of_not_mem hmargin h]

/-- **A tag asks for the same in an indented text**, unless its name goes over a line's end. -/
theorem ofBody?_indentFrom {body : List Char} (htrim : Text.trim body = body)
    (hname : ∀ d, ofBody? body = some d → d.NameInLine) :
    ofBody? (Text.indentFrom margin false body) = ofBody? body := by
  rcases body with - | ⟨c, tail⟩
  · rfl
  have hfirst : ∀ d, (c :: tail).head? = some d → Text.isBlank d = false :=
    htrim ▸ fun d ↦ Text.not_isBlank_of_head?_trim
  have hlast : ∀ d, (c :: tail).getLast? = some d → Text.isBlank d = false :=
    htrim ▸ fun d ↦ Text.not_isBlank_of_getLast?_trim
  have hc : c ≠ '\n' := fun hc ↦ nomatch hc ▸ hfirst c rfl
  rw [Text.indentFrom_cons_false margin hc]
  -- nothing is put in front of the first character of a body or of its last one
  rcases List.eq_nil_or_concat tail with rfl | ⟨mid, y, rfl⟩
  · rfl
  rw [List.concat_eq_append] at hlast hname ⊢
  have hy : y ≠ '\n' := fun hy ↦ nomatch hy ▸ hlast y (List.getLast?_concat (l := c :: mid))
  have hbody (h : '\n' ∉ (String.ofList (c :: (mid ++ [y]))).toList) :
      Text.indentFrom margin false (mid ++ [y]) = mid ++ [y] := by
    rw [String.toList_ofList] at h
    exact Text.indentFrom_of_not_mem margin fun hmem ↦ h (List.mem_cons_of_mem c hmem)
  -- between braces the name is without its last character, and else it is behind the sigil
  by_cases hbrace : c = '\x7b'
  · subst hbrace
    by_cases hclose : y = '\x7d'
    · rw [ofBody?_brace, if_pos hclose] at hname
      have hmid := hname _ rfl
      rw [NameInLine, String.toList_ofList] at hmid
      rw [Text.indentFrom_concat margin hy, ofBody?_brace, ofBody?_brace, if_pos hclose,
        if_pos hclose, Text.trim_stretch_of_not_mem hmargin hmid]
    · rw [ofBody?_brace, if_neg hclose] at hname
      rw [hbody (hname _ rfl)]
  revert hname
  unfold ofBody?
  dsimp only [List.head?_cons]
  split
  case h_1 => exact fun _ ↦ rfl
  case h_6 heq =>
    -- delimiters are words, and the margins between words are blank
    obtain rfl := Option.some.inj heq
    intro _
    refine congrArg (Option.map delimiters) ?_
    rw [Text.indentFrom_concat margin hy]
    refine Delimiters.ofBody?_congr ?_ ?_
    · rw [List.getLast?_concat, List.getLast?_concat]
    · rw [List.dropLast_concat, List.dropLast_concat, Text.words_stretch hmargin]
  case h_8 heq => exact absurd (Option.some.inj heq) hbrace
  case h_9 =>
    intro hname
    rw [hbody (hname _ rfl)]
  all_goals
    intro hname
    rw [nameBehindSigil_indentFrom hmargin hy (hname _ rfl)]

end Directive

end Mustache
