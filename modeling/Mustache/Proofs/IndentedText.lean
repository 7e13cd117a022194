import Mustache.Proofs.Indentation
import Mustache.Proofs.Recast
import Mustache.Proofs.StandingAlone
import Mustache.Template

/-!
# The tree of an indented text

A partial is compiled from its text with a margin in front of every line. The margin is put there
before anyone knows what is a tag, in comments over several lines and in front of tags that stand
alone, and still it does nothing to the tags.

* `Cursor.step_indented` — a step finds in the indented text what it finds in the text: a tag that
  asks for the same, on the same line, with the same line end if any, and the margin in its padding
  if it stands alone.
* `Cursor.Indents.agree_step` — the positions behind the two steps are related as those in front of
  them are, so all further steps do.
* `indentation` — the tree has the same tags.

A name that goes over the end of a line is the one thing that takes up a margin.
-/

namespace Mustache

/-! ### Steps -/

/-- What becomes of a token in an indented text, as far as a tree without texts can tell. -/
structure Token.IndentedAs (margin : List Char) (t t' : Token) : Prop where
  directive : t'.directive = t.directive
  line : t'.line = t.line
  lineEnd? : t'.lineEnd? = t.lineEnd?
  padding (h : t.lineEnd?.isSome = true) : t'.padding = margin ++ t.padding

/-- The position in the indented text. -/
def Cursor.indented (margin : List Char) (c : Cursor) : Cursor :=
  { c with rest := Text.indentFrom margin c.atLineStart c.rest }

/-- What becomes of a step in an indented text. -/
inductive Step.IndentedAs (margin : List Char) : Step → Step → Prop
  | token {t t' : Token} (h : t.IndentedAs margin t') (next : Cursor) :
    IndentedAs margin (.token t next) (.token t' (next.indented margin))
  | finished (text text' : List Char) (d : Delimiters) :
    IndentedAs margin (.stop (.finished text d)) (.stop (.finished text' d))
  | defective (m : Malformed) :
    IndentedAs margin (.stop (.defective m)) (.stop (.defective m))

namespace Cursor

section

variable {margin : List Char} (hmargin : ∀ c ∈ margin, Text.isInline c = true)
include hmargin

/-- A tag ends at the same marks: a margin is put in behind line ends only, and no closing mark has
one in it. -/
theorem body?_indentFrom (d : Delimiters) (t : List Char) :
    body? d (Text.indentFrom margin false t) =
      (body? d t).map fun parts ↦
        (Text.stretch margin false parts.1, Text.indentFrom margin false parts.2) := by
  have hclosing : ∀ c ∈ d.closing, ¬ Text.IsLineEndChar c :=
    fun c hmem hc ↦ not_mem_of_isLineEndChar d.closing_usable hc hmem
  unfold body?
  rw [Text.head?_indentFrom]
  split
  · have hbrace : ∀ c ∈ '\x7d' :: d.closing, ¬ Text.IsLineEndChar c :=
      List.forall_mem_cons.2 ⟨by decide, hclosing⟩
    rw [Text.cut?_indentFrom hmargin (List.cons_ne_nil _ _) hbrace, Option.map_map, Option.map_map]
    refine congrArg (Option.map · _) (funext fun parts ↦ ?_)
    simp only [Function.comp_apply]
    rw [Text.stretch_append_cons margin (by decide), Text.stretch_cons margin (by decide)]
    rfl
  · exact Text.cut?_indentFrom hmargin d.closing_usable.1 hclosing false t

omit hmargin in
/-- A tag takes a line end along in the one text if it does in the other: the margin in front is
blank. -/
theorem takenLineEnd?_indentFrom {lead lead' : Lead} (h : lead'.startsLine = lead.startsLine)
    (body behind : List Char) :
    takenLineEnd? lead' (Text.indentFrom margin false body) (Text.indentFrom margin false behind) =
      (takenLineEnd? lead body behind).map fun parts ↦
        (parts.1, Text.indentFrom margin true parts.2) := by
  have hmay : mayStandAlone (Text.indentFrom margin false body) = mayStandAlone body := by
    rw [mayStandAlone, Text.head?_indentFrom]
    rfl
  unfold takenLineEnd?
  rw [h, hmay]
  split
  · exact Text.lineEnd?_indentFrom behind
  · rfl

omit hmargin in
/-- A tag that takes a line end along starts its line. -/
theorem startsLine_of_takenLineEnd? {lead : Lead} {body behind : List Char}
    {parts : List Char × List Char} (h : takenLineEnd? lead body behind = some parts) :
    lead.startsLine = true := by
  unfold takenLineEnd? at h
  split at h
  · next hboth => exact (Bool.and_eq_true_iff.1 hboth).1
  · cases h

omit hmargin in
/-- The step behind a directive reads a token with that directive. -/
theorem exists_token_of_tagStep (c : Cursor) (lead : Lead) (raw behind : List Char) (line : Nat)
    (directive : Directive) :
    ∃ t next, c.tagStep lead raw behind line directive = .token t next ∧
      t.directive = directive := by
  unfold tagStep
  dsimp only
  split
  · exact ⟨_, _, rfl, rfl⟩
  · exact ⟨_, _, rfl, rfl⟩

/-- **A step finds the same in an indented text**, unless its tag has a name over several lines. -/
theorem step_indented {c : Cursor}
    (hname : ∀ t next, c.step = .token t next → t.directive.NameInLine) :
    c.step.IndentedAs margin (c.indented margin).step := by
  have hopening : ∀ x ∈ c.delimiters.opening, ¬ Text.IsLineEndChar x :=
    fun x hmem hx ↦ not_mem_of_isLineEndChar c.delimiters.opening_usable hx hmem
  revert hname
  unfold step
  dsimp only [indented]
  rw [Text.cut?_indentFrom hmargin c.delimiters.opening_usable.1 hopening]
  rcases Text.cut? c.delimiters.opening c.rest with - | ⟨text, inside⟩
  · exact fun _ ↦ .finished _ _ _
  dsimp only [Option.map_some]
  rw [body?_indentFrom hmargin, Text.lineBreaks_stretch hmargin]
  rcases body? c.delimiters inside with - | ⟨raw, behind⟩
  · exact fun _ ↦ .defective _
  dsimp only [Option.map_some]
  rw [Text.lineBreaks_stretch hmargin, Text.trim_stretch hmargin]
  -- the body is trimmed before it is read, so a margin stays inside of it only
  have hempty : Text.indentFrom margin false (Text.trim raw) = [] ↔ Text.trim raw = [] := by
    rw [← List.head?_eq_none_iff, Text.head?_indentFrom, List.head?_eq_none_iff]
  by_cases hnil : Text.trim raw = []
  · rw [if_pos hnil, if_pos (hempty.2 hnil)]
    exact fun _ ↦ .defective _
  rw [if_neg hnil, if_neg (mt hempty.1 hnil)]
  have hsame := Directive.ofBody?_indentFrom hmargin (Text.trim_trim raw)
  rcases hd : Directive.ofBody? (Text.trim raw) with - | directive
  · rw [hsame (fun d h ↦ nomatch hd.symm.trans h), hd]
    exact fun _ ↦ .defective _
  intro hname
  -- a body without a directive is a defect in both texts; from here on the name matters
  have hline : directive.NameInLine := by
    obtain ⟨t, next, htag, hdirective⟩ := c.exists_token_of_tagStep
      (Lead.ofText c.atLineStart text) raw behind
      (c.line + Text.lineBreaks text + Text.lineBreaks raw) directive
    exact hdirective ▸ hname t next htag
  rw [hsame fun d h ↦ Option.some.inj (hd.symm.trans h) ▸ hline, hd]
  obtain ⟨hstarts, hpadding⟩ := Lead.ofText_stretch hmargin c.atLineStart text
  dsimp only [tagStep]
  rw [Text.trim_stretch hmargin, takenLineEnd?_indentFrom hstarts]
  rcases htaken : takenLineEnd? (Lead.ofText c.atLineStart text) (Text.trim raw) behind with
    - | ⟨ending, rest⟩
  · refine .token ?_ ⟨behind, _, false, _⟩
    exact ⟨rfl, rfl, rfl, fun h ↦ nomatch h⟩
  · refine .token ?_ ⟨rest, _, true, _⟩
    exact ⟨rfl, rfl, rfl, fun _ ↦ hpadding (startsLine_of_takenLineEnd? htaken)⟩

end

end Cursor

/-! ### Trees -/

namespace Recast

/-- A tree without its texts. -/
def withoutTexts : Recast :=
  ⟨false, id, fun indent _ ↦ indent⟩

/-- A tree without its texts in which the partials that stand alone are further in. -/
def indented (margin : String) : Recast :=
  ⟨false, id, fun indent lineEnd? ↦ if lineEnd?.isSome then margin ++ indent else ""⟩

theorem lift_withoutTexts (r : Except Malformed Tree) :
    withoutTexts.lift withoutTexts.tree r = r.map withoutTexts.tree := by
  rcases r <;> rfl

/-- Errors are the same, with the same lines: a margin is no line. -/
theorem lift_indented (margin : String) (r : Except Malformed Tree) :
    (indented margin).lift (indented margin).tree r = r.map (indented margin).tree := by
  rcases r <;> rfl

/-- A token and what becomes of it make one element, but for the indent of a partial that stands
alone. -/
theorem agree_of_indentedAs {margin : String} {t t' : Token} (h : t.IndentedAs margin.toList t')
    (forceRaw : Bool) : (indented margin).Agree withoutTexts forceRaw t t' where
  directive := h.directive.symm
  line := h.line.symm
  text := rfl
  element := by
    unfold Element.ofToken?
    rw [h.directive, h.lineEnd?]
    split
    · rfl
    · split
      · next ending hend =>
        rw [h.padding (by rw [hend]; rfl), String.ofList_append, String.ofList_toList]
        rfl
      · rfl
    · rfl

end Recast

/-- Whether the second position is the first one in the indented text, which has no name over
several lines ahead. -/
def Cursor.Indents (margin : String) (c c' : Cursor) : Prop :=
  c' = c.indented margin.toList ∧ ∀ t ∈ c.tokens.list, t.directive.NameInLine

/-- **Every step finds in an indented text what it finds in the text**, up to the indentation. -/
theorem Cursor.Indents.agree_step {margin : String}
    (hmargin : ∀ x ∈ margin.toList, Text.isInline x = true) (forceRaw : Bool) {c c' : Cursor}
    (h : c.Indents margin c') :
    (Recast.indented margin).AgreeUpTo Recast.withoutTexts forceRaw (Cursor.Indents margin) c.step
      c'.step := by
  obtain ⟨rfl, hnames⟩ := h
  have hahead : ∀ t next, c.step = .token t next →
      t.directive.NameInLine ∧ ∀ t' ∈ next.tokens.list, t'.directive.NameInLine := by
    intro t next hc
    rw [tokens_of_token hc] at hnames
    exact List.forall_mem_cons.1 hnames
  have hstep := step_indented hmargin fun t next hc ↦ (hahead t next hc).1
  generalize c.step = s, (c.indented margin.toList).step = s' at hahead hstep
  rcases hstep with ⟨ht, next⟩ | ⟨text, text', d⟩ | m
  · exact .token (Recast.agree_of_indentedAs ht forceRaw) ⟨rfl, (hahead _ next rfl).2⟩
  · exact .stop rfl
  · exact .stop rfl

/-- **Indentation.** An indented text compiles exactly when the text does, and has the same defect
on the same line otherwise, unless a name goes over the end of a line. The tree differs in its texts
and in the indentation of the partials that stand alone, which are the same ones: the margin is in
front of it, so nested partials add up theirs (`Text.indent_append`). A partial that shares its line
with anything else has no indentation. -/
theorem indentation (c : Compiler) {text margin : String}
    (hmargin : ∀ x ∈ margin.toList, Text.isInline x = true)
    (hnames : ∀ t ∈ (Tokens.ofTemplate text.toList).list, t.directive.NameInLine) :
    (c.parse (String.ofList (Text.indent margin.toList text.toList))).map
        Recast.withoutTexts.tree =
      (c.parse text).map (Recast.indented margin).tree := by
  have hstart : (Cursor.start text.toList).Indents margin
      (.start (Text.indent margin.toList text.toList)) := by
    rw [Text.indent_eq_indentFrom]
    exact ⟨rfl, hnames⟩
  have hlift := (Recast.indented margin).lift_tokens_eq Recast.withoutTexts
    (Cursor.Indents.agree_step hmargin (c.escapeMode == .raw)) hstart
  rw [Recast.lift_withoutTexts, Recast.lift_indented] at hlift
  rw [Compiler.parse, Compiler.parse, Tree.ofText, Tree.ofText, String.toList_ofList]
  exact hlift.symm

/-- A partial that stands alone, one that does not, a remark over two lines and other delimiters. -/
theorem indentation_of_partials :
    let text := "\x7b\x7b! a\n b \x7d\x7d\n \x7b\x7b> p \x7d\x7d\r\n\x7b\x7b=[\n]=\x7d\x7d\n\n" ++
      "[#s]\nx [> q]\n[/s]\n[&v]"
    let brackets : Delimiters := ⟨['['], [']'], by decide, by decide⟩
    let bad := "a\n\x7b\x7b#s\x7d\x7d\n"
    let c := Compiler.standard
    let indented (t : String) := String.ofList (Text.indent "  ".toList t.toList)
    (∀ x ∈ "  ".toList, Text.isInline x = true) ∧
      (∀ t ∈ (Tokens.ofTemplate text.toList).list, t.directive.NameInLine) ∧
      (c.parse (indented text)).map Recast.withoutTexts.tree =
        .ok ⟨[.inclusion "p" "   " (some "\r\n"), .block "s" false 7 [.inclusion "q" "" none],
          .interpolation "v" true], brackets⟩ ∧
      (∀ t ∈ (Tokens.ofTemplate bad.toList).list, t.directive.NameInLine) ∧
      (c.parse (indented bad)).map Recast.withoutTexts.tree =
        .error ⟨2, .unclosedSection "s"⟩ := by
  intro text brackets bad c indented
  have hmargin : ∀ x ∈ "  ".toList, Text.isInline x = true := List.all_eq_true.1 (by decide)
  have hin {ts : List Token} {ds : List Directive} (h : ts.map Token.directive = ds)
      (hds : ∀ d ∈ ds, d.NameInLine) : ∀ t ∈ ts, t.directive.NameInLine :=
    fun t ht ↦ hds _ (h ▸ List.mem_map_of_mem ht)
  have htext : (Tokens.ofTemplate text.toList).list.map Token.directive =
      [.comment, .inclusion "p", .delimiters brackets, .enter "s" false, .inclusion "q", .leave "s",
        .interpolation "v" true] := by
    decide +kernel
  have hbad : (Tokens.ofTemplate bad.toList).list.map Token.directive = [.enter "s" false] := by
    decide +kernel
  have hparse : (c.parse text).map (Recast.indented "  ").tree =
      .ok ⟨[.inclusion "p" "   " (some "\r\n"), .block "s" false 7 [.inclusion "q" "" none],
        .interpolation "v" true], brackets⟩ := by
    have hread : c.parse text = .ok ⟨[.inclusion "p" " " (some "\r\n"), .text "\n",
        .block "s" false 7 [.text "x ", .inclusion "q" "" none, .text "\n"],
        .interpolation "v" true], brackets⟩ := by
      rw [Compiler.parse, Tree.ofText, String.toList_append]
      with_unfolding_all rfl
    rw [hread, show "   " = "  " ++ " " by decide]
    rfl
  have hdefect : (c.parse bad).map (Recast.indented "  ").tree =
      .error ⟨2, .unclosedSection "s"⟩ := by
    dsimp only [c, bad]
    with_unfolding_all rfl
  exact ⟨hmargin, hin htext (by decide),
    (indentation c hmargin (hin htext (by decide))).trans hparse,
    hin hbad (by decide), (indentation c hmargin (hin hbad (by decide))).trans hdefect⟩

end Mustache
