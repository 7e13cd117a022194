import Mustache.Proofs.Nesting
import Mustache.Proofs.Seam
import Mustache.Proofs.TextConservation

/-!
# Defects and sections in their places

Reading keeps a running count of lines and hands it on from one position to the next. A `Survey`
counts nothing. It takes the tags of a template as `Site.ofTemplate` finds them, one after the
other, and notes places: how far from the start of the text a mark stands.

## Shape decisions

* **A fault is a place and a defect.** What is wrong with a tag is wrong at its closing delimiter, a
  section that is never closed is wrong at the closing delimiter of its open tag, and a tag that is
  never closed is wrong at its opening delimiter.
* **The line of a place** is one more than the line breaks in front of it (`Text.lineAt`), whatever
  was read on the way there. The line break that a tag on a line of its own takes with it is behind
  the closing delimiter.
* **A survey goes from tag to tag**, and what it has left of the text starts right behind the last
  closing delimiter. A walk has left what is behind the line end too. Nothing is found in between
  (`Survey.along_append`).

`Compiler.map_sections_parse` is the result: what is read of a template is what a survey of its text
finds, with lines for places. The step is `Walk.findings_step`, and the induction is over the
positions of the reader with `Cursor.At` as its invariant. That a survey's places are those of
delimiters is shown apart from reading (`Survey.isMarked_ofTemplate`).
-/

namespace Mustache

/-- The line of a place in a text. The first place is 0, the first line 1. -/
def Text.lineAt (t : List Char) (place : Nat) : Nat :=
  1 + lineBreaks (t.take place)

namespace Text

/-- What is behind a place has no part in its line. -/
theorem lineAt_append_length (t u : List Char) : lineAt (t ++ u) t.length = 1 + lineBreaks t := by
  rw [lineAt, List.take_left]

theorem lineAt_append {t : List Char} {place : Nat} (h : place ≤ t.length) (u : List Char) :
    lineAt (t ++ u) place = lineAt t place := by
  rw [lineAt, lineAt, List.take_append_of_le_length h]

theorem one_le_lineAt (t : List Char) (place : Nat) : 1 ≤ lineAt t place :=
  Nat.le_add_right 1 _

/-- The last line is that of the end of the text. -/
theorem lineAt_le (t : List Char) (place : Nat) : lineAt t place ≤ lineAt t t.length := by
  rw [lineAt, lineAt, List.take_length]
  exact Nat.add_le_add_left ((List.take_sublist place t).count_le '\n') 1

end Text

/-- A defect and the place it is found in. -/
structure Fault where
  place : Nat
  defect : Defect
  deriving DecidableEq

/-- A fault with the line of its place in a text. -/
def Fault.reported (text : List Char) (f : Fault) : Malformed :=
  ⟨Text.lineAt text f.place, f.defect⟩

/-- The place of the closing delimiter of a tag that is delimited by this pair. -/
def Site.closingPlace (s : Site) (d : Delimiters) : Nat :=
  s.stop - d.closing.length

/-- The closing delimiter is behind the opening one and what stands between the two. -/
theorem Site.closingPlace_eq (front before raw behind : List Char) (d : Delimiters) :
    closingPlace ⟨front ++ before, raw, d.opening ++ (raw ++ d.closing), behind⟩ d =
      front.length + (before ++ (d.opening ++ raw)).length := by
  simp only [closingPlace, stop, List.length_append]
  omega

/-- A survey of the tags in front of a place. -/
structure Survey where
  /-- The delimiters in effect. -/
  delimiters : Delimiters
  /-- The sections that are open, the innermost first, each with the place of the closing delimiter
  of its open tag. -/
  nest : List (String × Nat)
  /-- All sections opened so far, in order, with the same places. -/
  sections : List (String × Nat)

namespace Survey

/-- The survey before the first tag. -/
def start : Survey :=
  ⟨.standard, [], []⟩

/-- The survey past a tag that asks for this and whose closing delimiter is in this place. -/
def follow (w : Survey) (place : Nat) : Directive → Except Fault Survey
  | .enter name _ =>
    .ok { w with nest := (name, place) :: w.nest, sections := w.sections ++ [(name, place)] }
  | .leave name =>
    match w.nest with
    | [] => .error ⟨place, .unmatchedClose⟩
    | (innermost, _) :: outer =>
      if innermost = name then .ok { w with nest := outer }
      else .error ⟨place, .interleavedClose name⟩
  | .delimiters d => .ok { w with delimiters := d }
  | .interpolation _ _ | .inclusion _ | .comment => .ok w

/-- The survey past a tag. -/
def pass (w : Survey) (s : Site) : Except Fault Survey :=
  let place := s.closingPlace w.delimiters
  if Text.trim s.raw = [] then .error ⟨place, .emptyTag⟩
  else
    match Directive.ofBody? (Text.trim s.raw) with
    | none => .error ⟨place, .invalidDelimiters⟩
    | some directive => w.follow place directive

/-- The end of a survey, with the text from a place on ahead in which no tag is closed. -/
def finish (w : Survey) (place : Nat) (rest : List Char) :
    Except Fault (List (String × Nat)) :=
  match Text.cut? w.delimiters.opening rest with
  | some (text, _) => .error ⟨place + text.length, .unmatchedOpen⟩
  | none =>
    match w.nest with
    | [] => .ok w.sections
    | (name, place) :: _ => .error ⟨place, .unclosedSection name⟩

/-- The survey of the tags ahead, with the text from a place on. -/
def along (w : Survey) (place : Nat) (rest : List Char) :
    List Site → Except Fault (List (String × Nat))
  | [] => w.finish place rest
  | s :: sites => w.pass s >>= fun w ↦ w.along s.stop s.behind sites

/-- The sections of a template with their places, or its first fault. -/
def ofTemplate (template : List Char) : Except Fault (List (String × Nat)) :=
  start.along 0 template (Site.ofTemplate template)

/-! ### Lines for places -/

/-- Sections with lines for their places in a text. -/
def inLines (text : List Char) (sections : List (String × Nat)) : List (String × Nat) :=
  sections.map fun s ↦ (s.1, Text.lineAt text s.2)

/-- What is found in a text, with lines for places. -/
def report {α β : Type} (text : List Char) (found : α → β) (r : Except Fault α) :
    Except Malformed β :=
  (r.mapError (Fault.reported text)).map found

/-- The open sections and all sections so far, with lines for places. -/
def findings (text : List Char) (w : Survey) : List (String × Nat) × List (String × Nat) :=
  (inLines text w.nest, inLines text w.sections)

end Survey

/-- The name and the line of a section; other tags have none. -/
def Heading.section? (h : Heading) : Option (String × Nat) :=
  h.line?.map fun line ↦ (h.name, line)

/-- The open sections and all sections so far. -/
def Walk.findings (k : Walk) : List (String × Nat) × List (String × Nat) :=
  (k.nest, k.passed.filterMap Heading.section?)

/-- The sections of a tree in order, a section before those inside it, each with the line that its
tag shows. -/
def Tree.sections (tree : Tree) : List (String × Nat) :=
  tree.outline.1.filterMap Heading.section?

/-! ### A survey finds what a walk finds -/

/-- **A walk and a survey go in step** past a tag, and stop at the same defect. -/
theorem Walk.findings_step {text : List Char} {k : Walk} {w : Survey} {t : Token} {place : Nat}
    (h : k.findings = w.findings text) (hline : t.line = Text.lineAt text place) :
    (k.step t).map findings =
      Survey.report text (Survey.findings text) (w.follow place t.directive) := by
  obtain ⟨hnest, hsections⟩ := Prod.mk.inj h
  unfold step
  cases t.directive with
  | comment | delimiters => exact congrArg Except.ok h
  | interpolation name raw | inclusion name =>
    refine congrArg Except.ok (Prod.ext hnest ?_)
    show (k.passed ++ [_]).filterMap _ = _
    rw [List.filterMap_append, hsections]
    exact List.append_nil _
  | enter name inverted =>
    refine congrArg Except.ok (Prod.ext ?_ ?_)
    · show (name, t.line) :: k.nest = _
      rw [hnest, hline]
      rfl
    · show (k.passed ++ [_]).filterMap _ = Survey.inLines text (w.sections ++ [_])
      rw [List.filterMap_append, hsections, Survey.inLines, Survey.inLines, List.map_append, hline]
      rfl
  | leave name =>
    obtain ⟨delimiters, nest, sections⟩ := w
    rcases nest with - | ⟨⟨innermost, place'⟩, outer⟩
    · have hnone : k.nest = [] := hnest
      simp only [leave, hnone, Survey.follow, hline]
      rfl
    · -- both know the innermost section: the one by its line, the other by its place
      have hsome : k.nest =
          (innermost, Text.lineAt text place') :: Survey.inLines text outer := hnest
      simp only [leave, hsome, Survey.follow]
      by_cases hname : innermost = name
      · rw [if_pos hname, if_pos hname]
        exact congrArg Except.ok (Prod.ext rfl hsections)
      · rw [if_neg hname, if_neg hname, hline]
        rfl

namespace Survey

/-- A line end in front of the text ahead makes no difference but to the place of the text. -/
theorem along_append (w : Survey) {ending : List Char} (h : ∀ c ∈ ending, Text.IsLineEndChar c)
    (place : Nat) (rest : List Char) (sites : List Site) :
    w.along place (ending ++ rest) sites = w.along (place + ending.length) rest sites := by
  cases sites with
  | cons s sites => rfl
  | nil =>
    have hskip := Text.cut?_append_of_disjoint w.delimiters.opening_usable.1
      (fun c hc ↦ Cursor.not_mem_of_isLineEndChar w.delimiters.opening_usable (h c hc)) rest
    rw [along, along, finish, finish, hskip]
    rcases Text.cut? w.delimiters.opening rest with - | ⟨text, inside⟩
    · rfl
    · dsimp only [Option.map_some]
      rw [List.length_append, Nat.add_assoc]

end Survey

namespace Cursor

/-- A position in a text, with all of the text in front of it and its line. -/
structure At (text front : List Char) (c : Cursor) : Prop where
  text_eq : text = front ++ c.rest
  line_eq : c.line = 1 + Text.lineBreaks front

theorem at_start (template : List Char) : At template [] (start template) :=
  ⟨rfl, rfl⟩

theorem line_of_tagStep {c next : Cursor} {lead : Lead} {raw behind : List Char} {line : Nat}
    {directive : Directive} {t : Token}
    (h : c.tagStep lead raw behind line directive = .token t next) : t.line = line := by
  simp only [tagStep] at h
  split at h <;> obtain ⟨rfl, rfl⟩ := Step.token.inj h <;> rfl

namespace At

variable {text front : List Char} {c : Cursor}

/-- The line of a place ahead. -/
theorem lineAt_eq (h : At text front c) {ahead behind : List Char}
    (hrest : c.rest = ahead ++ behind) :
    Text.lineAt text (front.length + ahead.length) = c.line + Text.lineBreaks ahead := by
  rw [h.text_eq, hrest, ← List.append_assoc, ← List.length_append, Text.lineAt_append_length,
    Text.lineBreaks_append, h.line_eq, Nat.add_assoc]

/-- The line of the closing delimiter of the tag ahead. -/
theorem lineAt_closing (h : At text front c) {before inside raw behind : List Char}
    (hopen : Text.cut? c.delimiters.opening c.rest = some (before, inside))
    (hbody : body? c.delimiters inside = some (raw, behind)) :
    Text.lineAt text (Site.closingPlace
        ⟨front ++ before, raw, c.delimiters.opening ++ (raw ++ c.delimiters.closing), behind⟩
        c.delimiters) =
      c.line + Text.lineBreaks before + Text.lineBreaks raw := by
  have hrest : c.rest = (before ++ (c.delimiters.opening ++ raw)) ++
      (c.delimiters.closing ++ behind) := by
    simpa only [List.append_assoc] using rest_eq_append hopen hbody
  rw [Site.closingPlace_eq, h.lineAt_eq hrest, Text.lineBreaks_append, Text.lineBreaks_append,
    lineBreaks_eq_zero_of_usable c.delimiters.opening_usable, Nat.zero_add, Nat.add_assoc]

/-- The invariant is kept by a step. -/
theorem of_step {next : Cursor} {t : Token} (h : At text front c) (hstep : c.step = .token t next) :
    At text (front ++ t.source) next := by
  have hrest := rest_of_step hstep
  have hlines := line_add_lineBreaks_of_step hstep
  constructor
  · rw [h.text_eq, hrest, List.append_assoc]
  · rw [hrest, Text.lineBreaks_append, h.line_eq] at hlines
    rw [Text.lineBreaks_append]
    omega

end At

end Cursor

/-! ### The whole way -/

namespace Survey

variable {text front : List Char} {k : Walk} {w : Survey} {c next : Cursor} {t : Token}

/-- The delimiters are those of the reader. -/
theorem delimiters_of_follow {w' : Survey} {place : Nat} {directive : Directive}
    (h : w.follow place directive = .ok w') (hd : w.delimiters = c.delimiters) :
    w'.delimiters = c.delimitersAfter directive := by
  cases directive with
  | leave name =>
    simp only [follow] at h
    split at h
    · cases h
    · split at h
      · cases h
        exact hd
      · cases h
  | delimiters d =>
    cases h
    rfl
  | _ =>
    cases h
    exact hd

/-- A survey passes the tag of a token as a walk passes the token. -/
theorem pass_of_step {inside raw behind : List Char} (h : c.At text front)
    (hstep : c.step = .token t next) (p : c.Passage t next inside raw behind)
    (hd : w.delimiters = c.delimiters) :
    ∃ place, w.pass ⟨front ++ (t.before ++ t.padding), raw, t.written, behind⟩ =
        w.follow place t.directive ∧
      t.line = Text.lineAt text place := by
  have hline : t.line = c.line + Text.lineBreaks (t.before ++ t.padding) + Text.lineBreaks raw := by
    simp only [Cursor.step, p.cut_opening, p.body, if_neg p.trim_ne_nil, p.directive] at hstep
    exact Cursor.line_of_tagStep hstep
  refine ⟨Site.closingPlace ⟨front ++ (t.before ++ t.padding), raw, t.written, behind⟩
    w.delimiters, ?_, ?_⟩
  · simp only [pass, if_neg p.trim_ne_nil, p.directive]
  · rw [hd, p.written, h.lineAt_closing p.cut_opening p.body, hline]

/-- Where reading stops, a survey comes to its end or to the same fault. -/
theorem map_along_of_stop {e : Ending} (h : c.At text front) (hstep : c.step = .stop e)
    (hd : w.delimiters = c.delimiters) (hkw : k.findings = w.findings text) :
    (k.finish e).map (fun r ↦ r.1.filterMap Heading.section?) =
      report text (inLines text)
        (w.along front.length c.rest (Site.sitesFrom c.delimiters front c.rest)) := by
  unfold Cursor.step at hstep
  -- a step stops at the end, at a tag that is not closed, and at one with nothing or no name in it
  split at hstep
  · next hopen =>
    obtain rfl := Step.stop.inj hstep
    rw [Site.sitesFrom_of_cut?_eq_none hopen, along, finish, hd, hopen]
    obtain ⟨nest, passed⟩ := k
    obtain ⟨delimiters, opened, sections⟩ := w
    obtain ⟨rfl, hsections⟩ := Prod.mk.inj hkw
    rcases opened with - | ⟨s, outer⟩
    · exact congrArg Except.ok hsections
    · rfl
  · next before inside hopen =>
    split at hstep
    · next hbody =>
      obtain rfl := Step.stop.inj hstep
      rw [Site.sitesFrom_of_body?_eq_none hopen hbody, along, finish, hd, hopen]
      have hline := h.lineAt_eq (Text.eq_append_of_cut? hopen)
      simp only [report, Except.mapError, Fault.reported, hline]
      rfl
    · next raw behind hbody =>
      rw [Site.sitesFrom_of_body? hopen hbody, along, pass, hd]
      have hline := h.lineAt_closing hopen hbody
      split at hstep
      · next hnil =>
        obtain rfl := Step.stop.inj hstep
        simp only [if_pos hnil, ← hline]
        rfl
      · next hne =>
        split at hstep
        · next hnone =>
          obtain rfl := Step.stop.inj hstep
          simp only [if_neg hne, hnone, ← hline]
          rfl
        · unfold Cursor.tagStep at hstep
          split at hstep <;> cases hstep

/-- **From a position on**, a walk and a survey that have found the same go on to the same
sections, or to the same first fault. -/
theorem map_along {front : List Char} {k : Walk} {w : Survey} {c : Cursor} (h : c.At text front)
    (hd : w.delimiters = c.delimiters) (hkw : k.findings = w.findings text) :
    (k.along c).map (fun r ↦ r.1.filterMap Heading.section?) =
      report text (inLines text)
        (w.along front.length c.rest (Site.sitesFrom c.delimiters front c.rest)) := by
  match hstep : c.step with
  | .stop e =>
    rw [Walk.along_of_stop hstep]
    exact map_along_of_stop h hstep hd hkw
  | .token t next =>
    obtain ⟨inside, raw, behind, p⟩ := Cursor.exists_passage_of_step hstep
    obtain ⟨place, hpass, hline⟩ := pass_of_step h hstep p hd
    have hfindings := Walk.findings_step hkw hline
    rw [Walk.along_of_token hstep, p.sitesFrom_eq, along, hpass]
    rcases hk : k.step t with m | k' <;> rcases hw : w.follow place t.directive with f | w'
    all_goals rw [hk, hw] at hfindings
    · exact congrArg Except.error (Except.error.inj hfindings)
    · cases hfindings
    · cases hfindings
    · have hd' := (delimiters_of_follow hw hd).trans p.delimiters.symm
      have hplace : Site.stop ⟨front ++ (t.before ++ t.padding), raw, t.written, behind⟩ +
          (t.lineEnd?.getD []).length = (front ++ t.source).length := by
        simp only [Site.stop, Token.source, List.length_append]
        omega
      show (k'.along next).map _ = report text _ (w'.along _ behind _)
      rw [p.behind_eq, along_append w' fun _ ↦ p.isLineEndChar_of_mem, ← p.behind_eq, hplace]
      exact map_along (h.of_step hstep) hd' (Except.ok.inj hfindings)
termination_by c.rest.length
decreasing_by exact Cursor.length_rest_lt_of_step hstep

end Survey

theorem Compiler.map_outline_parse (c : Compiler) (template : String) :
    (c.parse template).map Tree.outline = Walk.start.along (.start template.toList) := by
  rw [Walk.along_eq]
  exact Tree.outline_ofTokens _ _

/-- **What is read of a template is what a survey of its text finds**: the same sections on the
lines of their places, or the same defect on the line of its place. -/
theorem Compiler.map_sections_parse (c : Compiler) (template : String) :
    (c.parse template).map Tree.sections =
      Survey.report template.toList (Survey.inLines template.toList)
        (Survey.ofTemplate template.toList) := by
  have hsurvey := Survey.map_along (k := Walk.start) (w := Survey.start)
    (Cursor.at_start template.toList) rfl rfl
  rw [← c.map_outline_parse] at hsurvey
  rw [Survey.ofTemplate, Site.ofTemplate]
  refine Eq.trans ?_ hsurvey
  rcases c.parse template with m | tree <;> rfl

/-- A template is not read for the fault that a survey of its text ends with. -/
theorem Compiler.parse_eq_error_iff (c : Compiler) (template : String) (m : Malformed) :
    c.parse template = .error m ↔
      ∃ f, Survey.ofTemplate template.toList = .error f ∧ f.reported template.toList = m := by
  have hsurvey := c.map_sections_parse template
  rcases hparse : c.parse template with m' | tree <;>
    rcases hfound : Survey.ofTemplate template.toList with f | sections
  all_goals rw [hparse, hfound] at hsurvey
  · obtain rfl := Except.error.inj hsurvey
    simp
  · cases hsurvey
  · cases hsurvey
  · simp

/-! ### Lines in order -/

/-- A step reads its tag on a line that is not in front of the position, nor behind the next. -/
theorem Cursor.line_le_of_step {c next : Cursor} {t : Token} (h : c.step = .token t next) :
    c.line ≤ t.line ∧ t.line ≤ next.line := by
  obtain ⟨text, inside, raw, behind, directive, -, -, -, -, htag⟩ := exists_tagStep_of_step h
  simp only [tagStep] at htag
  split at htag
  all_goals
    obtain ⟨rfl, rfl⟩ := Step.token.inj htag
    dsimp only
    omega

namespace Walk

/-- The lines of the sections so far. -/
def lines (k : Walk) : List Nat :=
  k.findings.2.map Prod.snd

/-- A step finds at most one section more, on the line of its token. -/
theorem lines_of_step {k k' : Walk} {t : Token} (h : k.step t = .ok k') :
    k'.lines = k.lines ∨ k'.lines = k.lines ++ [t.line] := by
  have hpass (kind : TagKind) (name : String) : (k.pass kind name).lines = k.lines := by
    simp [lines, findings, pass, Heading.section?]
  unfold step at h
  split at h
  · cases h
    right
    simp [lines, findings, Heading.section?, Heading.ofSection]
  · left
    unfold leave at h
    split at h
    · cases h
    · split at h
      · cases h
        rfl
      · cases h
  all_goals
    cases h
    first
      | exact .inl (hpass _ _)
      | exact .inl rfl

/-- Whether the lines of the sections so far go up, up to a line. -/
structure SortedUpTo (line : Nat) (k : Walk) : Prop where
  pairwise : k.lines.Pairwise (· ≤ ·)
  le : ∀ l ∈ k.lines, l ≤ line

theorem SortedUpTo.mono {line line' : Nat} {k : Walk} (h : k.SortedUpTo line)
    (hle : line ≤ line') : k.SortedUpTo line' :=
  ⟨h.pairwise, fun l hl ↦ Nat.le_trans (h.le l hl) hle⟩

theorem SortedUpTo.of_step {k k' : Walk} {t : Token} (h : k.SortedUpTo t.line)
    (hstep : k.step t = .ok k') : k'.SortedUpTo t.line := by
  rcases lines_of_step hstep with hsame | hmore
  · exact ⟨hsame ▸ h.pairwise, hsame ▸ h.le⟩
  · constructor
    · rw [hmore, List.pairwise_append]
      exact ⟨h.pairwise, List.pairwise_singleton _ _, by simpa using h.le⟩
    · rw [hmore]
      simpa [or_imp, forall_and] using h.le

/-- The lines of the sections passed go up all the way. -/
theorem SortedUpTo.of_along {k : Walk} {c : Cursor} {r : List Heading × Delimiters}
    (h : k.SortedUpTo c.line) (halong : k.along c = .ok r) :
    ((r.1.filterMap Heading.section?).map Prod.snd).Pairwise (· ≤ ·) := by
  match hstep : c.step with
  | .stop e =>
    rw [along_of_stop hstep] at halong
    obtain ⟨hnest, text, delimiters, rfl⟩ := (exists_finish_eq_ok_iff k e).1 ⟨r, halong⟩
    simp only [finish, hnest] at halong
    cases halong
    exact h.pairwise
  | .token t next =>
    rw [along_of_token hstep] at halong
    obtain ⟨k', hpass, hrest⟩ := bind_eq_ok_iff.1 halong
    obtain ⟨hbefore, hbehind⟩ := Cursor.line_le_of_step hstep
    exact (((h.mono hbefore).of_step hpass).mono hbehind).of_along hrest
termination_by c.rest.length
decreasing_by exact Cursor.length_rest_lt_of_step hstep

end Walk

/-! ### Places are those of marks -/

namespace Survey

/-- Whether a closing delimiter stands in a place of the text. -/
def ClosesAt (text : List Char) (place : Nat) : Prop :=
  ∃ d : Delimiters, d.closing <+: text.drop place

/-- Whether what is found in a text stands where it should: a tag without an end at an opening
delimiter, and any other fault and all sections at a closing one. -/
def IsMarked (text : List Char) : Except Fault (List (String × Nat)) → Prop
  | .ok sections => ∀ s ∈ sections, ClosesAt text s.2
  | .error f =>
    if f.defect = .unmatchedOpen then ∃ d : Delimiters, d.opening <+: text.drop f.place
    else ClosesAt text f.place

/-- Whether all sections so far stand at closing delimiters. -/
structure Marked (text : List Char) (w : Survey) : Prop where
  nest : ∀ s ∈ w.nest, ClosesAt text s.2
  sections : ∀ s ∈ w.sections, ClosesAt text s.2

section

variable {text : List Char} {w : Survey}

theorem closesAt_closingPlace (front before raw behind : List Char) (d : Delimiters) :
    ClosesAt (front ++ (before ++ (d.opening ++ (raw ++ (d.closing ++ behind)))))
      (Site.closingPlace ⟨front ++ before, raw, d.opening ++ (raw ++ d.closing), behind⟩ d) := by
  have htext : front ++ (before ++ (d.opening ++ (raw ++ (d.closing ++ behind)))) =
      front ++ (before ++ (d.opening ++ raw)) ++ (d.closing ++ behind) := by
    simp only [List.append_assoc]
  refine ⟨d, ?_⟩
  rw [Site.closingPlace_eq, htext, ← List.length_append, List.drop_left]
  exact List.prefix_append _ _

/-- What is found past a tag stands at its closing delimiter, or where it has stood before. -/
theorem Marked.follow {place : Nat} (hw : w.Marked text) (hplace : ClosesAt text place)
    (directive : Directive) :
    match w.follow place directive with
    | .ok w' => w'.Marked text
    | .error f => IsMarked text (.error f) := by
  cases directive with
  | enter name inverted =>
    refine ⟨List.forall_mem_cons.2 ⟨hplace, hw.nest⟩, ?_⟩
    exact List.forall_mem_append.2 ⟨hw.sections, List.forall_mem_singleton.2 hplace⟩
  | leave name =>
    obtain ⟨delimiters, nest, sections⟩ := w
    rcases nest with - | ⟨⟨innermost, place'⟩, outer⟩
    · exact hplace
    · simp only [Survey.follow]
      by_cases hname : innermost = name
      · rw [if_pos hname]
        exact ⟨(List.forall_mem_cons.1 hw.nest).2, hw.sections⟩
      · rw [if_neg hname]
        exact hplace
  | _ => exact ⟨hw.nest, hw.sections⟩

/-- **What a survey finds stands at marks**, if what it has found before does. -/
theorem Marked.along (d : Delimiters) (front rest : List Char) :
    ∀ {w : Survey}, w.Marked (front ++ rest) → w.delimiters = d →
      IsMarked (front ++ rest) (w.along front.length rest (Site.sitesFrom d front rest)) := by
  -- the cases are those of the sites: no opening mark, one without a closing mark, a whole tag
  induction d, front, rest using Site.sitesFrom.induct with
  | case1 d front rest hopen =>
    intro w hw hd
    rw [Site.sitesFrom_of_cut?_eq_none hopen, Survey.along, finish, hd, hopen]
    obtain ⟨delimiters, nest, sections⟩ := w
    rcases nest with - | ⟨s, outer⟩
    · exact hw.sections
    · exact (List.forall_mem_cons.1 hw.nest).1
  | case2 d front rest before inside hopen hbody =>
    intro w hw hd
    rw [Site.sitesFrom_of_body?_eq_none hopen hbody, Survey.along, finish, hd, hopen]
    refine ⟨d, ?_⟩
    rw [Text.eq_append_of_cut? hopen, ← List.append_assoc, ← List.length_append, List.drop_left]
    exact List.prefix_append _ _
  | case3 d front rest before inside hopen raw behind hbody written =>
    rename_i ih
    intro w hw hd
    have hrest : rest = before ++ (d.opening ++ (raw ++ (d.closing ++ behind))) := by
      rw [Text.eq_append_of_cut? hopen, Cursor.eq_append_of_body? hbody]
    have hplace := closesAt_closingPlace front before raw behind d
    rw [← hrest] at hplace
    rw [Site.sitesFrom_of_body? hopen hbody, Survey.along, pass, hd]
    dsimp only
    by_cases hnil : Text.trim raw = []
    · rw [if_pos hnil]
      exact hplace
    · rw [if_neg hnil]
      rcases hdirective : Directive.ofBody? (Text.trim raw) with - | directive
      · exact hplace
      · have hfollow := hw.follow hplace directive
        dsimp only
        rcases hfollowed : w.follow _ directive with f | w'
        all_goals rw [hfollowed] at hfollow
        · exact hfollow
        · have hfront : front ++ rest = front ++ before ++ written ++ behind := by
            rw [hrest]
            simp [written]
          have hd' := (delimiters_of_follow (c := ⟨rest, 1, true, d⟩) hfollowed hd).trans
            (Cursor.delimitersAfter_eq hdirective _)
          rw [hfront] at hfollow ⊢
          have halong := ih hfollow hd'
          rw [List.length_append] at halong
          exact halong

end

theorem isMarked_ofTemplate (template : List Char) : IsMarked template (ofTemplate template) :=
  Marked.along .standard [] template
    ⟨fun _ hs ↦ absurd hs List.not_mem_nil, fun _ hs ↦ absurd hs List.not_mem_nil⟩ rfl

end Survey

/-- **Lines are those of places.** A template is read as a survey of its text finds it: a defect on
the line of its place and every section on the line of its own. These places are those of delimiters
in the text. So no line is in front of the first or behind that of the end of the text, and the
lines of sections go up in the order of the tree. -/
theorem parse_lines_of_places (c : Compiler) (template : String) :
    (c.parse template).map Tree.sections =
        Survey.report template.toList (Survey.inLines template.toList)
          (Survey.ofTemplate template.toList) ∧
      Survey.IsMarked template.toList (Survey.ofTemplate template.toList) ∧
      (∀ m, c.parse template = .error m →
        1 ≤ m.line ∧ m.line ≤ Text.lineAt template.toList template.toList.length) ∧
      ∀ tree, c.parse template = .ok tree →
        (∀ s ∈ tree.sections,
          1 ≤ s.2 ∧ s.2 ≤ Text.lineAt template.toList template.toList.length) ∧
        (tree.sections.map Prod.snd).Pairwise (· ≤ ·) := by
  have hsurvey := c.map_sections_parse template
  refine ⟨hsurvey, Survey.isMarked_ofTemplate _, fun m hm ↦ ?_, fun tree htree ↦
    ⟨fun s hs ↦ ?_, ?_⟩⟩
  · obtain ⟨f, -, rfl⟩ := (c.parse_eq_error_iff template m).1 hm
    exact ⟨Text.one_le_lineAt _ _, Text.lineAt_le _ _⟩
  · rw [htree] at hsurvey
    rcases hfound : Survey.ofTemplate template.toList with f | sections
    · rw [hfound] at hsurvey
      cases hsurvey
    · rw [hfound] at hsurvey
      have hlines : tree.sections = Survey.inLines template.toList sections :=
        Except.ok.inj hsurvey
      rw [hlines] at hs
      obtain ⟨place, -, rfl⟩ := List.mem_map.1 hs
      exact ⟨Text.one_le_lineAt _ _, Text.lineAt_le _ _⟩
  · -- the walk passes the sections with lines that go up, and its outline is that of the tree
    have houtline := c.map_outline_parse template
    rw [htree] at houtline
    have hstart : Walk.start.SortedUpTo 1 :=
      ⟨List.Pairwise.nil, fun _ hl ↦ absurd hl List.not_mem_nil⟩
    exact Walk.SortedUpTo.of_along (c := .start template.toList) hstart houtline.symm

/-- An open tag that ends on the next line and takes the break behind it, and a close tag on a line
of its own that closes another section than the innermost. -/
theorem parse_lines_of_places_of_standalone :
    let closed :=
      "a\n \x7b\x7b#s\n\x7d\x7d \r\n\x7b\x7b^t\x7d\x7db\n\x7b\x7b/t\x7d\x7d\x7b\x7b/s\x7d\x7d"
    let interleaved := "\x7b\x7b#s\x7d\x7d\r\n\n \x7b\x7b/t\x7d\x7d \r\nb"
    let c := Compiler.standard
    (Survey.ofTemplate closed.toList = .ok [("s", 8), ("t", 17)] ∧
        (c.parse closed).map Tree.sections = .ok [("s", 3), ("t", 4)]) ∧
      Survey.ofTemplate interleaved.toList = .error ⟨14, .interleavedClose "t"⟩ ∧
        c.parse interleaved = .error ⟨3, .interleavedClose "t"⟩ ∧
        1 ≤ 3 ∧ 3 ≤ Text.lineAt interleaved.toList interleaved.toList.length := by
  intro closed interleaved c
  have hclosed : Survey.ofTemplate closed.toList = .ok [("s", 8), ("t", 17)] := by
    decide +kernel
  have hinterleaved : c.parse interleaved = .error ⟨3, .interleavedClose "t"⟩ := by
    dsimp only [c, interleaved]
    with_unfolding_all rfl
  have hlines := (parse_lines_of_places c closed).1
  rw [hclosed] at hlines
  refine ⟨⟨hclosed, hlines.trans (by decide +kernel)⟩, by decide +kernel, hinterleaved, ?_⟩
  exact (parse_lines_of_places c interleaved).2.2.1 _ hinterleaved

end Mustache
