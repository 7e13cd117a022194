import Mustache.Proofs.Descent
import Mustache.Proofs.TextConservation

/-!
# Marks that promise nothing

`Delimiters` is a pair of marks together with the proof that both are usable, and that reading ends
rests on it. Here a template is read with pairs of which nothing is known: all that a delimiter
change has to give is two words without an equals sign, and nothing in the definition of reading
says that it gets anywhere. `Loose.level` goes on for as many rounds as it is given and has no value
where that was too few.

* **What is asked of the words is enough** (`Marks.ofBody?_eq`). That a word is not empty and holds
  no separator is in what a word is.
* **The pairs that come up are usable at every point**, inside of sections and behind them: a
  position that reading comes to is a `Cursor` without its proofs (`Cursor.exists_of_reaches`), and
  it comes to the one behind a level (`Loose.reaches_of_level`).
* **So reading ends** (`Cursor.level_loosened`), in no more rounds than there are characters ahead
  and one, with what a cursor reads, and in the pair of the last change that is written in the
  template (`Cursor.lastChange_of_finished`), however deep in sections.
-/

namespace Mustache

/-! ### Marks -/

/-- A pair of marks. -/
structure Marks where
  opening : List Char
  closing : List Char
  deriving DecidableEq

/-- The marks alone. -/
def Delimiters.marks (d : Delimiters) : Marks :=
  ⟨d.opening, d.closing⟩

/-- A directive whose change of delimiters is left to those who read on. What it leaves in a tree
is what a remark does, nothing. -/
def Directive.loosened : Directive → Directive
  | .delimiters _ => .comment
  | directive => directive

namespace Marks

/-- The pair given by a delimiter change, whose trimmed body is two words between equals signs. -/
def ofBody? (body : List Char) : Option Marks :=
  match body with
  | '=' :: rest =>
    if rest.getLast? = some '=' then
      match Text.words Text.isSeparator rest.dropLast with
      | [opening, closing] =>
        if '=' ∈ opening ∨ '=' ∈ closing then none else some ⟨opening, closing⟩
      | _ => none
    else none
  | _ => none

/-- A body without the sigil of a change gives no pair, usable or not. -/
theorem ofBody?_of_head?_ne {body : List Char} (h : body.head? ≠ some '=') :
    ofBody? body = none ∧ Delimiters.ofBody? body = none := by
  constructor
  · unfold ofBody?
    split
    · exact absurd rfl h
    · rfl
  · unfold Delimiters.ofBody?
    split
    · exact absurd rfl h
    · rfl

/-- **Two words without an equals sign are usable.** -/
theorem ofBody?_eq (body : List Char) :
    ofBody? body = (Delimiters.ofBody? body).map Delimiters.marks := by
  by_cases hhead : body.head? = some '='
  · obtain ⟨rest, rfl⟩ := List.head?_eq_some_iff.1 hhead
    show (if rest.getLast? = some '=' then _ else none) =
      Option.map Delimiters.marks (if rest.getLast? = some '=' then _ else none)
    by_cases hlast : rest.getLast? = some '='
    · rw [if_pos hlast, if_pos hlast]
      rcases hwords : Text.words Text.isSeparator rest.dropLast with
        - | ⟨opening, - | ⟨closing, - | ⟨_, _⟩⟩⟩
      · rfl
      · rfl
      · dsimp only
        have hword : ∀ w ∈ [opening, closing], ('=' ∉ w ↔ Usable w) := fun w hw ↦ by
          obtain ⟨hne, hword⟩ := Text.of_mem_words (hwords ▸ hw)
          exact ⟨fun hequals ↦ ⟨hne, fun c hc ↦ ⟨fun heq ↦ hequals (heq ▸ hc), hword c hc⟩⟩,
            fun husable hequals ↦ (husable.2 '=' hequals).1 rfl⟩
        have hboth : ¬('=' ∈ opening ∨ '=' ∈ closing) ↔ Usable opening ∧ Usable closing := by
          rw [not_or, hword opening List.mem_cons_self,
            hword closing (List.mem_cons_of_mem _ List.mem_cons_self)]
        by_cases husable : Usable opening ∧ Usable closing
        · rw [dif_pos husable, if_neg (hboth.2 husable)]
          rfl
        · rw [dif_neg husable, if_pos (Decidable.not_not.1 (mt hboth.1 husable))]
          rfl
      · rfl
    · rw [if_neg hlast, if_neg hlast]
      rfl
  · obtain ⟨hnone, hnone'⟩ := ofBody?_of_head?_ne hhead
    rw [hnone, hnone', Option.map_none]

/-- The body of a tag whose opening mark has just been read, and the text behind the closing one. -/
def body? (m : Marks) (t : List Char) : Option (List Char × List Char) :=
  if t.head? = some '\x7b' then
    (Text.cut? ('\x7d' :: m.closing) t).map fun parts ↦ (parts.1 ++ ['\x7d'], parts.2)
  else Text.cut? m.closing t

/-- What a tag asks for, and the marks in effect behind it. -/
def directive? (m : Marks) (body : List Char) : Option (Directive × Marks) :=
  if body.head? = some '=' then (ofBody? body).map fun changed ↦ (.comment, changed)
  else (Directive.ofBody? body).map fun directive ↦ (directive, m)

end Marks

/-! ### Positions -/

/-- A position in a template that is read with a pair of marks. -/
structure Loose where
  /-- The text ahead. -/
  rest : List Char
  /-- The line of the position. -/
  line : Nat
  /-- Whether the position is the start of a line. -/
  atLineStart : Bool
  marks : Marks

namespace Loose

/-- One step of reading. -/
inductive Step
  | token (t : Token) (next : Loose)
  | finished (text : List Char)
  | defective (m : Malformed)

/-- The start of a template. -/
def start (template : String) : Loose :=
  ⟨template.toList, 1, true, Delimiters.standard.marks⟩

/-- The token of a tag whose directive is known, and the position behind it. -/
def tagStep (p : Loose) (lead : Lead) (raw behind : List Char) (line : Nat) (directive : Directive)
    (marks : Marks) : Step :=
  let written := p.marks.opening ++ (raw ++ p.marks.closing)
  match Cursor.takenLineEnd? lead (Text.trim raw) behind with
  | none =>
    .token ⟨lead.before, lead.padding, written, directive, line, none⟩ ⟨behind, line, false, marks⟩
  | some (ending, rest) =>
    .token ⟨lead.before, lead.padding, written, directive, line, some ending⟩
      ⟨rest, line + Text.lineBreaks ending, true, marks⟩

/-- Reads the text up to the next tag and that tag. -/
def step (p : Loose) : Step :=
  match Text.cut? p.marks.opening p.rest with
  | none => .finished p.rest
  | some (text, inside) =>
    match p.marks.body? inside with
    | none => .defective ⟨p.line + Text.lineBreaks text, .unmatchedOpen⟩
    | some (raw, behind) =>
      let line := p.line + Text.lineBreaks text + Text.lineBreaks raw
      if Text.trim raw = [] then .defective ⟨line, .emptyTag⟩
      else
        match p.marks.directive? (Text.trim raw) with
        | none => .defective ⟨line, .invalidDelimiters⟩
        | some (directive, marks) =>
          p.tagStep (Lead.ofText p.atLineStart text) raw behind line directive marks

/-- Reads a level to its end, `read` being its elements so far: the elements of the level, the
latest first, and the position behind it. There is no value where the rounds do not suffice. -/
def level (forceRaw : Bool) :
    Nat → Option (String × Nat) → List Element → Loose →
      Option (Except Malformed (List Element × Loose))
  | 0, _, _, _ => none
  | rounds + 1, inside?, read, p =>
    match p.step with
    | .defective m => some (.error m)
    | .finished text =>
      match inside? with
      | none => some (.ok (Element.addText read text, p))
      | some (name, line) => some (.error ⟨line, .unclosedSection name⟩)
    | .token t next =>
      match t.directive with
      | .enter name inverted =>
        match level forceRaw rounds (some (name, t.line)) [] next with
        | none => none
        | some (.error m) => some (.error m)
        | some (.ok (inner, behind)) =>
          level forceRaw rounds inside?
            (.block name inverted t.line inner.reverse :: Element.addText read t.text) behind
      | .leave name =>
        match inside? with
        | none => some (.error ⟨t.line, .unmatchedClose⟩)
        | some (innermost, _) =>
          if innermost = name then some (.ok (Element.addText read t.text, next))
          else some (.error ⟨t.line, .interleavedClose name⟩)
      | _ =>
        level forceRaw rounds inside?
          ((Element.ofToken? forceRaw t).toList ++ Element.addText read t.text) next

/-- The elements of a template's text, and the marks that it ends with. -/
def tree (forceRaw : Bool) (rounds : Nat) (template : String) :
    Option (Except Malformed (List Element × Marks)) :=
  (level forceRaw rounds none [] (start template)).map fun r ↦
    r.map fun parts ↦ (parts.1.reverse, parts.2.marks)

/-- Whether reading comes from the first position to the second one. -/
inductive Reaches (p : Loose) : Loose → Prop
  | refl : Reaches p p
  | step {q next : Loose} {t : Token} (h : Reaches p q) (hstep : q.step = .token t next) :
    Reaches p next

theorem Reaches.trans {p q r : Loose} (hpq : p.Reaches q) (hqr : q.Reaches r) : p.Reaches r := by
  induction hqr with
  | refl => exact hpq
  | step _ hstep ih => exact ih.step hstep

/-- Behind a level is a position that reading comes to. -/
theorem reaches_of_level {forceRaw : Bool} {rounds : Nat} {inside? : Option (String × Nat)}
    {read elements : List Element} {p behind : Loose}
    (h : level forceRaw rounds inside? read p = some (.ok (elements, behind))) :
    p.Reaches behind := by
  induction rounds generalizing inside? read elements p behind with
  | zero => cases h
  | succ rounds ih =>
    rw [level] at h
    split at h
    · cases h
    · cases inside? with
      | none =>
        cases h
        exact .refl
      | some _ => cases h
    · next t next hstep =>
      have hnext : p.Reaches next := .step .refl hstep
      split at h
      · split at h
        · cases h
        · cases h
        · next hinner => exact (hnext.trans (ih hinner)).trans (ih h)
      · split at h
        · cases h
        · split at h
          · cases h
            exact hnext
          · cases h
      · exact hnext.trans (ih h)

end Loose

/-! ### Cursors without their proofs -/

/-- The token of a tag whose change of delimiters is left to those who read on. -/
def Token.loosened (t : Token) : Token :=
  { t with directive := t.directive.loosened }

/-- A remark leaves no more in a tree than a change of delimiters. -/
theorem Element.ofToken?_loosened (forceRaw : Bool) (t : Token) :
    ofToken? forceRaw t.loosened = ofToken? forceRaw t := by
  unfold ofToken? Token.loosened
  cases t.directive <;> rfl

/-- The position alone. -/
def Cursor.loosened (c : Cursor) : Loose :=
  ⟨c.rest, c.line, c.atLineStart, c.delimiters.marks⟩

/-- The step alone. -/
def Step.loosened : Step → Loose.Step
  | .token t next => .token t.loosened next.loosened
  | .stop (.finished text _) => .finished text
  | .stop (.defective m) => .defective m

namespace Cursor

/-- What is read of a level, and the position behind it alone. -/
def Level.loosened {c : Cursor} (l : Level c) : List Element × Loose :=
  (l.elements, l.behind.loosened)

/-- It is the same from wherever the level is seen. -/
theorem map_loosened_widen {c next : Cursor} (h : next.rest.length ≤ c.rest.length)
    (r : Except Malformed (Level next)) :
    (r.map (Level.widen h)).map Level.loosened = r.map Level.loosened := by
  cases r <;> rfl

/-- A tag asks for the same, and the marks behind it are those of the delimiters. -/
theorem directive?_marks (c : Cursor) (body : List Char) :
    c.delimiters.marks.directive? body = (Directive.ofBody? body).map fun directive ↦
      (directive.loosened, (c.delimitersAfter directive).marks) := by
  unfold Marks.directive?
  split
  · next hmark =>
    have hchange : Directive.ofBody? body = (Delimiters.ofBody? body).map .delimiters := by
      rw [Directive.ofBody?, hmark]
      rfl
    rw [hchange, Marks.ofBody?_eq, Option.map_map, Option.map_map]
    rfl
  · next hmark =>
    -- without the mark of a change the delimiters stay, and the directive with them
    unfold Directive.ofBody?
    split
    case h_6 heq => exact absurd heq hmark
    case h_8 => split <;> rfl
    all_goals rfl

theorem tagStep_loosened (c : Cursor) (lead : Lead) (raw behind : List Char) (line : Nat)
    (directive : Directive) :
    c.loosened.tagStep lead raw behind line directive.loosened (c.delimitersAfter directive).marks =
      (c.tagStep lead raw behind line directive).loosened := by
  unfold Loose.tagStep tagStep
  cases takenLineEnd? lead (Text.trim raw) behind <;> rfl

theorem step_loosened (c : Cursor) : c.loosened.step = c.step.loosened := by
  unfold Loose.step step
  rw [show Text.cut? c.loosened.marks.opening c.loosened.rest =
    Text.cut? c.delimiters.opening c.rest from rfl]
  cases Text.cut? c.delimiters.opening c.rest with
  | none => rfl
  | some parts =>
    obtain ⟨text, inside⟩ := parts
    dsimp only
    rw [show c.loosened.marks.body? inside = body? c.delimiters inside from rfl]
    cases body? c.delimiters inside with
    | none => rfl
    | some parts =>
      obtain ⟨raw, behind⟩ := parts
      dsimp only
      by_cases htrim : Text.trim raw = []
      · rw [if_pos htrim, if_pos htrim]
        rfl
      · rw [if_neg htrim, if_neg htrim,
          show c.loosened.marks.directive? (Text.trim raw) = _ from c.directive?_marks _]
        cases Directive.ofBody? (Text.trim raw) with
        | none => rfl
        | some directive => exact c.tagStep_loosened ..

/-- A token of a position that is a cursor's is a token of the cursor's. -/
theorem exists_of_step_loosened {c : Cursor} {t : Token} {next : Loose}
    (h : c.loosened.step = .token t next) :
    ∃ t' next', c.step = .token t' next' ∧ next = next'.loosened := by
  rw [step_loosened] at h
  rcases hstep : c.step with ⟨t', next'⟩ | ⟨⟨text, d⟩ | m⟩ <;> rw [hstep] at h
  · exact ⟨t', next', rfl, (Loose.Step.token.inj h).2.symm⟩
  · cases h
  · cases h

/-- **Reading that goes on from a cursor comes to cursors only.** -/
theorem exists_of_reaches {c : Cursor} {p : Loose} (h : c.loosened.Reaches p) :
    ∃ c' : Cursor, p = c'.loosened := by
  induction h with
  | refl => exact ⟨c, rfl⟩
  | step _ hstep ih =>
    obtain ⟨c', rfl⟩ := ih
    obtain ⟨-, next', -, rfl⟩ := exists_of_step_loosened hstep
    exact ⟨next', rfl⟩

/-- **Reading a level ends**, in no more rounds than there are characters ahead and one, with what
the cursor reads and behind it where the cursor is. -/
theorem level_loosened (forceRaw : Bool) {rounds : Nat} (inside? : Option (String × Nat))
    (read : List Element) {c : Cursor} (h : c.rest.length < rounds) :
    Loose.level forceRaw rounds inside? read c.loosened =
      some ((c.level forceRaw inside? read).map Level.loosened) := by
  induction rounds generalizing inside? read c with
  | zero => exact absurd h (Nat.not_lt_zero _)
  | succ rounds ih =>
    rw [Loose.level, step_loosened]
    match hstep : c.step with
    | .stop (.defective m) =>
      rw [level_of_defective forceRaw inside? read hstep]
      rfl
    | .stop (.finished text d) =>
      rw [level_of_finished forceRaw inside? read hstep]
      cases inside? <;> rfl
    | .token t next =>
      -- a token takes something of what is ahead, so one round less is enough behind it
      have hlt := length_rest_lt_of_step hstep
      have hnext : next.rest.length < rounds := by omega
      rw [level_of_token forceRaw inside? read hstep]
      cases hd : t.directive with
      | enter name inverted =>
        simp only [Step.loosened, Token.loosened, hd, Directive.loosened]
        rw [ih (some (name, t.line)) [] hnext]
        rcases next.level forceRaw (some (name, t.line)) [] with m | inner
        · rfl
        · dsimp only
          rw [map_loosened_widen]
          exact ih inside? _ (Nat.lt_of_le_of_lt inner.length_rest_le hnext)
      | leave name =>
        simp only [Step.loosened, Token.loosened, hd, Directive.loosened]
        rcases inside? with - | ⟨innermost, line⟩
        · rfl
        · dsimp only
          by_cases hname : innermost = name
          · rw [if_pos hname, if_pos hname]
            rfl
          · rw [if_neg hname, if_neg hname]
            rfl
      | _ =>
        dsimp only
        rw [map_loosened_widen, ← Element.ofToken?_loosened]
        simp only [Step.loosened, Token.loosened, hd, Directive.loosened]
        exact ih inside? _ hnext

end Cursor

/-! ### The last change -/

/-- The pair that a tag changes to. -/
def Site.change? (s : Site) : Option Delimiters :=
  Delimiters.ofBody? (Text.trim s.raw)

/-- The pair in effect behind the tags, where `d` is in front of them. -/
def Site.lastChange (d : Delimiters) (sites : List Site) : Delimiters :=
  (sites.filterMap change?).getLastD d

theorem Site.lastChange_cons (d : Delimiters) (s : Site) (sites : List Site) :
    lastChange d (s :: sites) = lastChange (s.change?.getD d) sites := by
  unfold lastChange
  rw [List.filterMap_cons]
  cases s.change? with
  | none => rfl
  | some changed => rw [List.getLastD_cons, Option.getD_some]

/-- Reading ends with the pair of the last change. -/
theorem Cursor.lastChange_of_finished {c : Cursor} {text : List Char} {d : Delimiters}
    (hending : c.tokens.ending = .finished text d) (front : List Char) :
    Site.lastChange c.delimiters (Site.sitesFrom c.delimiters front c.rest) = d := by
  match hstep : c.step with
  | .stop e =>
    rw [tokens_of_stop hstep] at hending
    obtain rfl : e = .finished text d := hending
    obtain ⟨hcut, -, rfl⟩ := cut?_of_step_finished hstep
    rw [Site.sitesFrom_of_cut?_eq_none hcut]
    rfl
  | .token t next =>
    rw [tokens_of_token hstep] at hending
    obtain ⟨inside, raw, behind, p⟩ := exists_passage_of_step hstep
    rw [p.sitesFrom_eq front, Site.lastChange_cons, Site.change?, ← delimitersAfter_eq p.directive,
      ← p.delimiters]
    exact lastChange_of_finished hending _
termination_by c.rest.length
decreasing_by exact length_rest_lt_of_step hstep

/-! ### Reading ends -/

/-- Both marks are usable: neither is empty or holds an equals sign or a character between words. -/
def Marks.AreUsable (m : Marks) : Prop :=
  ∀ mark ∈ [m.opening, m.closing],
    mark ≠ [] ∧ ∀ x ∈ ['=', '\n', '\r', ' ', '\t', '\x0c'], x ∉ mark

theorem Delimiters.areUsable_marks (d : Delimiters) : d.marks.AreUsable := by
  have husable {mark : List Char} (h : Usable mark) :
      mark ≠ [] ∧ ∀ x ∈ ['=', '\n', '\r', ' ', '\t', '\x0c'], x ∉ mark := by
    refine ⟨h.1, fun x hx hmem ↦ ?_⟩
    obtain ⟨hequals, hseparator⟩ := h.2 x hmem
    rcases List.mem_cons.1 hx with rfl | hx
    · exact hequals rfl
    · have hall : ∀ x ∈ ['\n', '\r', ' ', '\t', '\x0c'], Text.isSeparator x = true := by
        simp [Text.isSeparator]
      exact Bool.false_ne_true (hseparator.symm.trans (hall x hx))
  intro mark hmark
  rcases List.mem_cons.1 hmark with rfl | hmark
  · exact husable d.opening_usable
  · obtain rfl := List.mem_singleton.1 hmark
    exact husable d.closing_usable

/-- The start of a template has no proofs to lose but those of the standard pair. -/
theorem Loose.start_eq (template : String) :
    start template = (Cursor.start template.toList).loosened := rfl

theorem Loose.tree_eq (forceRaw : Bool) {rounds : Nat} {template : String}
    (h : template.length < rounds) :
    tree forceRaw rounds template = some ((Tree.ofText forceRaw template).map fun t ↦
      (t.elements, t.delimiters.marks)) := by
  rw [tree, start_eq, Cursor.level_loosened forceRaw none [] h, Tree.ofText_eq_descend,
    Tree.descend]
  cases (Cursor.start template.toList).level forceRaw none [] <;> rfl

/-- A compiled template has the tree of its text. -/
theorem Compiler.parse_of_compile {c : Compiler} {template : String} {t : Template}
    (h : (c.compile template).outcome = .ok t) : c.parse template = .ok t.tree := by
  unfold compile at h
  cases hparse : c.parse template with
  | error m =>
    rw [hparse] at h
    cases h
  | ok tree =>
    rw [hparse] at h
    cases h
    rfl

/-- **Reading ends on every text**, since the marks in effect are usable at every point of it. As
often as an opening mark is found there is less ahead, so there are enough rounds where there are
more of them than characters, and there is a tree or a defect then: the ones of the compiled
template, which has the delimiters of the last change in its text. -/
theorem reading_ends_with_usable_marks (c : Compiler) (template : String) :
    (∀ p, (Loose.start template).Reaches p →
      p.marks.AreUsable ∧
      (∀ text inside, Text.cut? p.marks.opening p.rest = some (text, inside) →
        inside.length < p.rest.length) ∧
      (∀ t next, p.step = .token t next → next.rest.length < p.rest.length) ∧
      ∀ inside? read, ∃ r,
        (∀ rounds, p.rest.length < rounds →
          Loose.level (c.escapeMode == .raw) rounds inside? read p = some r) ∧
        ∀ elements behind, r = .ok (elements, behind) →
          p.Reaches behind ∧ behind.rest.length ≤ p.rest.length) ∧
    (∀ rounds, template.length < rounds →
      Loose.tree (c.escapeMode == .raw) rounds template =
        some ((c.parse template).map fun tree ↦ (tree.elements, tree.delimiters.marks))) ∧
    ∀ t, (c.compile template).outcome = .ok t →
      t.delimiters = Site.lastChange .standard (Site.ofTemplate template.toList) := by
  refine ⟨fun p hp ↦ ?_, fun rounds ↦ Loose.tree_eq _, fun t ht ↦ ?_⟩
  · -- a position that is reached is one of a cursor, whose delimiters are usable by their type
    obtain ⟨c', rfl⟩ := Cursor.exists_of_reaches (Loose.start_eq template ▸ hp)
    have hlevel (inside? : Option (String × Nat)) (read : List Element) (rounds : Nat)
        (h : c'.rest.length < rounds) :=
      Cursor.level_loosened (c.escapeMode == .raw) inside? read h
    refine ⟨c'.delimiters.areUsable_marks, fun text inside hcut ↦ ?_, fun t next hstep ↦ ?_,
      fun inside? read ↦ ⟨_, hlevel inside? read, fun elements behind hr ↦ ?_⟩⟩
    · exact Text.length_lt_of_cut? c'.delimiters.opening_usable.1 hcut
    · obtain ⟨_, next', hstep', rfl⟩ := Cursor.exists_of_step_loosened hstep
      exact Cursor.length_rest_lt_of_step hstep'
    · have hread := hlevel inside? read _ (Nat.lt_succ_self _)
      rw [hr] at hread
      refine ⟨Loose.reaches_of_level hread, ?_⟩
      cases hcursor : c'.level (c.escapeMode == .raw) inside? read with
      | error m =>
        rw [hcursor] at hr
        cases hr
      | ok l =>
        rw [hcursor] at hr
        cases hr
        exact l.length_rest_le
  · obtain ⟨text, hending, -⟩ := flatMap_chars_of_ofTokens (Compiler.parse_of_compile ht)
    exact (Cursor.lastChange_of_finished hending []).symm

/-- The position behind a change of delimiters inside a section, and the template as a whole, which
ends with the changed pair. -/
theorem reading_ends_with_usable_marks_of_change_in_section :
    let template := "\x7b\x7b#a\x7d\x7d\x7b\x7b=<% %>=\x7d\x7d<%x%><%/a%><%y%>"
    let changed : Loose := ⟨"<%x%><%/a%><%y%>".toList, 1, false, ⟨['<', '%'], ['%', '>']⟩⟩
    let inner : Loose := ⟨"<%/a%><%y%>".toList, 1, false, ⟨['<', '%'], ['%', '>']⟩⟩
    let outer : Loose := ⟨"<%y%>".toList, 1, false, ⟨['<', '%'], ['%', '>']⟩⟩
    let tree : Tree :=
      ⟨[.block "a" false 1 [.interpolation "x" false], .interpolation "y" false],
        ⟨['<', '%'], ['%', '>'], by decide, by decide⟩⟩
    (Loose.start template).Reaches changed ∧ changed.marks.AreUsable ∧
      Text.cut? changed.marks.opening changed.rest = some ([], "x%><%/a%><%y%>".toList) ∧
      "x%><%/a%><%y%>".toList.length < changed.rest.length ∧
      changed.step = .token ⟨[], [], "<%x%>".toList, .interpolation "x" false, 1, none⟩ inner ∧
      inner.rest.length < changed.rest.length ∧
      changed.rest.length < 17 ∧
      Loose.level false 17 (some ("a", 1)) [] changed =
        some (.ok ([.interpolation "x" false], outer)) ∧
      changed.Reaches outer ∧ outer.rest.length ≤ changed.rest.length ∧
      template.length < 34 ∧
      Loose.tree false 34 template = some (.ok (tree.elements, tree.delimiters.marks)) ∧
      (Compiler.standard.compile template).outcome = .ok ⟨tree, .standard⟩ ∧
      tree.delimiters = Site.lastChange .standard (Site.ofTemplate template.toList) := by
  intro template changed inner outer tree
  have hfirst : (Loose.start template).step =
      .token ⟨[], [], "\x7b\x7b#a\x7d\x7d".toList, .enter "a" false, 1, none⟩
        ⟨"\x7b\x7b=<% %>=\x7d\x7d<%x%><%/a%><%y%>".toList, 1, false,
          Delimiters.standard.marks⟩ := by
    dsimp only [template]
    with_unfolding_all rfl
  have hchange : Loose.step ⟨"\x7b\x7b=<% %>=\x7d\x7d<%x%><%/a%><%y%>".toList, 1, false,
      Delimiters.standard.marks⟩ =
        .token ⟨[], [], "\x7b\x7b=<% %>=\x7d\x7d".toList, .comment, 1, none⟩ changed := by
    with_unfolding_all rfl
  -- the change is behind the open tag of the section and in front of its first piece
  have hreaches : (Loose.start template).Reaches changed := .step (.step .refl hfirst) hchange
  have hcut : Text.cut? changed.marks.opening changed.rest =
      some ([], "x%><%/a%><%y%>".toList) := by
    decide
  have hstep : changed.step =
      .token ⟨[], [], "<%x%>".toList, .interpolation "x" false, 1, none⟩ inner := by
    with_unfolding_all rfl
  have hahead : changed.rest.length < 17 := by decide
  have hlevel : Loose.level false 17 (some ("a", 1)) [] changed =
      some (.ok ([.interpolation "x" false], outer)) := by
    with_unfolding_all rfl
  have hcompile : (Compiler.standard.compile template).outcome = .ok ⟨tree, .standard⟩ := by
    dsimp only [template]
    with_unfolding_all rfl
  have hlength : template.length < 34 := by decide
  obtain ⟨hpositions, htree, hdelimiters⟩ := reading_ends_with_usable_marks .standard template
  obtain ⟨husable, hopening, hnext, hbehind⟩ := hpositions changed hreaches
  obtain ⟨r, hr, hreached⟩ := hbehind (some ("a", 1)) []
  obtain ⟨houter, hle⟩ := hreached _ _ (Option.some.inj ((hr 17 hahead).symm.trans hlevel))
  have htree := htree 34 hlength
  rw [Compiler.parse_of_compile hcompile] at htree
  exact ⟨hreaches, husable, hcut, hopening _ _ hcut, hstep, hnext _ _ hstep, hahead, hlevel, houter,
    hle, hlength, htree, hcompile, hdelimiters _ hcompile⟩

end Mustache
