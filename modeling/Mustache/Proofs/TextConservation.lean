import Mustache.Proofs.DocumentOrder
import Mustache.Proofs.StandingAlone
import Mustache.Template

/-!
# The text of a template is conserved

What a template writes as it stands is its own text, less its tags, and less the rest of the line
where a tag stands alone.

## The other side

* A `Site` is a tag in its place in the whole template. `Site.ofTemplate` finds the sites by looking
  for delimiters and for nothing else: it knows of no lines, and it goes on right behind a closing
  delimiter. A reader goes on behind the line end it has taken. The two meet because no character of
  a line end is in a delimiter (`sitesFrom_append`).
* Standing alone, and what goes with it, is said of a site by looking at all of the template on
  either side (`Site.StandsAlone`, `Site.Removes`).
* What is removed is a set of places, so `Text.without` can lose, repeat or reorder nothing else.

`texts_eq_without` puts the two together. The induction is over the positions of the reader, with
`Cursor.Placed` as its invariant.
-/

namespace Mustache

/-! ### Texts with places left out -/

/-- The text, whose first character is in place `k`, less the characters in places `removed`. -/
def Text.without (removed : Nat → Bool) (k : Nat) : List Char → List Char
  | [] => []
  | c :: t => if removed k then without removed (k + 1) t else c :: without removed (k + 1) t

namespace Text

variable {removed others : Nat → Bool}

theorem without_append (removed : Nat → Bool) (k : Nat) (t u : List Char) :
    without removed k (t ++ u) = without removed k t ++ without removed (k + t.length) u := by
  induction t generalizing k with
  | nil => rfl
  | cons c t ih =>
    have hplace : k + 1 + t.length = k + (c :: t).length := by
      rw [List.length_cons]
      omega
    rw [List.cons_append, without, without, ih, hplace]
    split <;> rfl

/-- Only the places of the text matter. -/
theorem without_congr {k : Nat} {t : List Char}
    (h : ∀ i, k ≤ i → i < k + t.length → removed i = others i) :
    without removed k t = without others k t := by
  induction t generalizing k with
  | nil => rfl
  | cons c t ih =>
    rw [List.length_cons] at h
    rw [without, without, h k (Nat.le_refl k) (by omega),
      ih fun i hi hlt ↦ h i (by omega) (by omega)]

theorem without_eq_self {k : Nat} {t : List Char}
    (h : ∀ i, k ≤ i → i < k + t.length → removed i = false) : without removed k t = t := by
  induction t generalizing k with
  | nil => rfl
  | cons c t ih =>
    rw [List.length_cons] at h
    rw [without, h k (Nat.le_refl k) (by omega), ih fun i hi hlt ↦ h i (by omega) (by omega)]
    rfl

theorem without_eq_nil {k : Nat} {t : List Char}
    (h : ∀ i, k ≤ i → i < k + t.length → removed i = true) : without removed k t = [] := by
  induction t generalizing k with
  | nil => rfl
  | cons c t ih =>
    rw [List.length_cons] at h
    rw [without, h k (Nat.le_refl k) (by omega), ih fun i hi hlt ↦ h i (by omega) (by omega)]
    rfl

end Text

/-! ### Tags in their places -/

/-- A tag in its place in a template. -/
structure Site where
  /-- All of the template in front of the tag. -/
  front : List Char
  /-- What stands between the delimiters. -/
  raw : List Char
  /-- The tag, delimiters included. -/
  written : List Char
  /-- All of the template behind the tag. -/
  behind : List Char

namespace Site

/-- The tags of the text `rest`, which has `front` in front of it, up to the first that is not
closed. Each is delimited by the pair that the delimiter changes in front of it leave. -/
def sitesFrom (d : Delimiters) (front rest : List Char) : List Site :=
  match _hopen : Text.cut? d.opening rest with
  | none => []
  | some (text, inside) =>
    match _hbody : Cursor.body? d inside with
    | none => []
    | some (raw, behind) =>
      let written := d.opening ++ (raw ++ d.closing)
      ⟨front ++ text, raw, written, behind⟩ ::
        sitesFrom ((Delimiters.ofBody? (Text.trim raw)).getD d) (front ++ text ++ written) behind
termination_by rest.length
decreasing_by
  have hlt := Text.length_lt_of_cut? d.opening_usable.1 _hopen
  have hlen := congrArg List.length (Cursor.eq_append_of_body? _hbody)
  simp only [List.length_append] at hlen
  omega

/-- The tags of a template. -/
def ofTemplate (template : List Char) : List Site :=
  sitesFrom .standard [] template

/-- Whether a tag stands alone: its kind may, and only spaces and tabs are around it on its line. -/
def StandsAlone (s : Site) : Prop :=
  mayStandAlone (Text.trim s.raw) = true ∧ Text.BlankSinceBreak s.front ∧
    Text.BlankUntilBreak s.behind

instance (s : Site) : Decidable s.StandsAlone :=
  inferInstanceAs (Decidable (_ ∧ _ ∧ _))

/-- The place of the opening delimiter. -/
def start (s : Site) : Nat :=
  s.front.length

/-- The place behind the closing delimiter. -/
def stop (s : Site) : Nat :=
  s.front.length + s.written.length

/-- How many spaces and tabs are right in front of the tag. -/
def margin (s : Site) : Nat :=
  (Text.takeRightWhile Text.isInline s.front).length

/-- How many characters the spaces and tabs right behind the tag and a line break behind them
are. -/
def remainder (s : Site) : Nat :=
  (s.behind.takeWhile Text.isInline).length + Text.breakLength (s.behind.dropWhile Text.isInline)

/-- Whether the character in a place goes with the tag: it is one of the tag's own, or the tag
stands alone and it is one of the blanks around it or of the line break behind it. -/
def Removes (s : Site) (i : Nat) : Prop :=
  (s.start ≤ i ∧ i < s.stop) ∨
    (s.StandsAlone ∧ s.start - s.margin ≤ i ∧ i < s.stop + s.remainder)

instance (s : Site) (i : Nat) : Decidable (s.Removes i) :=
  inferInstanceAs (Decidable (_ ∨ _))

/-- Whether the character in a place goes with one of the tags. -/
def removedBy (sites : List Site) (i : Nat) : Bool :=
  sites.any fun s ↦ decide (s.Removes i)

/-! ### Finding tags -/

variable {d : Delimiters} {front rest : List Char}

theorem sitesFrom_of_cut?_eq_none (h : Text.cut? d.opening rest = none) :
    sitesFrom d front rest = [] := by
  rw [sitesFrom]
  split
  · rfl
  · next hcut => rw [h] at hcut; cases hcut

theorem sitesFrom_of_body? {text inside raw behind : List Char}
    (hopen : Text.cut? d.opening rest = some (text, inside))
    (hbody : Cursor.body? d inside = some (raw, behind)) :
    sitesFrom d front rest =
      ⟨front ++ text, raw, d.opening ++ (raw ++ d.closing), behind⟩ ::
        sitesFrom ((Delimiters.ofBody? (Text.trim raw)).getD d)
          (front ++ text ++ (d.opening ++ (raw ++ d.closing))) behind := by
  rw [sitesFrom]
  split
  · next hcut => rw [hopen] at hcut; cases hcut
  · next hcut =>
    rw [hopen] at hcut
    cases hcut
    split
    · next hfound => rw [hbody] at hfound; cases hfound
    · next hfound => rw [hbody] at hfound; cases hfound; rfl

theorem sitesFrom_of_body?_eq_none {text inside : List Char}
    (hopen : Text.cut? d.opening rest = some (text, inside))
    (hbody : Cursor.body? d inside = none) : sitesFrom d front rest = [] := by
  rw [sitesFrom]
  split
  · rfl
  · next hcut =>
    rw [hopen] at hcut
    cases hcut
    split
    · rfl
    · next hfound => rw [hbody] at hfound; cases hfound

/-- A line end makes no difference to what tags are found behind it. -/
theorem sitesFrom_append {ending : List Char} (h : ∀ c ∈ ending, Text.IsLineEndChar c) :
    sitesFrom d front (ending ++ rest) = sitesFrom d (front ++ ending) rest := by
  have hskip := Text.cut?_append_of_disjoint d.opening_usable.1
    (fun c hc ↦ Cursor.not_mem_of_isLineEndChar d.opening_usable (h c hc)) rest
  cases hopen : Text.cut? d.opening rest with
  | none =>
    rw [hopen] at hskip
    rw [sitesFrom_of_cut?_eq_none hskip, sitesFrom_of_cut?_eq_none hopen]
  | some parts =>
    obtain ⟨text, inside⟩ := parts
    rw [hopen] at hskip
    cases hbody : Cursor.body? d inside with
    | none => rw [sitesFrom_of_body?_eq_none hskip hbody, sitesFrom_of_body?_eq_none hopen hbody]
    | some parts =>
      obtain ⟨raw, behind⟩ := parts
      rw [sitesFrom_of_body? hskip hbody, sitesFrom_of_body? hopen hbody, ← List.append_assoc]

end Site

/-! ### The site of a token -/

namespace Cursor

/-- The position behind a delimiter change has the pair it gives. -/
theorem delimitersAfter_eq {body : List Char} {directive : Directive}
    (h : Directive.ofBody? body = some directive) (c : Cursor) :
    c.delimitersAfter directive = (Delimiters.ofBody? body).getD c.delimiters := by
  cases body with
  | nil =>
    cases h
    rfl
  | cons x body =>
    by_cases hx : x = '='
    · subst hx
      obtain ⟨d, hd, rfl⟩ := Option.map_eq_some_iff.1 h
      rw [hd]
      rfl
    · have hnone : Delimiters.ofBody? (x :: body) = none := by
        unfold Delimiters.ofBody?
        split
        · next heq => exact absurd (List.cons.inj heq).1 hx
        · rfl
      rw [hnone]
      unfold Directive.ofBody? at h
      split at h
      case h_6 heq => exact absurd (Option.some.inj heq) hx
      case h_8 => split at h <;> cases h <;> rfl
      all_goals cases h; rfl

namespace Passage

variable {c next : Cursor} {t : Token} {front inside raw behind : List Char}
  (p : Passage c t next inside raw behind)
include p

/-- A token takes nothing along but a line end. -/
theorem isLineEndChar_of_mem {x : Char} (hx : x ∈ t.lineEnd?.getD []) : Text.IsLineEndChar x := by
  cases hend : t.lineEnd? with
  | none =>
    rw [hend] at hx
    cases hx
  | some ending =>
    rw [hend] at hx
    exact (Text.lineEnd?_eq_some (p.lineEnd?_eq_of_some hend)).2.2 x hx

/-- The site of the token's tag, where `front` is in front of the position. -/
theorem sitesFrom_eq (front : List Char) :
    Site.sitesFrom c.delimiters front c.rest =
      ⟨front ++ (t.before ++ t.padding), raw, t.written, behind⟩ ::
        Site.sitesFrom next.delimiters (front ++ t.source) next.rest := by
  rw [Site.sitesFrom_of_body? p.cut_opening p.body, p.delimiters,
    delimitersAfter_eq p.directive, ← p.written, p.behind_eq,
    Site.sitesFrom_append fun _ ↦ p.isLineEndChar_of_mem]
  simp [Token.source]

/-- **A tag takes with it what the token keeps back of its source**: all but the token's text. -/
theorem removes_iff (hplaced : Placed front c) (i : Nat) :
    Site.Removes ⟨front ++ (t.before ++ t.padding), raw, t.written, behind⟩ i ↔
      front.length + t.text.length ≤ i ∧ i < front.length + t.source.length := by
  have halone := p.isSome_lineEnd?_iff hplaced
  cases hend : t.lineEnd? with
  | none =>
    have hnot : ¬ Site.StandsAlone ⟨front ++ (t.before ++ t.padding), raw, t.written, behind⟩ := by
      intro h
      have := halone.2 h
      rw [hend] at this
      cases this
    simp only [Site.Removes, hnot, false_and, or_false, Site.start, Site.stop, Token.text,
      Token.source, hend, Option.isSome_none, Bool.false_eq_true, if_false, Option.getD_none,
      List.append_nil, List.length_append]
    omega
  | some ending =>
    have hsome : t.lineEnd?.isSome = true := by rw [hend]; rfl
    have hstands : Site.StandsAlone ⟨front ++ (t.before ++ t.padding), raw, t.written, behind⟩ :=
      halone.1 hsome
    have hmargin := congrArg List.length (p.takeRightWhile_eq_padding hplaced hsome)
    have hremainder := (Text.lineEnd?_eq_some (p.lineEnd?_eq_of_some hend)).1
    simp only [Site.Removes, hstands, true_and, Site.start, Site.stop, Site.margin, Site.remainder,
      ← hremainder, hmargin, Token.text, Token.source, hend, Option.isSome_some, if_true,
      Option.getD_some, List.length_append]
    omega

end Passage

/-! ### The texts of a template -/

/-- The token's text is the part of its source in front of its tag, or of the blanks around it. -/
theorem exists_source_eq_text_append (t : Token) : ∃ dropped, t.source = t.text ++ dropped := by
  unfold Token.source Token.text
  split
  · exact ⟨t.padding ++ t.written ++ t.lineEnd?.getD [], by simp⟩
  · exact ⟨t.written ++ t.lineEnd?.getD [], by simp⟩

end Cursor

/-- A tag leaves the text in front of it, where all further tags are behind what goes with it. -/
theorem Site.without_removedBy_cons {site : Site} {sites : List Site} {k : Nat}
    {text dropped : List Char}
    (hsite : ∀ i, site.Removes i ↔ k + text.length ≤ i ∧ i < k + (text ++ dropped).length)
    (hlater : ∀ s ∈ sites, ∀ i, s.Removes i → k + (text ++ dropped).length ≤ i)
    (rest : List Char) :
    Text.without (removedBy (site :: sites)) k (text ++ dropped ++ rest) =
      text ++ Text.without (removedBy sites) (k + (text ++ dropped).length) rest := by
  have hlen : (text ++ dropped).length = text.length + dropped.length := List.length_append
  -- in front of the tag nothing is removed, the tag is, and behind it the later tags decide
  have hfront : ∀ i, k ≤ i → i < k + text.length → removedBy (site :: sites) i = false := by
    intro i _ hi
    rw [removedBy, List.any_eq_false]
    intro s hs
    rw [decide_eq_true_eq]
    intro hrem
    rcases List.mem_cons.1 hs with rfl | hs
    · have := (hsite i).1 hrem
      omega
    · have := hlater s hs i hrem
      omega
  have htag : ∀ i, k + text.length ≤ i → i < k + text.length + dropped.length →
      removedBy (site :: sites) i = true := by
    intro i hle hlt
    rw [removedBy, List.any_cons, Bool.or_eq_true, decide_eq_true_eq]
    exact .inl ((hsite i).2 ⟨hle, by omega⟩)
  have hbehind : ∀ i, k + (text ++ dropped).length ≤ i →
      i < k + (text ++ dropped).length + rest.length →
      removedBy (site :: sites) i = removedBy sites i := by
    intro i hle _
    have hnot : ¬ site.Removes i := by
      intro hrem
      have := (hsite i).1 hrem
      omega
    rw [removedBy, List.any_cons, decide_eq_false hnot, Bool.false_or, removedBy]
  rw [Text.without_append, Text.without_congr hbehind, Text.without_append,
    Text.without_eq_self hfront, Text.without_eq_nil htag, List.append_nil]

namespace Cursor

/-- **From a position on**, the sites remove nothing in front of it, and what they leave of the rest
is the texts of its tokens. -/
theorem texts_of_placed {c : Cursor} {front text : List Char} {d : Delimiters}
    (hplaced : Placed front c) (hending : c.tokens.ending = .finished text d) :
    (∀ s ∈ Site.sitesFrom c.delimiters front c.rest, ∀ i, s.Removes i → front.length ≤ i) ∧
      Text.without (Site.removedBy (Site.sitesFrom c.delimiters front c.rest)) front.length c.rest =
        c.tokens.list.flatMap Token.text ++ text := by
  match hstep : c.step with
  | .stop e =>
    rw [tokens_of_stop hstep] at hending ⊢
    obtain rfl : e = .finished text d := hending
    obtain ⟨hcut, rfl, -⟩ := cut?_of_step_finished hstep
    rw [Site.sitesFrom_of_cut?_eq_none hcut]
    exact ⟨by simp, Text.without_eq_self fun _ _ _ ↦ rfl⟩
  | .token t next =>
    rw [tokens_of_token hstep] at hending ⊢
    obtain ⟨inside, raw, behind, p⟩ := exists_passage_of_step hstep
    obtain ⟨hlater, htexts⟩ := texts_of_placed p.placed_next hending
    have hremoves := p.removes_iff hplaced
    obtain ⟨dropped, hsource⟩ := exists_source_eq_text_append t
    rw [List.length_append] at htexts hlater
    rw [hsource] at hlater htexts hremoves
    rw [p.sitesFrom_eq front, hsource]
    -- the sites are that of the tag, which goes from its text on, and those behind its source
    constructor
    · intro s hs i hi
      rcases List.mem_cons.1 hs with rfl | hs
      · have := (hremoves i).1 hi
        omega
      · have := hlater s hs i hi
        omega
    · rw [rest_of_step hstep, hsource, Site.without_removedBy_cons hremoves hlater, htexts]
      simp [Tokens.push]
termination_by c.rest.length
decreasing_by exact length_rest_lt_of_step hstep

end Cursor

/-- **Text conservation.** The texts of a compiled template, in document order and put together,
are the template less every tag and, where a tag stands alone, less the blanks around it and the
line break behind it. -/
theorem texts_eq_without (c : Compiler) {template : String} {tree : Tree}
    (h : c.parse template = .ok tree) :
    (Element.piecesOf tree.elements).flatMap Piece.chars =
      Text.without (Site.removedBy (Site.ofTemplate template.toList)) 0 template.toList := by
  obtain ⟨text, hending, htexts⟩ := flatMap_chars_of_ofTokens h
  rw [htexts]
  exact (Cursor.texts_of_placed (Cursor.placed_start _) hending).2.symm

/-- A change of delimiters, a remark over two lines and a section with its tags on lines of their
own. -/
theorem texts_eq_without_of_lines :
    Compiler.standard.parse "\x7b\x7b=< >=\x7d\x7d\n a<! x\ny >\n <#s>\r\nb \n </s>\t\n c<n>" =
        .ok ⟨[.text " a\n", .block "s" false 4 [.text "b \n"], .text " c",
            .interpolation "n" false],
          ⟨['<'], ['>'], by decide, by decide⟩⟩ ∧
      Text.without (Site.removedBy (Site.ofTemplate
          "\x7b\x7b=< >=\x7d\x7d\n a<! x\ny >\n <#s>\r\nb \n </s>\t\n c<n>".toList)) 0
        "\x7b\x7b=< >=\x7d\x7d\n a<! x\ny >\n <#s>\r\nb \n </s>\t\n c<n>".toList =
          " a\nb \n c".toList := by
  have h : Compiler.standard.parse
      "\x7b\x7b=< >=\x7d\x7d\n a<! x\ny >\n <#s>\r\nb \n </s>\t\n c<n>" =
        .ok ⟨[.text " a\n", .block "s" false 4 [.text "b \n"], .text " c",
            .interpolation "n" false],
          ⟨['<'], ['>'], by decide, by decide⟩⟩ := by
    with_unfolding_all rfl
  exact ⟨h, (texts_eq_without _ h).symm.trans (by decide)⟩

end Mustache
