import Mustache.Proofs.SourceRoundTrip
import Mustache.Proofs.TextConservation

/-!
# The normal form of parsed elements

Not every list of elements is what a template compiles to. On every level of a compiled template
the elements are in normal form (`Element.NormalLevel`): texts are not empty and stand apart, names
are trimmed, an escaped interpolation does not start with what would make another tag of it, and a
partial has blanks in front of it only where it stands alone on its line.

* What a single element is like goes by the tag it was read from, which is found from the first
  piece of the element (`Cursor.exists_passage_of_ofTokens_eq`): `Directive.normal_of_ofBody?` for
  its name and `Passage.normal` for its line. What stands next to it goes by the pieces of the tree,
  where neighbours on a level are neighbours (`Piece.isChain_apart_ofTokens`).
* A partial may stand alone on a line that has no break at its end. There is one such line in a
  text, its last: nothing is left to read behind the tag (`Passage.rest_eq_nil_of_not_isLineEnd`),
  so no section is open around it and no element follows (`Element.IsLevel`).
-/

namespace Mustache

/-! ### Names -/

namespace Text

/-- Whether a name has no blanks at either end. -/
def Trimmed (name : String) : Prop :=
  trim name.toList = name.toList

/-- Whether a name has a first character, and one that would not make another tag of an escaped
interpolation. An opening brace does so only if a closing one is at the end. -/
def Unmarked (name : String) : Prop :=
  ∃ x, name.toList.head? = some x ∧ x ∉ '&' :: standaloneSigils

theorem trimmed_ofList_trim (t : List Char) : Trimmed (String.ofList (trim t)) := by
  rw [Trimmed, String.toList_ofList, trim_trim]

end Text

/-- Whether the name that a tag asks for could be read again as it is. -/
def Directive.Normal : Directive → Prop
  | .enter name _ | .leave name | .inclusion name => Text.Trimmed name
  | .interpolation name raw => Text.Trimmed name ∧ (raw = false → Text.Unmarked name)
  | .comment | .delimiters _ => True

theorem Directive.normal_of_ofBody? {body : List Char} {d : Directive} (hne : body ≠ [])
    (htrim : Text.trim body = body) (h : ofBody? body = some d) : d.Normal := by
  have hbehind : Text.Trimmed (nameBehindSigil body) := Text.trimmed_ofList_trim body.tail
  have hbody : Text.Trimmed (String.ofList body) := htrim ▸ Text.trimmed_ofList_trim body
  have hunmarked (hfirst : ∀ x, body.head? = some x → x ∉ '&' :: standaloneSigils) :
      Text.Unmarked (String.ofList body) := by
    obtain ⟨x, rest, rfl⟩ := List.exists_cons_of_ne_nil hne
    exact ⟨x, by rw [String.toList_ofList]; rfl, hfirst x rfl⟩
  unfold ofBody? at h
  -- by the first character: a name behind a sigil is trimmed, and one without is the whole body
  split at h
  case h_1 =>
    cases h
    trivial
  case h_6 =>
    obtain ⟨changed, -, rfl⟩ := Option.map_eq_some_iff.1 h
    trivial
  case h_7 =>
    cases h
    exact ⟨hbehind, by rintro ⟨⟩⟩
  case h_8 hbrace =>
    split at h
    · cases h
      exact ⟨Text.trimmed_ofList_trim _, by rintro ⟨⟩⟩
    · cases h
      refine ⟨hbody, fun _ ↦ hunmarked fun x hx ↦ ?_⟩
      obtain rfl := Option.some.inj (hbrace.symm.trans hx)
      decide
  case h_9 hremark henter hinvert hleave hinclude hchange hraw _ =>
    -- no sigil has been recognised, so none stands in front of the name
    cases h
    refine ⟨hbody, fun _ ↦ hunmarked fun x hx hmem ↦ ?_⟩
    simp only [standaloneSigils, List.mem_cons, List.not_mem_nil, or_false] at hmem
    rcases hmem with rfl | rfl | rfl | rfl | rfl | rfl | rfl
    · exact hraw hx
    · exact hremark hx
    · exact henter hx
    · exact hinvert hx
    · exact hleave hx
    · exact hinclude hx
    · exact hchange hx
  all_goals
    cases h
    exact hbehind

/-! ### Elements and levels -/

namespace Element

/-- Whether an element is in normal form. The children of a section are not looked at. -/
def Normal : Element → Prop
  | .text t => t ≠ ""
  | .interpolation name raw => Text.Trimmed name ∧ (raw = false → Text.Unmarked name)
  | .block name _ _ _ => Text.Trimmed name
  | .inclusion name indent none => Text.Trimmed name ∧ indent = ""
  | .inclusion name indent (some ending) =>
    Text.Trimmed name ∧ (∀ c ∈ indent.toList, Text.isInline c) ∧
      (Text.IsLineEnd ending.toList ∨ ∀ c ∈ ending.toList, Text.isInline c)

/-- Whether the elements of a level are in normal form, and no two texts stand next to each
other. -/
structure NormalLevel (es : List Element) : Prop where
  element : ∀ e ∈ es, e.Normal
  apart : ∀ front t u behind, es ≠ front ++ .text t :: .text u :: behind

/-- Whether a list of elements is one of the levels of others: these themselves, or the children of
a section among them, at any depth. -/
def IsLevel (level es : List Element) : Prop :=
  level = es ∨ HasSection level es

/-- The pieces of a level are among those of all levels. Behind a section there is at least its
end. -/
theorem IsLevel.exists_piecesOf_eq {level es : List Element} (h : IsLevel level es) :
    ∃ front behind, piecesOf es = front ++ (piecesOf level ++ behind) ∧
      (behind = [] → level = es) := by
  rcases h with rfl | h
  · exact ⟨[], [], by simp, fun _ ↦ rfl⟩
  · obtain ⟨front, name, behind, heq⟩ := h.exists_piecesOf_eq
    exact ⟨front, _, heq, fun hnil ↦ absurd hnil (List.cons_ne_nil _ _)⟩

/-- The pieces of an element of a level are among those of all levels. Nothing is behind them only
where the element is the last of the top level. -/
theorem IsLevel.exists_piecesOf_eq_of_append {front behind es : List Element} {e : Element}
    (h : IsLevel (front ++ e :: behind) es) :
    ∃ ps qs, piecesOf es = ps ++ (e.pieces ++ qs) ∧
      (qs = [] → behind = [] ∧ front ++ e :: behind = es) := by
  obtain ⟨ps, qs, heq, htop⟩ := h.exists_piecesOf_eq
  refine ⟨ps ++ piecesOf front, piecesOf behind ++ qs, ?_, fun hnil ↦ ?_⟩
  · rw [heq, piecesOf_append, piecesOf]
    simp only [List.append_assoc]
  · obtain ⟨hbehind, hqs⟩ := List.append_eq_nil_iff.1 hnil
    exact ⟨piecesOf_injective hbehind, htop hqs⟩

theorem exists_pieces_eq_cons (e : Element) : ∃ p ps, e.pieces = p :: ps := by
  cases e <;> exact ⟨_, _, rfl⟩

end Element

/-! ### Pieces of tokens -/

namespace Piece

variable {forceRaw : Bool}

theorem eq_of_mem_ofText {t : List Char} {p : Piece} (h : p ∈ ofText t) :
    t ≠ [] ∧ p = .text (String.ofList t) := by
  unfold ofText at h
  split at h
  · cases h
  · next hne => exact ⟨hne, List.mem_singleton.1 h⟩

/-- A piece that is no text is behind any text in front. -/
theorem exists_eq_of_ofText_append {t : List Char} {ps front behind : List Piece} {p : Piece}
    (h : ofText t ++ ps = front ++ p :: behind) (hp : p.isText = false) :
    ∃ front', ps = front' ++ p :: behind := by
  rcases List.append_eq_append_iff.1 h with ⟨front', -, heq⟩ | ⟨more, htext, heq⟩
  · exact ⟨front', heq⟩
  · rcases more with - | ⟨q, more⟩
    · exact ⟨[], heq.symm⟩
    · obtain ⟨rfl, -⟩ := List.cons.inj heq
      have hmem : p ∈ ofText t := htext ▸ List.mem_append_right _ List.mem_cons_self
      rw [(eq_of_mem_ofText hmem).2] at hp
      cases hp

/-- A piece that is no text is that of a token, and the pieces behind it are those of the tokens
behind. -/
theorem exists_token_of_ofTokens_eq {pending last : List Char} {ts : List Token}
    {front behind : List Piece} {p : Piece} (hp : p.isText = false)
    (h : ofTokens forceRaw pending ts last = front ++ p :: behind) :
    ∃ us t vs, ts = us ++ t :: vs ∧ t.piece? forceRaw = some p ∧
      behind = ofTokens forceRaw [] vs last := by
  induction ts generalizing pending front with
  | nil =>
    rw [ofTokens, ← List.append_nil (ofText _)] at h
    obtain ⟨front', heq⟩ := exists_eq_of_ofText_append h hp
    simp at heq
  | cons t ts ih =>
    have hlater {pending : List Char} {front : List Piece}
        (h : ofTokens forceRaw pending ts last = front ++ p :: behind) :
        ∃ us t' vs, t :: ts = us ++ t' :: vs ∧ t'.piece? forceRaw = some p ∧
          behind = ofTokens forceRaw [] vs last := by
      obtain ⟨us, t', vs, rfl, hpiece, hbehind⟩ := ih h
      exact ⟨t :: us, t', vs, rfl, hpiece, hbehind⟩
    rw [ofTokens] at h
    rcases hpiece : t.piece? forceRaw with - | q
    · rw [hpiece] at h
      exact hlater h
    · rw [hpiece] at h
      obtain ⟨front', heq⟩ := exists_eq_of_ofText_append h hp
      rcases front' with - | ⟨q', front'⟩
      · obtain ⟨rfl, rfl⟩ := List.cons.inj heq
        exact ⟨[], t, ts, rfl, hpiece, rfl⟩
      · exact hlater (List.cons.inj heq).2

/-- **Texts are not empty and stand apart**, whatever the tokens are. -/
theorem isChain_apart_ofTokens (forceRaw : Bool) (pending last : List Char) (ts : List Token) :
    (ofTokens forceRaw pending ts last).IsChain Apart ∧
      .text "" ∉ ofTokens forceRaw pending ts last := by
  have hne (t : List Char) : .text "" ∉ ofText t := fun hmem ↦ by
    obtain ⟨ht, heq⟩ := eq_of_mem_ofText hmem
    exact ht (String.ofList_injective (Piece.text.inj heq).symm)
  induction ts generalizing pending with
  | nil =>
    rw [ofTokens]
    refine ⟨?_, hne _⟩
    unfold ofText
    split
    · exact .nil
    · exact .singleton _
  | cons t ts ih =>
    rw [ofTokens]
    rcases hpiece : t.piece? forceRaw with - | p
    · -- the text goes on behind a tag that leaves no piece
      exact ih _
    · have htag : p.isText = false := isText_of_piece? hpiece
      obtain ⟨hchain, hmem⟩ := ih []
      have htail : (p :: ofTokens forceRaw [] ts last).IsChain Apart :=
        List.isChain_cons.2 ⟨fun q _ ↦ by simp [Apart, htag], hchain⟩
      have hempty : p ≠ .text "" := by
        rintro rfl
        cases htag
      refine ⟨?_, ?_⟩
      · dsimp only
        rw [ofText]
        split
        · exact htail
        · exact List.isChain_cons_cons.2 ⟨by simp [Apart, htag], htail⟩
      · simp [hne, hempty.symm, hmem]

end Piece

/-! ### Tokens of a text -/

namespace Cursor

variable {c next : Cursor} {t : Token} {front inside raw behind : List Char} {forceRaw : Bool}

/-- Every token was read by a step. What follows it was read from the position behind it, and the
tags that follow its tag in the text are those from there on. -/
theorem exists_passage_of_tokens_eq {us vs : List Token} (h : c.tokens.list = us ++ t :: vs)
    (front : List Char) :
    ∃ c' next inside raw behind, Passage c' t next inside raw behind ∧
      next.tokens = ⟨vs, c.tokens.ending⟩ ∧
      ∃ sites front' front'', Site.sitesFrom c.delimiters front c.rest =
        sites ++ ⟨front', raw, t.written, behind⟩ ::
          Site.sitesFrom next.delimiters front'' next.rest := by
  induction us generalizing c front with
  | nil =>
    rcases hstep : c.step with ⟨t', next⟩ | e
    · rw [tokens_of_token hstep] at h ⊢
      obtain ⟨rfl, rfl⟩ := List.cons.inj h
      obtain ⟨inside, raw, behind, P⟩ := exists_passage_of_step hstep
      exact ⟨c, next, inside, raw, behind, P, rfl, [], _, _, P.sitesFrom_eq front⟩
    · rw [tokens_of_stop hstep] at h
      cases h
  | cons u us ih =>
    rcases hstep : c.step with ⟨t', next⟩ | e
    · rw [tokens_of_token hstep] at h ⊢
      obtain ⟨rfl, hrest⟩ := List.cons.inj h
      obtain ⟨inside', raw', behind', P'⟩ := exists_passage_of_step hstep
      obtain ⟨c', next', inside, raw, behind, P, htokens, sites, front', front'', hsites⟩ :=
        ih hrest (front ++ t'.source)
      refine ⟨c', next', inside, raw, behind, P, htokens,
        ⟨front ++ (t'.before ++ t'.padding), raw', t'.written, behind'⟩ :: sites, front', front'',
        ?_⟩
      rw [P'.sitesFrom_eq front, hsites]
      rfl
    · rw [tokens_of_stop hstep] at h
      cases h

/-- The same of a piece that is no text: it comes from a step, and what is read from the position
behind that step is what the pieces behind it come from. -/
theorem exists_passage_of_ofTokens_eq {pending last : List Char} {ps qs : List Piece} {p : Piece}
    (hp : p.isText = false)
    (h : Piece.ofTokens forceRaw pending c.tokens.list last = ps ++ p :: qs)
    (front : List Char) :
    ∃ c' next t inside raw behind, Passage c' t next inside raw behind ∧
      t.piece? forceRaw = some p ∧ next.tokens.ending = c.tokens.ending ∧
      qs = Piece.ofTokens forceRaw [] next.tokens.list last ∧
      ∃ sites front' front'', Site.sitesFrom c.delimiters front c.rest =
        sites ++ ⟨front', raw, t.written, behind⟩ ::
          Site.sitesFrom next.delimiters front'' next.rest := by
  obtain ⟨us, t, vs, hlist, hpiece, rfl⟩ := Piece.exists_token_of_ofTokens_eq hp h
  obtain ⟨c', next, inside, raw, behind, P, htokens, hsites⟩ :=
    exists_passage_of_tokens_eq hlist front
  exact ⟨c', next, t, inside, raw, behind, P, hpiece, by rw [htokens], by rw [htokens], hsites⟩

namespace Passage

/-- An element that starts with the piece of a tag is in normal form. -/
theorem normal (P : Passage c t next inside raw behind) {e : Element} {p : Piece}
    {ps : List Piece} (hp : t.piece? forceRaw = some p) (he : e.pieces = p :: ps) : e.Normal := by
  have hname := Directive.normal_of_ofBody? P.trim_ne_nil (Text.trim_trim raw) P.directive
  unfold Token.piece? at hp
  rcases hd : t.directive with - | ⟨name, inverted⟩ | name | name | d | ⟨name, marked⟩
  all_goals rw [hd] at hp hname
  case comment | delimiters => cases hp
  case enter | leave =>
    cases hp
    cases e <;> cases he
    all_goals exact hname
  case inclusion =>
    dsimp only at hp
    cases hend : t.lineEnd? with
    | none =>
      rw [hend] at hp
      cases hp
      cases e <;> cases he
      exact ⟨hname, rfl⟩
    | some ending =>
      rw [hend] at hp
      cases hp
      cases e <;> cases he
      refine ⟨hname, ?_, ?_⟩
      · rw [String.toList_ofList]
        exact P.isInline_of_mem_padding
      · rw [String.toList_ofList]
        exact (Text.isLineEnd_or_of_lineEnd? (P.lineEnd?_eq_of_some hend)).imp_right And.right
  case interpolation =>
    cases hp
    cases e <;> cases he
    exact ⟨hname.1, fun h ↦ hname.2 (Bool.or_eq_false_iff.1 h).1⟩

/-- A partial that is alone on a line without a break at its end is on the last line: nothing is
left to read behind it. -/
theorem rest_eq_nil_of_not_isLineEnd (P : Passage c t next inside raw behind)
    {name indent ending : String}
    (hp : t.piece? forceRaw = some (.inclusion name indent (some ending)))
    (hending : ¬ Text.IsLineEnd ending.toList) :
    t.directive = .inclusion name ∧ next.rest = [] ∧ behind = ending.toList := by
  unfold Token.piece? at hp
  split at hp
  case h_4 hd =>
    split at hp
    · next taken htaken =>
      cases hp
      rw [String.toList_ofList] at hending ⊢
      obtain ⟨hrest, -⟩ :=
        (Text.isLineEnd_or_of_lineEnd? (P.lineEnd?_eq_of_some htaken)).resolve_left hending
      refine ⟨hd, hrest, ?_⟩
      rw [P.behind_eq, htaken, hrest, Option.getD_some, List.append_nil]
    · cases hp
  all_goals cases hp

end Passage

/-- Where nothing is left to read there are no tags. -/
theorem sitesFrom_of_rest_eq_nil (hrest : c.rest = []) :
    Site.sitesFrom c.delimiters front c.rest = [] := by
  apply Site.sitesFrom_of_cut?_eq_none
  rw [hrest, Text.cut?_nil, if_neg c.delimiters.opening_usable.1]

end Cursor

/-! ### Levels of a template -/

namespace Tree

variable {forceRaw : Bool} {template : String} {tree : Tree} {level : List Element}

/-- Every level of a tree is in normal form, whether all interpolations are raw or not. -/
theorem normalLevel_of_ofText (h : Tree.ofText forceRaw template = .ok tree)
    (hlevel : Element.IsLevel level tree.elements) : Element.NormalLevel level := by
  obtain ⟨text, -, htree⟩ := pieces_of_ofTokens h
  obtain ⟨hchain, hempty⟩ := Piece.isChain_apart_ofTokens forceRaw [] text
    (Tokens.ofTemplate template.toList).list
  rw [← htree] at hchain hempty
  refine ⟨fun e he ↦ ?_, ?_⟩
  · obtain ⟨es, fs, rfl⟩ := List.append_of_mem he
    obtain ⟨outer, rest, heq, -⟩ := hlevel.exists_piecesOf_eq_of_append
    obtain ⟨p, ps, hp⟩ := e.exists_pieces_eq_cons
    rw [hp] at heq
    cases htext : p.isText with
    | true =>
      -- a text has no tag to go by, but its piece is the text itself
      cases e <;> cases hp <;> cases htext
      rintro rfl
      exact hempty (heq ▸ by simp)
    | false =>
      obtain ⟨_, _, t, _, _, _, P, hpiece, -⟩ :=
        Cursor.exists_passage_of_ofTokens_eq htext (htree.symm.trans heq) []
      exact P.normal hpiece hp
  · rintro es t u fs rfl
    obtain ⟨outer, rest, heq, -⟩ := hlevel.exists_piecesOf_eq
    rw [heq, Element.piecesOf_append, Element.piecesOf, Element.piecesOf] at hchain
    have hpair := hchain.right_of_append.left_of_append.right_of_append
    exact (List.isChain_cons_cons.1 hpair).1 ⟨rfl, rfl⟩

/-- A partial alone on a line without a break at its end comes last in the tree, and so does its tag
in the template. -/
theorem eq_of_not_isLineEnd {front behind : List Element} {name indent ending : String}
    (h : Tree.ofText forceRaw template = .ok tree)
    (hlevel : Element.IsLevel
      (front ++ .inclusion name indent (some ending) :: behind) tree.elements)
    (hending : ¬ Text.IsLineEnd ending.toList) :
    front ++ .inclusion name indent (some ending) :: behind = tree.elements ∧ behind = [] ∧
      ∃ sites last, Site.ofTemplate template.toList = sites ++ [last] ∧
        Directive.ofBody? (Text.trim last.raw) = some (.inclusion name) ∧
        last.behind = ending.toList := by
  obtain ⟨text, hfinished, htree⟩ := pieces_of_ofTokens h
  obtain ⟨outer, rest, heq, htop⟩ := hlevel.exists_piecesOf_eq_of_append
  obtain ⟨_, next, t, _, raw, _, P, hpiece, hnext, hrest, sites, before, _, hsites⟩ :=
    Cursor.exists_passage_of_ofTokens_eq rfl (htree.symm.trans heq) []
  obtain ⟨hdirective, hnil, rfl⟩ := P.rest_eq_nil_of_not_isLineEnd hpiece hending
  rw [Cursor.ofTokens_of_rest_eq_nil hnil (hnext.trans hfinished)] at hrest
  rw [Cursor.sitesFrom_of_rest_eq_nil hnil] at hsites
  obtain ⟨hbehind, htree⟩ := htop hrest
  exact ⟨htree, hbehind, sites, _, hsites, hdirective ▸ P.directive, rfl⟩

end Tree

/-- **The elements of a compiled template are in normal form on every level.** A partial alone on a
line without a break at its end is the last element of the top level, and its tag is the last tag of
the template. -/
theorem levels_in_normal_form (c : Compiler) {template : String} {tree : Tree}
    (h : c.parse template = .ok tree) {level : List Element}
    (hlevel : Element.IsLevel level tree.elements) :
    Element.NormalLevel level ∧
      ∀ front name indent ending behind,
        level = front ++ .inclusion name indent (some ending) :: behind → '\n' ∉ ending.toList →
          level = tree.elements ∧ behind = [] ∧
          ∃ sites last, Site.ofTemplate template.toList = sites ++ [last] ∧
            Directive.ofBody? (Text.trim last.raw) = some (.inclusion name) ∧
            last.behind = ending.toList := by
  refine ⟨Tree.normalLevel_of_ofText h hlevel, ?_⟩
  rintro front name indent ending behind rfl hbreak
  exact Tree.eq_of_not_isLineEnd h hlevel fun hend ↦ hbreak (List.mem_of_getLast? hend.getLast?)

/-- A partial inside a section and one on the last line, which has no break at its end. -/
theorem levels_in_normal_form_of_last_line :
    Compiler.standard.parse
        "\x7b\x7b=[ ]=\x7d\x7d\na[!x]b\n [#s]\n\t[> p ]\r\n[/s]\n[&][v]\n [>q]\t" =
      .ok ⟨[.text "ab\n", .block "s" false 3 [.inclusion "p" "\t" (some "\r\n")],
          .interpolation "" true, .interpolation "v" false, .text "\n",
          .inclusion "q" " " (some "\t")],
        ⟨['['], [']'], by decide, by decide⟩⟩ ∧
    Element.NormalLevel [.inclusion "p" "\t" (some "\r\n")] ∧
    Element.NormalLevel
      [.text "ab\n", .block "s" false 3 [.inclusion "p" "\t" (some "\r\n")],
        .interpolation "" true, .interpolation "v" false, .text "\n",
        .inclusion "q" " " (some "\t")] ∧
    ∃ sites last,
      Site.ofTemplate
          "\x7b\x7b=[ ]=\x7d\x7d\na[!x]b\n [#s]\n\t[> p ]\r\n[/s]\n[&][v]\n [>q]\t".toList =
        sites ++ [last] ∧
      Directive.ofBody? (Text.trim last.raw) = some (.inclusion "q") ∧
      last.behind = "\t".toList := by
  have h : Compiler.standard.parse
        "\x7b\x7b=[ ]=\x7d\x7d\na[!x]b\n [#s]\n\t[> p ]\r\n[/s]\n[&][v]\n [>q]\t" =
      .ok ⟨[.text "ab\n", .block "s" false 3 [.inclusion "p" "\t" (some "\r\n")],
          .interpolation "" true, .interpolation "v" false, .text "\n",
          .inclusion "q" " " (some "\t")],
        ⟨['['], [']'], by decide, by decide⟩⟩ := by
    with_unfolding_all rfl
  have hsection := @Element.HasSection.here [.inclusion "p" "\t" (some "\r\n")] "s" false 3
    [.text "ab\n"]
    [.interpolation "" true, .interpolation "v" false, .text "\n",
      .inclusion "q" " " (some "\t")]
  have hinside := levels_in_normal_form _ h (.inr hsection)
  have htop := levels_in_normal_form _ h (.inl rfl)
  obtain ⟨-, -, hlast⟩ := htop.2
    [.text "ab\n", .block "s" false 3 [.inclusion "p" "\t" (some "\r\n")],
      .interpolation "" true, .interpolation "v" false, .text "\n"]
    "q" " " "\t" [] rfl (by decide)
  exact ⟨h, hinside.1, htop.1, hlast⟩

end Mustache
