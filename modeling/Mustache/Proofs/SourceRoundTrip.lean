import Mustache.Proofs.Nesting
import Mustache.Proofs.SourceReading

/-!
# The source of a section, compiled again

A lambda gets the source of its section and may have it rendered. Where the source is `Faithful`
that is the same as rendering the section, and nothing short of it is enough: the source compiles to
what the section holds exactly when it is faithful (`source_roundtrip`).

It is not always so (`source_roundtrip_fails_of_moved_line`). The source is printed from the tree,
and a tree does not say on which line a tag was. A tag that had the open tag of the section in front
of it starts a line of the source, and may take a line break along that the section has.

* `Cursor.isChain_ofTokens` — what reading a template makes sure of its pieces, which is all that is
  known of a section;
* `Element.nested_piecesOf` — the tags of a source nest well whatever is printed, so only the pieces
  count.
-/

namespace Mustache

/-! ### Pieces of a template -/

namespace Cursor

variable {c next : Cursor} {t : Token} {front inside raw behind : List Char}

/-- The text of a token is clear of the delimiter behind it. -/
theorem Passage.clear_text (P : Passage c t next inside raw behind) (hplaced : Placed front c)
    (hstd : c.delimiters = .standard) : Text.Clear Delimiters.standard.opening t.text := by
  have hclear := Text.clear_of_cut? c.delimiters.opening_usable.1 P.cut_opening
  rw [hstd] at hclear
  cases hend : t.lineEnd? with
  | none =>
    rw [(P.of_lineEnd?_eq_none hend).1]
    exact hclear
  | some ending =>
    have hsome : t.lineEnd?.isSome = true := by rw [hend]; rfl
    rw [Token.text, if_pos hsome]
    refine hclear.of_append_left fun hlast ↦ ?_
    rcases P.endsAtLineStart hplaced hsome with hnil | hfeed
    · rw [(List.append_eq_nil_iff.1 hnil).2] at hlast
      cases hlast
    · rw [List.getLast?_append, hlast] at hfeed
      cases hfeed

/-- The padding of a tag is blank. -/
theorem Passage.isInline_of_mem_padding (P : Passage c t next inside raw behind) :
    ∀ x ∈ t.padding, Text.isInline x = true := by
  rw [P.padding, Lead.ofText_eq]
  split
  · exact fun x hx ↦ Text.of_mem_takeRightWhile hx
  · simp

/-- A tag that something follows leaves a piece that can be printed and read again. -/
theorem Passage.wellRead (P : Passage c t next inside raw behind) {p : Piece}
    (hp : t.piece? false = some p) (hnext : next.rest ≠ []) : p.WellRead := by
  have htag : p.isText = false := Piece.isText_of_piece? hp
  obtain ⟨hne, htrim, hread⟩ := Piece.body_of_ofBody? htag P.trim_ne_nil (Text.trim_trim raw)
    (P.directive.trans (Piece.directive?_of_piece? hp).symm)
  refine ⟨?_, fun _ ↦ hne, htrim, fun _ ↦ hread, ?_⟩
  · rintro u rfl
    cases htag
  · unfold Token.piece? at hp
    split at hp
    case h_4 =>
      split at hp
      · next ending hend =>
        cases hp
        refine ⟨?_, ?_⟩
        · rw [String.toList_ofList]
          exact P.isInline_of_mem_padding
        · rw [String.toList_ofList]
          exact Text.isLineEnd_of_lineEnd? (P.lineEnd?_eq_of_some hend) hnext
      · cases hp
        rfl
    all_goals cases hp <;> trivial

/-- A text that is clear of the opening delimiter can be printed and read again. -/
theorem wellRead_text {u : List Char} (hne : u ≠ [])
    (hclear : Text.Clear Delimiters.standard.opening u) :
    (Piece.text (String.ofList u)).WellRead := by
  refine ⟨?_, by rintro ⟨⟩, rfl, by rintro ⟨⟩, trivial⟩
  rintro _ ⟨⟩
  rw [String.toList_ofList]
  exact ⟨fun h ↦ hne (by rw [← String.toList_ofList (l := u), h]; rfl), hclear⟩

/-- Where nothing is left to read there are no pieces. -/
theorem ofTokens_of_rest_eq_nil {c : Cursor} {last : List Char} {d : Delimiters}
    (hrest : c.rest = []) (hending : c.tokens.ending = .finished last d) (forceRaw : Bool) :
    Piece.ofTokens forceRaw [] c.tokens.list last = [] := by
  have hstep : c.step = .stop (.finished [] c.delimiters) := by
    rw [step, hrest, Text.cut?_nil, if_neg c.delimiters.opening_usable.1]
  rw [tokens_of_stop hstep] at hending ⊢
  obtain ⟨rfl, -⟩ := Ending.finished.inj hending
  rfl

/-- **What reading makes sure of**: a piece that another follows can be printed and read again, and
no two texts follow one another. -/
theorem isChain_ofTokens {c : Cursor} {front pending last : List Char} {d : Delimiters}
    (hstd : c.delimiters = .standard)
    (hsame : ∀ t ∈ c.tokens.list, ∀ d, t.directive ≠ .delimiters d) (hplaced : Placed front c)
    (hpending : Text.Clear Delimiters.standard.opening pending)
    (hending : c.tokens.ending = .finished last d) :
    (Piece.ofTokens false pending c.tokens.list last).IsChain
      fun p q ↦ p.WellRead ∧ Piece.Apart p q := by
  match hstep : c.step with
  | .stop e =>
    rw [tokens_of_stop hstep, Piece.ofTokens, Piece.ofText]
    split
    · exact .nil
    · exact .singleton _
  | .token t next =>
    rw [tokens_of_token hstep] at hsame hending ⊢
    obtain ⟨inside, raw, behind, P⟩ := exists_passage_of_step hstep
    have hnextstd : next.delimiters = .standard := by
      rw [P.delimiters, ← hstd]
      have ht := hsame t List.mem_cons_self
      cases hd : t.directive with
      | delimiters d => exact absurd hd (ht d)
      | _ => rfl
    have hnextsame : ∀ u ∈ next.tokens.list, ∀ d, u.directive ≠ .delimiters d :=
      fun u hu ↦ hsame u (List.mem_cons_of_mem t hu)
    have hnextplaced : Placed (front ++ t.source) next := P.placed_next
    -- the text that is pending goes on over tags that leave no piece
    have htext := hpending.append (P.clear_text hplaced hstd)
    rw [Tokens.push, Piece.ofTokens]
    cases hpiece : t.piece? false with
    | none => exact isChain_ofTokens hnextstd hnextsame hnextplaced htext hending
    | some p =>
      have htag : p.isText = false := Piece.isText_of_piece? hpiece
      have hapart (q : Piece) : Piece.Apart p q ∧ Piece.Apart q p := by
        simp [Piece.Apart, htag]
      have hnil : Text.Clear Delimiters.standard.opening [] := Text.clear_of_not_mem (by simp)
      have hbehind := isChain_ofTokens hnextstd hnextsame hnextplaced hnil hending
      -- a tag with another piece behind it has not been the end of the text
      have htail : (p :: Piece.ofTokens false [] next.tokens.list last).IsChain
          fun p q ↦ p.WellRead ∧ Piece.Apart p q := by
        refine List.isChain_cons.2 ⟨fun q hq ↦ ⟨P.wellRead hpiece fun hrest ↦ ?_, (hapart q).1⟩,
          hbehind⟩
        rw [ofTokens_of_rest_eq_nil hrest hending false] at hq
        cases hq
      dsimp only
      rw [Piece.ofText]
      split
      · exact htail
      · next hne =>
        refine List.isChain_cons_cons.2 ⟨⟨wellRead_text hne htext, (hapart _).2⟩, htail⟩
termination_by c.rest.length
decreasing_by all_goals exact length_rest_lt_of_step hstep

end Cursor

/-! ### Sections -/

namespace Element

/-- Whether a section with these children is among the elements, at any depth. -/
inductive HasSection (children : List Element) : List Element → Prop
  | here {name : String} {inverted : Bool} {line : Nat} {es fs : List Element} :
      HasSection children (es ++ .block name inverted line children :: fs)
  | inside {name : String} {inverted : Bool} {line : Nat} {inner es fs : List Element}
      (h : HasSection children inner) :
      HasSection children (es ++ .block name inverted line inner :: fs)

/-- The pieces of a section's children are followed by its end. -/
theorem HasSection.exists_piecesOf_eq {children es : List Element} (h : HasSection children es) :
    ∃ front name behind, piecesOf es = front ++ (piecesOf children ++ .leave name :: behind) := by
  induction h with
  | @here name inverted line es fs =>
    refine ⟨piecesOf es ++ [.enter name inverted line], name, piecesOf fs, ?_⟩
    simp [piecesOf_append, piecesOf, pieces]
  | @inside name inverted line inner es fs _ ih =>
    obtain ⟨front, last, behind, heq⟩ := ih
    refine ⟨piecesOf es ++ .enter name inverted line :: front, last,
      behind ++ .leave name :: piecesOf fs, ?_⟩
    simp [piecesOf_append, piecesOf, pieces, heq]

mutual

theorem nested_pieces (e : Element) {ds : List Directive} (hds : Nested ds) :
    Nested (e.pieces.filterMap Piece.directive? ++ ds) := by
  match e with
  | .text t => exact hds
  | .interpolation name raw => exact .flat trivial hds
  | .inclusion name indent lineEnd? => exact .flat trivial hds
  | .block name inverted line children =>
    have hchildren := nested_piecesOf children .nil
    rw [List.append_nil] at hchildren
    have hblock : Nested (.enter name inverted :: (_ ++ .leave name :: ds)) :=
      .block hchildren hds
    simpa [pieces, Piece.directive?] using hblock
termination_by structural e

/-- The tags of elements nest well. -/
theorem nested_piecesOf (es : List Element) {ds : List Directive} (hds : Nested ds) :
    Nested ((piecesOf es).filterMap Piece.directive? ++ ds) := by
  match es with
  | [] => exact hds
  | e :: es =>
    rw [piecesOf, List.filterMap_append, List.append_assoc]
    exact nested_pieces e (nested_piecesOf es hds)
termination_by structural es

end

/-- **Whether the source of elements is read as it is printed.** -/
def Faithful (es : List Element) : Prop :=
  Piece.AllFit [] (piecesOf es)

instance (es : List Element) : Decidable (Faithful es) :=
  inferInstanceAs (Decidable (Piece.AllFit [] (piecesOf es)))

end Element

/-- What is known of the children of a section. -/
theorem wellRead_of_hasSection {template : String} {tree : Tree} {children : List Element}
    (h : Tree.ofText false template = .ok tree)
    (hsame : ∀ t ∈ (Tokens.ofTemplate template.toList).list, ∀ d, t.directive ≠ .delimiters d)
    (hchildren : Element.HasSection children tree.elements) :
    (∀ p ∈ Element.piecesOf children, p.WellRead) ∧
      (Element.piecesOf children).IsChain Piece.Apart := by
  obtain ⟨last, hending, hpieces⟩ := pieces_of_ofTokens h
  have hnil : Text.Clear Delimiters.standard.opening [] := Text.clear_of_not_mem (by simp)
  have hchain := Cursor.isChain_ofTokens rfl hsame (Cursor.placed_start _) hnil hending
  obtain ⟨front, name, behind, heq⟩ := hchildren.exists_piecesOf_eq
  rw [show (Cursor.start template.toList).tokens = Tokens.ofTemplate template.toList from rfl,
    ← hpieces, heq] at hchain
  have hsection := hchain.right_of_append
  refine ⟨?_, hsection.left_of_append.imp fun _ _ h ↦ h.2⟩
  clear heq
  -- every piece of the section is followed by another, the last by the close tag of the section
  generalize Element.piecesOf children = ps at hsection
  induction ps with
  | nil => simp
  | cons p ps ih =>
    rw [List.cons_append] at hsection
    obtain ⟨hfirst, hrest⟩ := List.isChain_cons.1 hsection
    intro q hq
    rcases List.mem_cons.1 hq with rfl | hq
    · cases ps with
      | nil => exact (hfirst _ rfl).1
      | cons r ps => exact (hfirst r rfl).1
    · exact ih hrest q hq

/-! ### The round trip -/

/-- A text that compiles is rendered by rendering what it compiles to. -/
theorem Compiler.renderText_of_parse {c : Compiler} {text : String} {tree : Tree}
    (h : c.parse text = .ok tree) (reenter : Reentry) (chain : List Value) :
    c.renderText reenter chain text =
      (Run.notice (.compiled tree) >>= fun _ ↦ reenter tree.elements chain pure).captured := by
  rw [renderText, compile, h]
  rfl

/-- **The source of a section compiles to what the section holds exactly when it is faithful.** Then
a lambda that has its source rendered gets what rendering the section writes, or its error. -/
theorem source_roundtrip (c : Compiler) (hmode : c.escapeMode ≠ .raw) {template : String}
    {tree : Tree} (h : c.parse template = .ok tree)
    (hsame : ∀ t ∈ (Tokens.ofTemplate template.toList).list, ∀ d, t.directive ≠ .delimiters d)
    {children : List Element} (hchildren : Element.HasSection children tree.elements) :
    (Element.Faithful children ↔
      ∃ again, c.parse (Element.sources children) = .ok again ∧
        Element.Alike again.elements children) ∧
    (Element.Faithful children →
      ∃ again, c.parse (Element.sources children) = .ok again ∧
        ∀ files depth chain,
          c.renderAt files depth again.elements chain = c.renderAt files depth children chain ∧
          c.renderText (c.renderAt files depth) chain (Element.sources children) =
            (Run.notice (.compiled again) >>= fun _ ↦
              c.renderAt files depth children chain pure).captured) := by
  have hraw : (c.escapeMode == .raw) = false := by
    cases hm : c.escapeMode <;> first | rfl | exact absurd hm hmode
  have hparse (text : String) : c.parse text = Tree.ofText false text := by
    rw [Compiler.parse, hraw]
  rw [hparse] at h
  obtain ⟨hw, hapart⟩ := wellRead_of_hasSection h hsame hchildren
  have hnil : Text.Clear Delimiters.standard.opening [] := Text.clear_of_not_mem (by simp)
  have hprinted := Element.sources_toList children
  -- faithful sources are read again, and the tags of what is read nest well
  have hagain (hfaithful : Element.Faithful children) :
      ∃ again, c.parse (Element.sources children) = .ok again ∧
        Element.Alike again.elements children := by
    obtain ⟨last, hending, hdirectives, hpieces⟩ := Cursor.ofTokens_of_allFit hw rfl
      (Cursor.placed_start (Element.sources children).toList) hnil hapart hprinted hfaithful
    have hnested := Element.nested_piecesOf children .nil
    rw [List.append_nil, ← hdirectives] at hnested
    obtain ⟨again, htree⟩ := (Tree.exists_ofTokens_eq_ok_iff false
      (Tokens.ofTemplate (Element.sources children).toList)).2 ⟨⟨_, _, hending⟩, hnested⟩
    obtain ⟨text, hfinished, hread⟩ := pieces_of_ofTokens htree
    obtain ⟨rfl, -⟩ := Ending.finished.inj (hfinished.symm.trans hending)
    refine ⟨again, (hparse _).trans htree, Element.alike_iff.2 ?_⟩
    rw [hread]
    exact hpieces
  refine ⟨⟨hagain, ?_⟩, ?_⟩
  · -- what is read back in any way has the pieces that were printed, so they fit
    rintro ⟨again, htree, halike⟩
    rw [hparse] at htree
    obtain ⟨last, hending, hread⟩ := pieces_of_ofTokens htree
    have hpieces := Element.alike_iff.1 halike
    rw [hread] at hpieces
    have hplaced : Cursor.Placed ([] ++ []) (.start (Element.sources children).toList) :=
      Cursor.placed_start _
    have hrest : [] ++ (Element.piecesOf children).flatMap Piece.printed =
        [] ++ (Cursor.start (Element.sources children).toList).rest := hprinted.symm
    exact (Cursor.allFit_of_ofTokens hw rfl hplaced hnil hapart hrest (by simp)
      (.inr (.inl rfl)) hending hpieces).2
  · intro hfaithful
    obtain ⟨again, htree, halike⟩ := hagain hfaithful
    refine ⟨again, htree, fun files depth chain ↦ ?_⟩
    have hrender := c.renderAt_congr files halike depth
    rw [Compiler.renderText_of_parse htree, hrender]
    exact ⟨rfl, rfl⟩

/-- A section with a partial on a line of its own. -/
theorem source_roundtrip_of_partial_line :
    Compiler.standard.parse
        "\x7b\x7b#l\x7d\x7d\n \x7b\x7b>p\x7d\x7d\n\x7b\x7b&c\x7d\x7d\x7b\x7b/l\x7d\x7d" =
      .ok ⟨[.block "l" false 1 [.inclusion "p" " " (some "\n"), .interpolation "c" true]],
        .standard⟩ ∧
    ∃ again,
      Compiler.standard.parse
          (Element.sources [.inclusion "p" " " (some "\n"), .interpolation "c" true]) =
        .ok again ∧
      Element.Alike again.elements [.inclusion "p" " " (some "\n"), .interpolation "c" true] := by
  have h : Compiler.standard.parse
        "\x7b\x7b#l\x7d\x7d\n \x7b\x7b>p\x7d\x7d\n\x7b\x7b&c\x7d\x7d\x7b\x7b/l\x7d\x7d" =
      .ok ⟨[.block "l" false 1 [.inclusion "p" " " (some "\n"), .interpolation "c" true]],
        .standard⟩ := by
    with_unfolding_all rfl
  have htags : (Tokens.ofTemplate
      "\x7b\x7b#l\x7d\x7d\n \x7b\x7b>p\x7d\x7d\n\x7b\x7b&c\x7d\x7d\x7b\x7b/l\x7d\x7d".toList
      ).list.map Token.directive =
      [.enter "l" false, .inclusion "p", .interpolation "c" true, .leave "l"] := by
    with_unfolding_all rfl
  have hsame : ∀ t ∈ (Tokens.ofTemplate
      "\x7b\x7b#l\x7d\x7d\n \x7b\x7b>p\x7d\x7d\n\x7b\x7b&c\x7d\x7d\x7b\x7b/l\x7d\x7d".toList
      ).list, ∀ d, t.directive ≠ .delimiters d := by
    intro t ht d hd
    have hmem := List.mem_map_of_mem (f := Token.directive) ht
    rw [htags, hd] at hmem
    simp at hmem
  have hsection : Element.HasSection
      [.inclusion "p" " " (some "\n"), .interpolation "c" true]
      [.block "l" false 1 [.inclusion "p" " " (some "\n"), .interpolation "c" true]] :=
    @Element.HasSection.here _ "l" false 1 [] []
  exact ⟨h, (source_roundtrip .standard (by decide) h hsame hsection).1.1 (by decide)⟩

/-- A section within a section starts a line of the source, and the line break behind its open tag
is lost. Where the outer section stands it is not. -/
theorem source_roundtrip_fails_of_moved_line :
    Compiler.standard.parse
        "\x7b\x7b#l\x7d\x7d\x7b\x7b#a\x7d\x7d\ny\x7b\x7b/a\x7d\x7d\x7b\x7b/l\x7d\x7d" =
      .ok ⟨[.block "l" false 1 [.block "a" false 1 [.text "\ny"]]], .standard⟩ ∧
    (Compiler.standard.renderAt .empty 1 [.block "a" false 1 [.text "\ny"]]
      [.map [("a", .bool true)]] pure).text = "\ny" ∧
    Compiler.standard.parse (Element.sources [.block "a" false 1 [.text "\ny"]]) =
      .ok ⟨[.block "a" false 1 [.text "y"]], .standard⟩ ∧
    (Compiler.standard.renderAt .empty 1 [.block "a" false 1 [.text "y"]]
      [.map [("a", .bool true)]] pure).text = "y" := by
  refine ⟨?_, ?_, ?_, ?_⟩
  · with_unfolding_all rfl
  · decide
  · with_unfolding_all rfl
  · decide

end Mustache
