import Mustache.Proofs.Survey

/-!
# Defects that more text does not mend

Text that is put behind a template can close a tag or a section that the template leaves open. It
can do nothing about any other defect: what is wrong with a tag is seen before anything behind the
tag is looked at.

A reader does look at what is behind a tag, for the end of its line, and more text can change what
it sees there. A survey of the tags does not (`Survey.pass_extended`), which is why the argument
goes by surveys: more text leaves the tags in front of it where they are
(`Site.exists_sitesFrom_append_eq`), and it leaves the lines in front of it alone.
-/

namespace Mustache

/-- Whether a defect is one of a tag, and not of what is missing behind it. -/
def Defect.IsFinal : Defect → Prop
  | emptyTag | interleavedClose _ | unmatchedClose | invalidDelimiters => True
  | unmatchedOpen | unclosedSection _ => False

namespace Site

/-- The tag with more text behind the template. -/
def extended (u : List Char) (s : Site) : Site :=
  { s with behind := s.behind ++ u }

/-- A tag in its place, with what is in front of it and behind it, is the template. -/
theorem eq_append_of_mem_sitesFrom {d : Delimiters} {front rest : List Char} {s : Site}
    (h : s ∈ sitesFrom d front rest) : s.front ++ (s.written ++ s.behind) = front ++ rest := by
  induction d, front, rest using sitesFrom.induct with
  | case1 d front rest hopen =>
    rw [sitesFrom_of_cut?_eq_none hopen] at h
    cases h
  | case2 d front rest text inside hopen hbody =>
    rw [sitesFrom_of_body?_eq_none hopen hbody] at h
    cases h
  | case3 d front rest text inside hopen raw behind hbody written ih =>
    have hrest : rest = text ++ (written ++ behind) := by
      rw [Text.eq_append_of_cut? hopen, Cursor.eq_append_of_body? hbody]
      simp only [written, List.append_assoc]
    rw [sitesFrom_of_body? hopen hbody] at h
    rcases List.mem_cons.1 h with rfl | h
    · rw [hrest, List.append_assoc]
    · rw [ih h, hrest]
      simp only [List.append_assoc]

/-- **More text leaves the tags of a template where they are.** -/
theorem exists_sitesFrom_append_eq (d : Delimiters) (front rest u : List Char) :
    ∃ more, sitesFrom d front (rest ++ u) = (sitesFrom d front rest).map (extended u) ++ more := by
  induction d, front, rest using sitesFrom.induct with
  | case1 d front rest hopen =>
    rw [sitesFrom_of_cut?_eq_none hopen]
    exact ⟨_, rfl⟩
  | case2 d front rest text inside hopen hbody =>
    rw [sitesFrom_of_body?_eq_none hopen hbody]
    exact ⟨_, rfl⟩
  | case3 d front rest text inside hopen raw behind hbody written ih =>
    obtain ⟨more, hmore⟩ := ih
    refine ⟨more, ?_⟩
    rw [sitesFrom_of_body? hopen hbody,
      sitesFrom_of_body? (Text.cut?_append d.opening_usable.1 hopen u)
        (Cursor.body?_append hbody u), hmore]
    rfl

end Site

namespace Survey

variable {w : Survey} {s : Site} {f : Fault}

/-- What is behind a tag is not looked at. -/
theorem pass_extended (w : Survey) (s : Site) (u : List Char) : w.pass (s.extended u) = w.pass s :=
  rfl

theorem place_of_follow {place : Nat} {directive : Directive}
    (h : w.follow place directive = .error f) : f.place = place := by
  cases directive with
  | leave name =>
    simp only [follow] at h
    split at h
    · cases h
      rfl
    · split at h
      · cases h
      · cases h
        rfl
  | _ => cases h

/-- The fault of a tag is at its closing delimiter. -/
theorem place_of_pass (h : w.pass s = .error f) : f.place = s.closingPlace w.delimiters := by
  simp only [pass] at h
  split at h
  · cases h
    rfl
  · split at h
    · cases h
      rfl
    · exact place_of_follow h

/-- A survey that ends with the defect of a tag ends with it whatever is behind the tags. -/
theorem along_extended {w : Survey} {place : Nat} {rest : List Char} {sites : List Site}
    (h : w.along place rest sites = .error f) (hfinal : f.defect.IsFinal) (u : List Char) :
    (∀ place' rest' more,
        w.along place' rest' (sites.map (Site.extended u) ++ more) = .error f) ∧
      ∃ s ∈ sites, f.place ≤ s.stop := by
  induction sites generalizing w place rest with
  | nil =>
    rw [along] at h
    unfold finish at h
    split at h
    · cases h
      exact hfinal.elim
    · split at h
      · cases h
      · cases h
        exact hfinal.elim
  | cons s sites ih =>
    -- a fault at this tag is there again, and one behind it by induction
    rw [along] at h
    rcases hpass : w.pass s with g | w'
    · rw [hpass] at h
      obtain rfl : g = f := Except.error.inj h
      refine ⟨fun _ _ _ ↦ ?_, s, List.mem_cons_self, ?_⟩
      · rw [List.map_cons, List.cons_append, along, pass_extended, hpass]
        rfl
      · rw [place_of_pass hpass]
        exact Nat.sub_le _ _
    · rw [hpass] at h
      obtain ⟨hmore, s', hs', hplace⟩ := ih h
      refine ⟨fun _ _ _ ↦ ?_, s', List.mem_cons_of_mem s hs', hplace⟩
      rw [List.map_cons, List.cons_append, along, pass_extended, hpass]
      exact hmore _ _ _

/-- **The fault of a tag is that of every longer text**, on the same line. -/
theorem ofTemplate_append {t : List Char} (h : ofTemplate t = .error f)
    (hfinal : f.defect.IsFinal) (u : List Char) :
    ofTemplate (t ++ u) = .error f ∧ f.reported (t ++ u) = f.reported t := by
  obtain ⟨more, hmore⟩ := Site.exists_sitesFrom_append_eq .standard [] t u
  obtain ⟨halong, s, hs, hplace⟩ := along_extended h hfinal u
  have hstop : s.stop ≤ t.length := by
    have hlen := congrArg List.length (Site.eq_append_of_mem_sitesFrom hs)
    simp only [List.length_append, List.length_nil] at hlen
    rw [Site.stop]
    omega
  constructor
  · rw [ofTemplate, Site.ofTemplate, hmore]
    exact halong _ _ _
  · rw [Fault.reported, Fault.reported, Text.lineAt_append (Nat.le_trans hplace hstop)]

end Survey

/-- **A defect of a tag is final.** A template that is not read for what is wrong with one of its
tags is not read for the same reason, on the same line, with any text behind it. So a template that
more text can make readable lacks the end of a tag or of a section. -/
theorem parse_append_of_isFinal (c : Compiler) {t : String} {m : Malformed}
    (h : c.parse t = .error m) :
    (m.defect.IsFinal → ∀ u, c.parse (t ++ u) = .error m) ∧
      ∀ u tree, c.parse (t ++ u) = .ok tree →
        m.defect = .unmatchedOpen ∨ ∃ name, m.defect = .unclosedSection name := by
  have hfinal : m.defect.IsFinal → ∀ u, c.parse (t ++ u) = .error m := by
    intro hm u
    obtain ⟨f, hfound, rfl⟩ := (c.parse_eq_error_iff t m).1 h
    obtain ⟨hsame, hline⟩ := Survey.ofTemplate_append hfound hm u.toList
    refine (c.parse_eq_error_iff _ _).2 ⟨f, ?_, ?_⟩
    · rw [String.toList_append, hsame]
    · rw [String.toList_append, hline]
  refine ⟨hfinal, fun u tree htree ↦ ?_⟩
  have hmended (hm : m.defect.IsFinal) : False := by
    rw [hfinal hm u] at htree
    cases htree
  cases hdefect : m.defect with
  | unmatchedOpen => exact .inl rfl
  | unclosedSection name => exact .inr ⟨name, rfl⟩
  | _ =>
    rw [hdefect] at hmended
    exact (hmended trivial).elim

/-- A close tag of another section than the innermost, and a tag that is closed behind the end of
the text. -/
theorem parse_append_of_isFinal_at_end :
    let interleaved := "\x7b\x7b#s\x7d\x7d\n\x7b\x7b/t\x7d\x7d"
    let opened := "\x7b\x7b#s\x7d\x7d\x7b\x7b/s\x7d"
    let c := Compiler.standard
    (c.parse interleaved = .error ⟨2, .interleavedClose "t"⟩ ∧
        c.parse (interleaved ++ " \n\x7b\x7b/s\x7d\x7d") = .error ⟨2, .interleavedClose "t"⟩) ∧
      c.parse opened = .error ⟨1, .unmatchedOpen⟩ ∧
        c.parse (opened ++ "\x7d") = .ok ⟨[.block "s" false 1 []], .standard⟩ ∧
        (Defect.unmatchedOpen = .unmatchedOpen ∨
          ∃ name, Defect.unmatchedOpen = .unclosedSection name) := by
  intro interleaved opened c
  have hinterleaved : c.parse interleaved = .error ⟨2, .interleavedClose "t"⟩ := by
    dsimp only [interleaved]
    with_unfolding_all rfl
  have hopened : c.parse opened = .error ⟨1, .unmatchedOpen⟩ := by
    dsimp only [opened]
    with_unfolding_all rfl
  have hclosed : c.parse (opened ++ "\x7d") = .ok ⟨[.block "s" false 1 []], .standard⟩ := by
    rw [show opened ++ "\x7d" = "\x7b\x7b#s\x7d\x7d\x7b\x7b/s\x7d\x7d" by decide +kernel]
    with_unfolding_all rfl
  exact ⟨⟨hinterleaved, (parse_append_of_isFinal c hinterleaved).1 trivial _⟩, hopened, hclosed,
    (parse_append_of_isFinal c hopened).2 _ _ hclosed⟩

end Mustache
