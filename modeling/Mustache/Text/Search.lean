/-!
# Taking texts apart

`cut? m t` splits a text at the first occurrence of `m`. Reading a template is a chain of such
cuts, so the facts kept here are those that a chain needs: nothing is lost (`eq_append_of_cut?`),
the part after a non-empty mark is shorter (`length_lt_of_cut?`), and the mark behind a text is
where it is cut exactly when the text is `Clear` of it (`cut?_append_of_clear`, `clear_of_cut?`).

`pieces p t` are the runs between the characters in `p`, empty ones included, as the components of
a path are.
-/

namespace Mustache.Text

/-! ### The first occurrence of a mark -/

/-- Looks for `mark` from here on, `read` being the text behind, its last character first. -/
def cutAfter (mark read : List Char) : List Char → Option (List Char × List Char)
  | [] => if mark = [] then some (read.reverse, []) else none
  | c :: rest =>
    match mark.isPrefixOf? (c :: rest) with
    | some behind => some (read.reverse, behind)
    | none => cutAfter mark (c :: read) rest

/-- The text in front of the first occurrence of `mark` and the text behind it. -/
def cut? (mark t : List Char) : Option (List Char × List Char) :=
  cutAfter mark [] t

/-- What was read before goes in front of the first part. -/
theorem cutAfter_eq (mark read t : List Char) :
    cutAfter mark read t = (cut? mark t).map fun parts ↦ (read.reverse ++ parts.1, parts.2) := by
  induction t generalizing read with
  | nil =>
    simp only [cut?, cutAfter]
    split <;> simp
  | cons c rest ih =>
    simp only [cut?, cutAfter]
    split
    · simp
    · rw [ih (c :: read), ih [c], Option.map_map]
      simp [Function.comp_def]

theorem cut?_nil (mark : List Char) :
    cut? mark [] = if mark = [] then some ([], []) else none := rfl

/-- A mark is found at the start of the text or behind its first character. -/
theorem cut?_cons (mark : List Char) (c : Char) (rest : List Char) :
    cut? mark (c :: rest) =
      match mark.isPrefixOf? (c :: rest) with
      | some behind => some ([], behind)
      | none => (cut? mark rest).map fun parts ↦ (c :: parts.1, parts.2) := by
  rw [cut?, cutAfter]
  split
  · rfl
  · exact cutAfter_eq mark [c] rest

/-- What follows a mark at the start of a text makes up the text together with it. -/
theorem eq_append_of_isPrefixOf? {mark t behind : List Char}
    (h : mark.isPrefixOf? t = some behind) : t = mark ++ behind := by
  induction mark generalizing t with
  | nil => exact Option.some.inj h
  | cons m ms ih =>
    cases t with
    | nil => cases h
    | cons c rest =>
      have hstep : (if m == c then ms.isPrefixOf? rest else none) = some behind := h
      split at hstep
      · next heq =>
        rw [List.cons_append, ← ih hstep, eq_of_beq heq]
      · cases hstep

theorem isPrefixOf?_append (mark behind : List Char) :
    mark.isPrefixOf? (mark ++ behind) = some behind := by
  induction mark with
  | nil => rfl
  | cons m ms ih =>
    show (if m == m then ms.isPrefixOf? (ms ++ behind) else none) = some behind
    rw [if_pos (beq_self_eq_true m), ih]

theorem isPrefixOf?_eq_none {mark t : List Char} (h : ¬ mark <+: t) :
    mark.isPrefixOf? t = none := by
  cases hp : mark.isPrefixOf? t with
  | none => rfl
  | some behind => exact absurd ⟨behind, (eq_append_of_isPrefixOf? hp).symm⟩ h

theorem not_prefix_of_isPrefixOf? {mark t : List Char} (h : mark.isPrefixOf? t = none) :
    ¬ mark <+: t := by
  rintro ⟨behind, rfl⟩
  rw [isPrefixOf?_append] at h
  cases h

/-- A cut loses nothing: the two parts with the mark between them are the text. -/
theorem eq_append_of_cut? {mark t front behind : List Char}
    (h : cut? mark t = some (front, behind)) : t = front ++ (mark ++ behind) := by
  induction t generalizing front with
  | nil =>
    rw [cut?_nil] at h
    split at h
    · next hm =>
      obtain ⟨rfl, rfl⟩ := Prod.mk.inj (Option.some.inj h)
      rw [hm]
      rfl
    · cases h
  | cons c rest ih =>
    rw [cut?_cons] at h
    split at h
    · next after hp =>
      obtain ⟨rfl, rfl⟩ := Prod.mk.inj (Option.some.inj h)
      simpa using eq_append_of_isPrefixOf? hp
    · obtain ⟨parts, hparts, heq⟩ := Option.map_eq_some_iff.1 h
      obtain ⟨rfl, rfl⟩ := Prod.mk.inj heq
      rw [List.cons_append, ← ih hparts]

/-- The part behind a non-empty mark is shorter than the text. -/
theorem length_lt_of_cut? {mark t front behind : List Char} (hmark : mark ≠ [])
    (h : cut? mark t = some (front, behind)) : behind.length < t.length := by
  have hlen := congrArg List.length (eq_append_of_cut? h)
  have hpos := List.length_pos_iff.2 hmark
  simp only [List.length_append] at hlen
  omega

/-! ### What is found first -/

section

variable {mark t front behind : List Char}

/-- Whether a mark that is put behind the text is found there first: the text holds no mark, and
neither does the seam. -/
def Clear (mark t : List Char) : Prop :=
  ¬ mark <:+: t ++ mark.dropLast

instance (mark t : List Char) : Decidable (Clear mark t) :=
  inferInstanceAs (Decidable (¬ mark <:+: t ++ mark.dropLast))

theorem Clear.of_cons {c : Char} (h : Clear mark (c :: t)) : Clear mark t :=
  fun hfound ↦ h (List.infix_cons hfound)

theorem Clear.of_append {u : List Char} (h : Clear mark (u ++ t)) : Clear mark t := by
  intro hfound
  refine h (hfound.trans ?_)
  rw [List.append_assoc]
  exact (List.suffix_append u _).isInfix

section

variable {x : Char}

/-- A text without a character is clear of the mark that has it twice. -/
theorem clear_of_not_mem (h : x ∉ t) : Clear [x, x] t := by
  intro hfound
  have hcount := hfound.sublist.count_le x
  rw [List.count_append, List.count_eq_zero_of_not_mem h] at hcount
  simp at hcount

/-- Texts that are clear of a doubled character are so together. -/
theorem Clear.append {u : List Char} (ht : Clear [x, x] t) (hu : Clear [x, x] u) :
    Clear [x, x] (t ++ u) := by
  induction t with
  | nil => exact hu
  | cons c t ih =>
    intro hfound
    rcases List.infix_cons_iff.1 hfound with hfirst | hfound
    · obtain ⟨rfl, hnext⟩ := List.cons_prefix_cons.1 hfirst
      refine ht (List.IsPrefix.isInfix ?_)
      rw [List.cons_append, List.cons_prefix_cons]
      refine ⟨rfl, ?_⟩
      rcases t with - | ⟨d, t⟩
      · exact List.prefix_rfl
      · obtain ⟨rfl, -⟩ := List.cons_prefix_cons.1 hnext
        exact List.cons_prefix_cons.2 ⟨rfl, List.nil_prefix⟩
    · exact ih ht.of_cons hfound

/-- The front of a text that is clear of a doubled character is so unless it ends with the
character. -/
theorem Clear.of_append_left {u : List Char} (h : Clear [x, x] (t ++ u))
    (hlast : t.getLast? ≠ some x) : Clear [x, x] t := by
  intro hfound
  rcases List.infix_concat_iff.1 hfound with hsuffix | hfound
  · obtain ⟨front, hfront⟩ := hsuffix
    have hx := congrArg List.getLast? (congrArg List.dropLast hfront)
    simp at hx
    exact hlast hx.symm
  · exact h ((hfound.trans (List.prefix_append t u).isInfix).trans
      (List.prefix_append (t ++ u) _).isInfix)

end

/-- A mark behind a text that is clear of it is where the text is cut. -/
theorem cut?_append_of_clear (hmark : mark ≠ []) (h : Clear mark t) (rest : List Char) :
    cut? mark (t ++ (mark ++ rest)) = some (t, rest) := by
  induction t with
  | nil =>
    cases mark with
    | nil => exact absurd rfl hmark
    | cons m ms =>
      rw [List.nil_append, List.cons_append, cut?_cons, ← List.cons_append, isPrefixOf?_append]
  | cons c t ih =>
    have hfirst : ¬ mark <+: c :: (t ++ (mark ++ rest)) := by
      intro hp
      -- the mark is no longer than the text with the start of a mark behind it
      have hseam : c :: t ++ mark.dropLast <+: c :: (t ++ (mark ++ rest)) := by
        rw [List.cons_append, List.cons_prefix_cons, List.prefix_append_right_inj]
        exact ⟨rfl, (List.dropLast_prefix mark).trans (List.prefix_append mark rest)⟩
      refine h (List.prefix_of_prefix_length_le hp hseam ?_).isInfix
      simp only [List.length_append, List.length_cons, List.length_dropLast]
      omega
    rw [List.cons_append, cut?_cons, isPrefixOf?_eq_none hfirst, ih h.of_cons]
    rfl

/-- A text that is clear of a mark has none. -/
theorem cut?_eq_none_of_clear (h : Clear mark t) : cut? mark t = none := by
  cases hcut : cut? mark t with
  | none => rfl
  | some parts =>
    refine absurd ?_ h
    rw [eq_append_of_cut? hcut]
    exact ⟨parts.1, parts.2 ++ mark.dropLast, by simp only [List.append_assoc]⟩

/-- The part in front of the first mark is clear of it. -/
theorem clear_of_cut? (hmark : mark ≠ []) (h : cut? mark t = some (front, behind)) :
    Clear mark front := by
  induction t generalizing front with
  | nil =>
    rw [cut?_nil, if_neg hmark] at h
    cases h
  | cons c rest ih =>
    rw [cut?_cons] at h
    split at h
    · obtain ⟨rfl, rfl⟩ := Prod.mk.inj (Option.some.inj h)
      intro hfound
      have hle := hfound.length_le
      have hpos := List.length_pos_iff.2 hmark
      simp only [List.nil_append, List.length_dropLast] at hle
      omega
    · next hnone =>
      obtain ⟨⟨first, after⟩, hparts, heq⟩ := Option.map_eq_some_iff.1 h
      obtain ⟨rfl, rfl⟩ := Prod.mk.inj heq
      intro hfound
      rcases List.infix_cons_iff.1 hfound with hp | hfound
      · refine not_prefix_of_isPrefixOf? hnone (hp.trans ?_)
        rw [eq_append_of_cut? hparts, List.cons_prefix_cons]
        exact ⟨rfl, (List.prefix_append_right_inj first).2
          ((List.dropLast_prefix mark).trans (List.prefix_append mark after))⟩
      · exact ih hparts hfound

/-- A mark is found no later than where there is one. -/
theorem exists_cut?_append (hmark : mark ≠ []) (t rest : List Char) :
    ∃ front behind, cut? mark (t ++ (mark ++ rest)) = some (front, behind) ∧
      front.length ≤ t.length := by
  induction t with
  | nil =>
    cases mark with
    | nil => exact absurd rfl hmark
    | cons m ms =>
      refine ⟨[], rest, ?_, Nat.le_refl 0⟩
      rw [List.nil_append, List.cons_append, cut?_cons, ← List.cons_append, isPrefixOf?_append]
  | cons c t ih =>
    rw [List.cons_append, cut?_cons]
    split
    · next behind _ => exact ⟨[], behind, rfl, Nat.zero_le _⟩
    · obtain ⟨front, behind, hcut, hle⟩ := ih
      exact ⟨c :: front, behind, by rw [hcut]; rfl, Nat.succ_le_succ hle⟩

/-- Characters that are in no mark are passed over. -/
theorem cut?_append_of_disjoint {skipped : List Char} (hmark : mark ≠ [])
    (h : ∀ c ∈ skipped, c ∉ mark) (t : List Char) :
    cut? mark (skipped ++ t) = (cut? mark t).map fun parts ↦ (skipped ++ parts.1, parts.2) := by
  induction skipped with
  | nil => simp
  | cons c skipped ih =>
    have hfirst : ¬ mark <+: c :: (skipped ++ t) := by
      intro hp
      cases mark with
      | nil => exact hmark rfl
      | cons m ms =>
        obtain ⟨rfl, -⟩ := List.cons_prefix_cons.1 hp
        exact h m List.mem_cons_self List.mem_cons_self
    rw [List.cons_append, cut?_cons, isPrefixOf?_eq_none hfirst,
      ih fun d hd ↦ h d (List.mem_cons_of_mem c hd), Option.map_map]
    rfl

end

/-! ### Pieces -/

/-- A character in front of the first of some lists. -/
def consFirst (c : Char) : List (List Char) → List (List Char)
  | [] => [[c]]
  | piece :: others => (c :: piece) :: others

/-- The pieces of a text between the characters in `p`. There is one more than there are such
characters. -/
def pieces (p : Char → Bool) (t : List Char) : List (List Char) :=
  t.foldr (fun c ps ↦ if p c then [] :: ps else consFirst c ps) [[]]

theorem pieces_cons (p : Char → Bool) (c : Char) (t : List Char) :
    pieces p (c :: t) = if p c then [] :: pieces p t else consFirst c (pieces p t) := rfl

theorem length_pieces (p : Char → Bool) (t : List Char) :
    (pieces p t).length = t.countP p + 1 := by
  induction t with
  | nil => rfl
  | cons c rest ih =>
    rw [pieces_cons]
    split
    · next hc => rw [List.length_cons, ih, List.countP_cons_of_pos hc]
    · next hc =>
      rw [List.countP_cons_of_neg hc, ← ih]
      cases hps : pieces p rest with
      | nil => simp [hps] at ih
      | cons piece others => rfl

/-- A text without separators is one piece. -/
theorem pieces_of_forall {p : Char → Bool} {t : List Char} (ht : ∀ c ∈ t, p c = false) :
    pieces p t = [t] := by
  induction t with
  | nil => rfl
  | cons c t ih =>
    obtain ⟨hc, ht⟩ := List.forall_mem_cons.1 ht
    rw [pieces_cons, hc, ih ht]
    rfl

/-- A separator parts the pieces on its two sides. -/
theorem pieces_append_cons {p : Char → Bool} {sep : Char} (hsep : p sep = true)
    (t u : List Char) : pieces p (t ++ sep :: u) = pieces p t ++ pieces p u := by
  induction t with
  | nil =>
    rw [List.nil_append, pieces_cons, if_pos hsep]
    rfl
  | cons c t ih =>
    rw [List.cons_append, pieces_cons, pieces_cons, ih]
    split
    · rfl
    · cases hpieces : pieces p t with
      | nil => exact absurd (length_pieces p t) (by rw [hpieces]; exact (Nat.succ_ne_zero _).symm)
      | cons first others => rfl

end Mustache.Text
