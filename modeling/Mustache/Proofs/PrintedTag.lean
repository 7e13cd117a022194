import Mathlib.Data.List.Basic
import Mustache.Proofs.SourcePieces
import Mustache.Proofs.StandingAlone

/-!
# Printed tags

What stands between the delimiters of a printed tag, and what a reader makes of it.

A tag is printed with its sigil and its trimmed name, so it is read the way the tag that it goes
back to was read (`body_of_ofBody?`), once its body has been found. The body is found as it was
printed when the tag is `Legible`: it does not start with a brace, and the closing delimiter is not
in it and does not overlap with it. Nothing less will do (`eq_body_of_ofBody?`), for a body that is
cut off before its end has a shorter name, and one that starts with a brace is looked for behind the
wrong mark.

What is needed of the pieces is what reading a template makes sure of (`WellRead`).
-/

namespace Mustache

namespace Piece

/-- What the tag of a piece asks for; a text has no tag. -/
def directive? : Piece → Option Directive
  | .text _ => none
  | .interpolation name raw => some (.interpolation name raw)
  | .enter name inverted _ => some (.enter name inverted)
  | .leave name => some (.leave name)
  | .inclusion name _ _ => some (.inclusion name)

theorem directive?_core (p : Piece) : p.core.directive? = p.directive? := by
  cases p <;> rfl

/-- Whether the tag of a piece, once printed, ends where it was made to end. -/
def Legible (p : Piece) : Prop :=
  Text.Clear Delimiters.standard.closing p.body ∧ p.body.head? ≠ some '\x7b'

instance (p : Piece) : Decidable p.Legible :=
  inferInstanceAs (Decidable (_ ∧ _ ≠ _))

/-! ### Pieces of a template -/

/-- What reading a template with the standard delimiters makes sure of the line of a piece. -/
def Lined : Piece → Prop
  | .inclusion _ indent none => indent = ""
  | .inclusion _ indent (some ending) =>
    (∀ c ∈ indent.toList, Text.isInline c = true) ∧ Text.IsLineEnd ending.toList
  | _ => True

/-- What reading a template with the standard delimiters makes sure of a piece that something
follows. -/
structure WellRead (p : Piece) : Prop where
  text {t : String} (h : p = .text t) : t ≠ "" ∧ Text.Clear Delimiters.standard.opening t.toList
  body_ne_nil (h : p.isText = false) : p.body ≠ []
  trim_body : Text.trim p.body = p.body
  ofBody?_body (h : p.isText = false) : Directive.ofBody? p.body = p.directive?
  lined : p.Lined

theorem WellRead.isInline_of_mem_margin {p : Piece} (hw : p.WellRead) :
    ∀ x ∈ p.margin, Text.isInline x = true := by
  intro x hmem
  rcases p with u | ⟨name, raw⟩ | ⟨name, inverted, line⟩ | name | ⟨name, indent, _ | ending⟩
  case inclusion.some => exact hw.lined.1 x hmem
  all_goals cases hmem

/-- No opening delimiter is found in the blanks in front of a tag. -/
theorem WellRead.clear_margin {p : Piece} (hw : p.WellRead) :
    Text.Clear Delimiters.standard.opening p.margin := by
  refine Text.clear_of_not_mem fun hmem ↦ ?_
  have hblank := hw.isInline_of_mem_margin _ hmem
  cases hblank

/-- The directive of a tag that leaves a piece is that of the piece. -/
theorem directive?_of_piece? {t : Token} {p : Piece} (h : t.piece? false = some p) :
    p.directive? = some t.directive := by
  unfold Token.piece? at h
  cases hd : t.directive <;> simp only [hd, Bool.or_false, reduceCtorEq] at h
  case inclusion => split at h <;> cases h <;> rfl
  all_goals
    cases h
    rfl

/-- The tag of a piece is printed with the body it was read from, or with a sigil and what that body
has of a name. -/
theorem exists_body_eq {b : List Char} {p : Piece} (hp : p.isText = false)
    (h : Directive.ofBody? b = p.directive?) :
    p.body = b ∨ ∃ sigil u, Text.isBlank sigil = false ∧ p.body = sigil :: Text.trim u ∧
      u.length < b.length ∧ Directive.ofBody? p.body = p.directive? := by
  unfold Directive.ofBody? at h
  rcases p with t | ⟨name, _ | _⟩ | ⟨name, _ | _, line⟩ | name | ⟨name, indent, lineEnd?⟩
  case text => cases hp
  case interpolation.false =>
    -- an escaped name is the one tag without a sigil: it is printed as it stood
    left
    split at h
    case h_6 =>
      obtain ⟨d, -, hd⟩ := Option.map_eq_some_iff.1 h
      cases hd
    case h_8 =>
      split at h <;> cases h
      exact String.toList_ofList
    all_goals cases h
    exact String.toList_ofList
  all_goals
    right
    split at h
    case h_6 =>
      obtain ⟨d, -, hd⟩ := Option.map_eq_some_iff.1 h
      cases hd
    case h_8 hhead =>
      -- a name in braces is printed behind an ampersand
      obtain ⟨u, rfl⟩ := List.head?_eq_some_iff.1 hhead
      split at h <;> cases h
      all_goals
        refine ⟨'&', u.dropLast, by decide, ?_, ?_, ?_⟩
        · simp [body]
        · simp only [List.length_dropLast, List.length_cons]
          omega
        · simp [Directive.ofBody?, body, directive?, Directive.nameBehindSigil, Text.trim_trim]
    all_goals cases h
    all_goals
      next hhead =>
      obtain ⟨u, rfl⟩ := List.head?_eq_some_iff.1 hhead
      refine ⟨_, u, ?_, congrArg (List.cons _) String.toList_ofList, Nat.lt_succ_self _, ?_⟩
      · decide
      · simp [Directive.ofBody?, body, directive?, Directive.nameBehindSigil, Text.trim_trim]

/-- A tag that is read off a body can be printed and read again. -/
theorem body_of_ofBody? {b : List Char} {p : Piece} (hp : p.isText = false) (hne : b ≠ [])
    (htrim : Text.trim b = b) (h : Directive.ofBody? b = p.directive?) :
    p.body ≠ [] ∧ Text.trim p.body = p.body ∧ Directive.ofBody? p.body = p.directive? := by
  rcases exists_body_eq hp h with hbody | ⟨sigil, u, hsigil, hbody, -, hread⟩
  · rw [hbody]
    exact ⟨hne, htrim, h⟩
  · refine ⟨?_, ?_, hread⟩
    · rw [hbody]
      exact List.cons_ne_nil _ _
    · rw [hbody]
      exact Text.trim_cons hsigil (Text.trim_trim u)

/-- A tag is not printed with more than it was read from. -/
theorem length_body_le {b : List Char} {p : Piece} (hp : p.isText = false)
    (h : Directive.ofBody? b = p.directive?) : p.body.length ≤ b.length := by
  rcases exists_body_eq hp h with hbody | ⟨sigil, u, -, hbody, hlt, -⟩
  · exact Nat.le_of_eq (congrArg List.length hbody)
  · have hle := Text.length_trim_le u
    rw [hbody, List.length_cons]
    omega

/-- No tag that is written out stands alone. -/
theorem mayStandAlone_of_interpolation {b : List Char} {name : String} {raw : Bool}
    (h : Directive.ofBody? b = some (.interpolation name raw)) : mayStandAlone b = false := by
  unfold Directive.ofBody? at h
  rw [mayStandAlone]
  cases hhead : b.head? with
  | none => rfl
  | some x =>
    rw [Option.any_some]
    rw [hhead] at h
    refine Bool.eq_false_iff.2 fun hmem ↦ ?_
    rw [standaloneSigils, List.contains_iff_mem] at hmem
    simp only [List.mem_cons, List.not_mem_nil, or_false] at hmem
    rcases hmem with rfl | rfl | rfl | rfl | rfl | rfl
    case inr.inr.inr.inr.inr =>
      obtain ⟨d, -, hd⟩ := Option.map_eq_some_iff.1 h
      cases hd
    all_goals cases h

/-- What starts like the tag of a piece leaves a piece. -/
theorem exists_piece?_of_head? {b : List Char} {p : Piece} (hp : p.isText = false)
    (hread : Directive.ofBody? p.body = p.directive?) (hhead : b.head? = p.body.head?) {t : Token}
    (ht : Directive.ofBody? b = some t.directive) : ∃ q, t.piece? false = some q := by
  unfold Token.piece?
  -- only comments and changes of delimiters leave none, and no piece is printed with their sigils
  cases hd : t.directive with
  | comment =>
    have hmark : p.body.head? = some '!' := by
      rw [← hhead]
      rw [hd, Directive.ofBody?] at ht
      split at ht
      case h_6 =>
        obtain ⟨d, -, hd⟩ := Option.map_eq_some_iff.1 ht
        cases hd
      case h_8 => split at ht <;> cases ht
      all_goals cases ht
      assumption
    rw [Directive.ofBody?, hmark] at hread
    cases p <;> cases hread
  | delimiters d =>
    have hmark : p.body.head? = some '=' := by
      rw [← hhead]
      rw [hd, Directive.ofBody?] at ht
      split at ht
      case h_6 => assumption
      case h_8 => split at ht <;> cases ht
      all_goals cases ht
    rw [Directive.ofBody?, hmark] at hread
    cases p with
    | text t => cases hp
    | _ =>
      obtain ⟨d, -, hd⟩ := Option.map_eq_some_iff.1 hread
      cases hd
  | inclusion name => cases t.lineEnd? <;> exact ⟨_, rfl⟩
  | _ => exact ⟨_, rfl⟩

/-! ### The body of a printed tag -/

/-- The body of a legible tag is found as it was printed. -/
theorem Legible.body? {p : Piece} (h : p.Legible) (hne : p.body ≠ []) (rest : List Char) :
    Cursor.body? .standard (p.body ++ (Delimiters.standard.closing ++ rest)) =
      some (p.body, rest) := by
  have hhead : (p.body ++ (Delimiters.standard.closing ++ rest)).head? ≠ some '\x7b' := by
    rw [List.head?_append_of_ne_nil _ hne]
    exact h.2
  rw [Cursor.body?, if_neg hhead]
  exact Text.cut?_append_of_clear Delimiters.standard.closing_usable.1 h.1 rest

section

variable {p : Piece} (hw : p.WellRead) (hp : p.isText = false) {rest raw behind : List Char}
  (h : Cursor.body? .standard (p.body ++ (Delimiters.standard.closing ++ rest)) =
    some (raw, behind))
include hw hp h

/-- Whatever is found of a body starts like it. -/
theorem head?_trim_of_body? (hraw : raw ≠ []) : (Text.trim raw).head? = p.body.head? := by
  have htext := Cursor.eq_append_of_body? h
  have hfirst : raw.head? = p.body.head? := by
    rw [← List.head?_append_of_ne_nil raw hraw, ← htext,
      List.head?_append_of_ne_nil _ (hw.body_ne_nil hp)]
  cases hx : p.body.head? with
  | none => exact absurd (List.head?_eq_none_iff.1 hx) (hw.body_ne_nil hp)
  | some x =>
    have hblank : Text.isBlank x = false :=
      Text.not_isBlank_of_head?_trim (t := p.body) (by rw [hw.trim_body, hx])
    exact Text.head?_trim (hfirst.trans hx) hblank

/-- A body that starts with a brace is found to be that of a raw interpolation. -/
theorem ofBody?_of_brace (hbrace : p.body.head? = some '\x7b') :
    Directive.ofBody? (Text.trim raw) ≠ p.directive? := by
  have htext := Cursor.eq_append_of_body? h
  have hhead : (p.body ++ (Delimiters.standard.closing ++ rest)).head? = some '\x7b' := by
    rw [List.head?_append_of_ne_nil _ (hw.body_ne_nil hp), hbrace]
  rw [Cursor.body?, if_pos hhead] at h
  obtain ⟨⟨front, after⟩, hcut, hparts⟩ := Option.map_eq_some_iff.1 h
  obtain ⟨rfl, rfl⟩ := Prod.mk.inj hparts
  rcases front with - | ⟨x, front⟩
  · rw [htext] at hhead
    cases hhead
  · rw [htext] at hhead
    obtain rfl : x = '\x7b' := Option.some.inj hhead
    have htrim : Text.trim ('\x7b' :: front ++ ['\x7d']) = '\x7b' :: front ++ ['\x7d'] := by
      refine Text.trim_eq_self (fun c hc ↦ ?_) fun c hc ↦ ?_
      · cases hc
        rfl
      · rw [List.getLast?_concat] at hc
        cases hc
        rfl
    have hraw : Directive.ofBody? ('\x7b' :: front ++ ['\x7d']) =
        some (.interpolation (String.ofList (Text.trim front)) true) := by
      have hlast : ('\x7b' :: (front ++ ['\x7d'])).getLast? = some '\x7d' := by
        rw [← List.cons_append, List.getLast?_concat]
      simp [Directive.ofBody?, hlast]
    rw [htrim, hraw]
    intro heq
    rcases p with t | ⟨name, _ | _⟩ | ⟨name, _ | _, line⟩ | name | ⟨name, indent, lineEnd?⟩ <;>
      cases heq
    cases hbrace

/-- **A tag that is read as it was printed has its whole body read**, so it is legible. -/
theorem eq_body_of_ofBody? (hread : Directive.ofBody? (Text.trim raw) = p.directive?) :
    raw = p.body ∧ behind = rest ∧ p.Legible := by
  have hbrace : p.body.head? ≠ some '\x7b' := fun hbrace ↦ ofBody?_of_brace hw hp h hbrace hread
  have htext := Cursor.eq_append_of_body? h
  have hhead : (p.body ++ (Delimiters.standard.closing ++ rest)).head? ≠ some '\x7b' := by
    rwa [List.head?_append_of_ne_nil _ (hw.body_ne_nil hp)]
  rw [Cursor.body?, if_neg hhead] at h
  -- the first closing delimiter is not behind the body, and not in it either
  have hmark : Delimiters.standard.closing ≠ [] := Delimiters.standard.closing_usable.1
  obtain ⟨front, after, hcut, hle⟩ := Text.exists_cut?_append hmark p.body rest
  obtain ⟨rfl, rfl⟩ := Prod.mk.inj (Option.some.inj (hcut.symm.trans h))
  have hge : p.body.length ≤ front.length :=
    Nat.le_trans (length_body_le hp hread) (Text.length_trim_le front)
  obtain ⟨hbody, hrest⟩ := List.append_inj htext (Nat.le_antisymm hge hle)
  refine ⟨hbody.symm, (List.append_cancel_left hrest).symm, ?_, hbrace⟩
  rw [hbody]
  exact Text.clear_of_cut? hmark hcut

end

end Piece

end Mustache
