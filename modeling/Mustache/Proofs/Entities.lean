import Mustache.Proofs.Markup

/-!
# Entities

A text that has been written into markup is the text again once its entities are replaced back.

## The other sides

* `EscapeMode.htmlSlices?` writes a text in another way than character by character. It goes through
  the text with the offset of every character in bytes and copies slices, from behind the last
  character that had to be replaced up to the next one. A slice that does not start and end between
  characters cannot be taken, so that none of them fails is part of what is to be shown
  (`exists_slicesFrom?`): the offset goes up by as many bytes as a character has, and by one behind
  a character that is replaced.
* `Text.unescape` reads a text from left to right and puts a character in the place of every entity.
  What it has put there is not looked at again, so a text that already looks like entities comes
  back as it was.

Either rests on what one character is written as (`htmlChar_of_entity?`).
-/

namespace Mustache

namespace Text

/-- The characters that are replaced in markup, each with the entity that stands for it. -/
def entityTable : List (Char × String) :=
  [('&', "&amp;"), ('<', "&lt;"), ('>', "&gt;"), ('"', "&quot;"), ('\x27', "&#39;")]

/-- The entity that stands for a character, if the character is replaced at all. -/
def entity? (c : Char) : Option String :=
  entityTable.lookup c

theorem mem_entityTable_of_entity? {c : Char} {e : String} (h : entity? c = some e) :
    (c, e) ∈ entityTable :=
  Entries.mem_of_lookup h

/-! ### Slices -/

/-- The part of a text between two offsets in bytes; `none` unless both are between characters and
in order. -/
def slice? (t : String) (first last : Nat) : Option String :=
  if h : String.Pos.Raw.IsValid t ⟨first⟩ ∧ String.Pos.Raw.IsValid t ⟨last⟩ ∧ first ≤ last then
    some (t.extract (t.pos ⟨first⟩ h.1) (t.pos ⟨last⟩ h.2.1))
  else none

/-- A part is the slice between the end of what is in front of it and its own end. -/
theorem slice?_append (front part behind : String) :
    slice? (front ++ part ++ behind) front.utf8ByteSize (front ++ part).utf8ByteSize =
      some part := by
  have hfirst : String.Pos.Raw.IsValid (front ++ part ++ behind) ⟨front.utf8ByteSize⟩ :=
    String.Pos.Raw.isValid_iff_exists_append.2 ⟨front, part ++ behind, String.append_assoc, rfl⟩
  have hlast : String.Pos.Raw.IsValid (front ++ part ++ behind) ⟨(front ++ part).utf8ByteSize⟩ :=
    String.Pos.Raw.isValid_iff_exists_append.2 ⟨front ++ part, behind, rfl, rfl⟩
  have hle : front.utf8ByteSize ≤ (front ++ part).utf8ByteSize := by
    rw [String.utf8ByteSize_append]
    exact Nat.le_add_right _ _
  rw [slice?, dif_pos ⟨hfirst, hlast, hle⟩, Option.some_inj, ← String.toByteArray_inj,
    String.toByteArray_extract]
  show (front ++ part ++ behind).toByteArray.extract front.utf8ByteSize
    (front ++ part).utf8ByteSize = _
  rw [← String.size_toByteArray, ← String.size_toByteArray, String.toByteArray_append,
    ByteArray.extract_append_size_left, String.toByteArray_append,
    ByteArray.extract_append_eq_right rfl (ByteArray.size_append ..)]

/-- The characters of a text, each with the offset of its first byte. -/
def offsetsFrom (first : Nat) : List Char → List (Nat × Char)
  | [] => []
  | c :: t => (first, c) :: offsetsFrom (first + c.utf8Size) t

/-! ### Replacing entities back -/

/-- The character whose entity a text starts with, and the text behind the entity. -/
def entityAt? (t : List Char) : Option (Char × List Char) :=
  entityTable.findSome? fun (c, e) ↦ (e.toList.isPrefixOf? t).map fun behind ↦ (c, behind)

/-- An entity takes something of the text. -/
theorem length_lt_of_entityAt? {t behind : List Char} {c : Char}
    (h : entityAt? t = some (c, behind)) : behind.length < t.length := by
  obtain ⟨⟨d, e⟩, hmem, hprefix⟩ := List.exists_of_findSome?_eq_some h
  obtain ⟨rest, hrest, heq⟩ := Option.map_eq_some_iff.1 hprefix
  obtain ⟨rfl, rfl⟩ := Prod.mk.inj heq
  have hpos : ∀ p ∈ entityTable, 0 < p.2.toList.length := by decide
  have hlen := congrArg List.length (eq_append_of_isPrefixOf? hrest)
  have hentity : 0 < e.toList.length := hpos _ hmem
  rw [List.length_append] at hlen
  omega

/-- The text with every entity replaced by its character, from left to right. -/
def unescape (t : List Char) : List Char :=
  match t with
  | [] => []
  | c :: rest =>
    match _hat : entityAt? (c :: rest) with
    | some (d, behind) => d :: unescape behind
    | none => c :: unescape rest
termination_by t.length
decreasing_by
  · exact length_lt_of_entityAt? _hat
  · exact Nat.lt_succ_self _

theorem unescape_of_entityAt? {t behind : List Char} {c : Char}
    (h : entityAt? t = some (c, behind)) : unescape t = c :: unescape behind := by
  cases t with
  | nil => exact absurd (length_lt_of_entityAt? h) (Nat.not_lt_zero _)
  | cons d rest =>
    rw [unescape]
    split
    · next heq => rw [h] at heq; cases heq; rfl
    · next heq => rw [h] at heq; cases heq

/-- Where no entity starts, the character stays. -/
theorem unescape_cons {c : Char} {t : List Char} (h : entityAt? (c :: t) = none) :
    unescape (c :: t) = c :: unescape t := by
  rw [unescape]
  split
  · next heq => rw [h] at heq; cases heq
  · rfl

/-- An entity is taken for itself, whatever is behind it. -/
theorem entityAt?_append {c : Char} {e : String} (h : (c, e) ∈ entityTable) (t : List Char) :
    entityAt? (e.toList ++ t) = some (c, t) := by
  simp only [entityTable, List.mem_cons, Prod.mk.injEq, List.not_mem_nil, or_false] at h
  rcases h with ⟨rfl, rfl⟩ | ⟨rfl, rfl⟩ | ⟨rfl, rfl⟩ | ⟨rfl, rfl⟩ | ⟨rfl, rfl⟩ <;> rfl

/-- Nothing but an ampersand starts an entity. -/
theorem entityAt?_cons {c : Char} (hc : c ≠ '&') (t : List Char) : entityAt? (c :: t) = none := by
  have hamp : ∀ p ∈ entityTable, p.2.toList.head? = some '&' := by decide
  refine List.findSome?_eq_none_iff.2 fun (d, e) hmem ↦ ?_
  obtain ⟨rest, hrest⟩ := List.head?_eq_some_iff.1 (hamp _ hmem)
  have hprefix : ¬ e.toList <+: c :: t := by
    intro hprefix
    rw [show e.toList = '&' :: rest from hrest] at hprefix
    exact hc (List.cons_prefix_cons.1 hprefix).1.symm
  dsimp only
  rw [isPrefixOf?_eq_none hprefix, Option.map_none]

end Text

namespace EscapeMode

/-- A character with an entity is written as that. -/
theorem htmlChar_of_entity? {c : Char} {e : String} (h : Text.entity? c = some e) :
    htmlChar c = e.toList := by
  have hmem := Text.mem_entityTable_of_entity? h
  simp only [Text.entityTable, List.mem_cons, Prod.mk.injEq, List.not_mem_nil, or_false] at hmem
  rcases hmem with ⟨rfl, rfl⟩ | ⟨rfl, rfl⟩ | ⟨rfl, rfl⟩ | ⟨rfl, rfl⟩ | ⟨rfl, rfl⟩ <;> rfl

/-- A character without one is written as itself. -/
theorem htmlChar_of_entity?_eq_none {c : Char} (h : Text.entity? c = none) : htmlChar c = [c] := by
  have hne : ∀ p ∈ Text.entityTable, c ≠ p.1 := Entries.ne_of_lookup_eq_none h
  simp only [Text.entityTable, List.forall_mem_cons] at hne
  obtain ⟨hamp, hlt, hgt, hquote, hapostrophe, -⟩ := hne
  have hcode : c.toNat ≠ 39 := fun heq ↦ hapostrophe (Char.toNat_inj.1 heq)
  rw [htmlChar, if_neg hamp, if_neg hlt, if_neg hgt, if_neg hquote, if_neg hcode]

theorem ofList_htmlChar (c : Char) :
    String.ofList (htmlChar c) = (Text.entity? c).getD (String.singleton c) := by
  cases he : Text.entity? c with
  | some e => rw [htmlChar_of_entity? he, String.ofList_toList, Option.getD_some]
  | none =>
    rw [htmlChar_of_entity?_eq_none he, Option.getD_none, String.singleton_eq_ofList]

/-- What has been written of a character is read back, and reading goes on behind it. -/
theorem unescape_htmlChar_append (c : Char) (t : List Char) :
    Text.unescape (htmlChar c ++ t) = c :: Text.unescape t := by
  cases he : Text.entity? c with
  | some e =>
    rw [htmlChar_of_entity? he]
    exact Text.unescape_of_entityAt?
      (Text.entityAt?_append (Text.mem_entityTable_of_entity? he) t)
  | none =>
    have hamp : c ≠ '&' := by
      rintro rfl
      cases he
    rw [htmlChar_of_entity?_eq_none he]
    exact Text.unescape_cons (Text.entityAt?_cons hamp t)

theorem unescape_flatMap_htmlChar (t : List Char) :
    Text.unescape (t.flatMap htmlChar) = t := by
  induction t with
  | nil => rw [List.flatMap_nil, Text.unescape]
  | cons c t ih => rw [List.flatMap_cons, unescape_htmlChar_append, ih]

/-! ### Writing slice by slice -/

/-- What is written of a text when everything in front of the offset `last` has been and the
characters ahead are still to be looked at: slices and entities in turn, with the rest of the text
at the end. -/
def slicesFrom? (t : String) (last : Nat) : List (Nat × Char) → Option (List String)
  | [] => (Text.slice? t last t.utf8ByteSize).map fun part ↦ [part]
  | (first, c) :: ahead =>
    match Text.entity? c with
    | none => slicesFrom? t last ahead
    | some e => do
      let part ← Text.slice? t last first
      let parts ← slicesFrom? t (first + 1) ahead
      return part :: e :: parts

/-- A text in markup, slice by slice. -/
def htmlSlices? (t : String) : Option (List String) :=
  slicesFrom? t 0 (Text.offsetsFrom 0 t.toList)

/-- A character that is replaced is one byte long. -/
theorem utf8Size_of_entity? {c : Char} {e : String} (h : Text.entity? c = some e) :
    c.utf8Size = 1 := by
  have hsize : ∀ p ∈ Text.entityTable, p.1.utf8Size = 1 := by decide
  exact hsize _ (Text.mem_entityTable_of_entity? h)

theorem utf8ByteSize_ofList_concat (t : List Char) (c : Char) :
    (String.ofList (t ++ [c])).utf8ByteSize = (String.ofList t).utf8ByteSize + c.utf8Size := by
  rw [String.ofList_append, String.utf8ByteSize_append]
  simp

/-- **The slices can be taken, and make up the text in markup.** In front of the characters ahead
is what has been written, and behind that what is waiting to be copied. -/
theorem exists_slicesFrom? (written waiting ahead : List Char) :
    ∃ parts,
      slicesFrom? (String.ofList (written ++ waiting ++ ahead))
        (String.ofList written).utf8ByteSize
        (Text.offsetsFrom (String.ofList (written ++ waiting)).utf8ByteSize ahead) = some parts ∧
      String.join parts = String.ofList (waiting ++ ahead.flatMap htmlChar) := by
  induction ahead generalizing written waiting with
  | nil =>
    have hslice := Text.slice?_append (String.ofList written) (String.ofList waiting) ""
    rw [String.append_empty, ← String.ofList_append] at hslice
    refine ⟨[String.ofList waiting], ?_, ?_⟩
    · rw [List.append_nil, Text.offsetsFrom, slicesFrom?, hslice, Option.map_some]
    · rw [List.flatMap_nil, List.append_nil, String.join_cons]
      exact String.append_empty
  | cons c ahead ih =>
    have hwhole : written ++ waiting ++ c :: ahead = written ++ waiting ++ [c] ++ ahead := by simp
    rw [Text.offsetsFrom, slicesFrom?, ← utf8ByteSize_ofList_concat, hwhole, List.flatMap_cons]
    cases he : Text.entity? c with
    | none =>
      -- the character waits with those in front of it
      obtain ⟨parts, hparts, hjoin⟩ := ih written (waiting ++ [c])
      rw [← List.append_assoc] at hparts
      exact ⟨parts, hparts, by
        rw [hjoin, htmlChar_of_entity?_eq_none he, List.append_assoc]⟩
    | some e =>
      -- what has been waiting is copied, and the entity written in the place of the character
      have hslice := Text.slice?_append (String.ofList written) (String.ofList waiting)
        (String.ofList ([c] ++ ahead))
      rw [← String.ofList_append, ← String.ofList_append, ← List.append_assoc] at hslice
      obtain ⟨parts, hparts, hjoin⟩ := ih (written ++ waiting ++ [c]) []
      rw [List.append_nil, utf8ByteSize_ofList_concat, utf8Size_of_entity? he] at hparts
      refine ⟨String.ofList waiting :: e :: parts, ?_, ?_⟩
      · dsimp only
        rw [hslice, utf8ByteSize_ofList_concat, utf8Size_of_entity? he, hparts]
        rfl
      · rw [String.join_cons, String.join_cons, hjoin, List.nil_append, htmlChar_of_entity? he,
          String.ofList_append, String.ofList_append, String.ofList_toList]

/-- The slices are all there, and make the escaped text. -/
theorem exists_htmlSlices? (t : String) :
    ∃ parts, htmlSlices? t = some parts ∧ String.join parts = html.escape t := by
  obtain ⟨parts, hparts, hjoin⟩ := exists_slicesFrom? [] [] t.toList
  rw [List.nil_append, List.nil_append, String.ofList_toList] at hparts
  exact ⟨parts, hparts, hjoin⟩

end EscapeMode

/-- **Markup text is the text with its entities, no more and no less.** However it is written, in
slices or character by character, the five characters that mean something in markup are replaced and
nothing else is. What is written in parts is written as a whole, none of the characters is left,
every ampersand starts an entity, and the text comes back when the entities are replaced back. -/
theorem markup_text_is_lossless (t u : String) :
    (∃ parts, EscapeMode.htmlSlices? t = some parts ∧
      String.join parts = EscapeMode.html.escape t) ∧
    EscapeMode.html.escape t =
      String.join (t.toList.map fun c ↦ (Text.entity? c).getD (String.singleton c)) ∧
    EscapeMode.html.escape (t ++ u) = EscapeMode.html.escape t ++ EscapeMode.html.escape u ∧
    Text.Without Text.markup (EscapeMode.html.escape t) ∧
    Text.AmpersandsEscape (EscapeMode.html.escape t) ∧
    String.ofList (Text.unescape (EscapeMode.html.escape t).toList) = t := by
  refine ⟨EscapeMode.exists_htmlSlices? t, ?_, EscapeMode.escape_append .html t u,
    EscapeMode.without_escape_html t, EscapeMode.ampersandsEscape_escape_html t, ?_⟩
  · rw [EscapeMode.escape, EscapeMode.ofList_flatMap]
    exact congrArg String.join (List.map_congr_left fun c _ ↦ EscapeMode.ofList_htmlChar c)
  · rw [EscapeMode.escape, String.toList_ofList]
    exact (congrArg String.ofList (EscapeMode.unescape_flatMap_htmlChar t.toList)).trans
      String.ofList_toList

end Mustache
