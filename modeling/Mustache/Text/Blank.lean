/-!
# Blanks

Three sets of characters count as blank, each in its own place: the Unicode property White_Space
(names and tag bodies are trimmed by it), the five ASCII separators between two new delimiters,
and the space and tab that may surround a tag standing alone on its line.

## Shape decisions

* **Text is a list of characters here.** Reading a template takes texts apart at both ends; the
  lists keep every cut a suffix or a prefix in plain sight.
* `trim` is the two one-sided trims in a row, and each one-sided trim is a `dropWhile`.
-/

namespace Mustache.Text

/-- The characters with the Unicode property White_Space. -/
def isBlank (c : Char) : Bool :=
  let n := c.toNat
  (0x09 ≤ n && n ≤ 0x0D) || n == 0x20 || n == 0x85 || n == 0xA0 || n == 0x1680 ||
    (0x2000 ≤ n && n ≤ 0x200A) || n == 0x2028 || n == 0x2029 || n == 0x202F || n == 0x205F ||
    n == 0x3000

/-- The blanks that separate the two words of a delimiter change: space, tab, line feed, form
feed and carriage return. -/
def isSeparator (c : Char) : Bool :=
  c == ' ' || c == '\t' || c == '\n' || c == '\x0c' || c == '\r'

/-- The blanks that stay within a line. -/
def isInline (c : Char) : Bool :=
  c == ' ' || c == '\t'

/-! ### Trimming -/

/-- The text without the characters in `p` at its end. -/
def dropRightWhile (p : Char → Bool) (t : List Char) : List Char :=
  (t.reverse.dropWhile p).reverse

/-- The longest run of characters in `p` at the end of the text. -/
def takeRightWhile (p : Char → Bool) (t : List Char) : List Char :=
  (t.reverse.takeWhile p).reverse

/-- The text without blanks at either end. -/
def trim (t : List Char) : List Char :=
  dropRightWhile isBlank (t.dropWhile isBlank)

/-- Cutting off the run at the end loses nothing. -/
theorem dropRightWhile_append_takeRightWhile (p : Char → Bool) (t : List Char) :
    dropRightWhile p t ++ takeRightWhile p t = t := by
  rw [dropRightWhile, takeRightWhile, ← List.reverse_append, List.takeWhile_append_dropWhile,
    List.reverse_reverse]

/-- The run at the end holds characters in `p` only. -/
theorem of_mem_takeRightWhile {p : Char → Bool} {t : List Char} {c : Char}
    (h : c ∈ takeRightWhile p t) : p c = true := by
  rw [takeRightWhile, List.mem_reverse] at h
  exact List.all_eq_true.1 List.all_takeWhile c h

section

variable {p : Char → Bool} {t u : List Char}

/-- An end of characters that are all dropped makes no difference. -/
theorem dropRightWhile_append_of_all (t : List Char) (h : ∀ c ∈ u, p c = true) :
    dropRightWhile p (t ++ u) = dropRightWhile p t := by
  rw [dropRightWhile, List.reverse_append,
    List.dropWhile_append_of_pos fun c hc ↦ h c (List.mem_reverse.1 hc)]
  rfl

theorem takeRightWhile_append_of_all (t : List Char) (h : ∀ c ∈ u, p c = true) :
    takeRightWhile p (t ++ u) = takeRightWhile p t ++ u := by
  rw [takeRightWhile, List.reverse_append,
    List.takeWhile_append_of_pos fun c hc ↦ h c (List.mem_reverse.1 hc), List.reverse_append,
    List.reverse_reverse]
  rfl

/-- What is left of a text does not end with a character in `p`. -/
theorem of_getLast?_dropRightWhile {c : Char} (h : (dropRightWhile p t).getLast? = some c) :
    p c = false := by
  rw [dropRightWhile, List.getLast?_reverse] at h
  have hhead := List.head?_dropWhile_not p t.reverse
  rw [h] at hhead
  simpa using hhead

/-- A text that does not end with a character in `p` has no run of them at its end. -/
theorem takeRightWhile_eq_nil (h : ∀ c, t.getLast? = some c → p c = false) :
    takeRightWhile p t = [] := by
  rw [takeRightWhile, List.reverse_eq_nil_iff]
  cases hr : t.reverse with
  | nil => rfl
  | cons c r =>
    refine List.takeWhile_cons_of_neg ?_
    rw [h c (by rw [← List.head?_reverse, hr]; rfl)]
    decide

/-- Nothing is dropped if the last character stays. -/
theorem dropRightWhile_eq_self (h : ∀ c, t.getLast? = some c → p c = false) :
    dropRightWhile p t = t := by
  have happend := dropRightWhile_append_takeRightWhile p t
  rwa [takeRightWhile_eq_nil h, List.append_nil] at happend

theorem length_dropRightWhile_le (p : Char → Bool) (t : List Char) :
    (dropRightWhile p t).length ≤ t.length := by
  have hle := (List.dropWhile_sublist (l := t.reverse) p).length_le
  rwa [List.length_reverse, ← List.length_reverse] at hle

end

theorem length_trim_le (t : List Char) : (trim t).length ≤ t.length :=
  Nat.le_trans (length_dropRightWhile_le _ _) (List.dropWhile_sublist isBlank).length_le

/-- A text with a blank at neither end is trimmed. -/
theorem trim_eq_self {t : List Char} (hfirst : ∀ c, t.head? = some c → isBlank c = false)
    (hlast : ∀ c, t.getLast? = some c → isBlank c = false) : trim t = t := by
  have hdrop : t.dropWhile isBlank = t := by
    rcases t with - | ⟨c, t⟩
    · rfl
    · exact List.dropWhile_cons_of_neg (by rw [hfirst c rfl]; decide)
  rw [trim, hdrop, dropRightWhile_eq_self hlast]

/-- A trimmed text starts with no blank. -/
theorem not_isBlank_of_head?_trim {t : List Char} {c : Char} (h : (trim t).head? = some c) :
    isBlank c = false := by
  have happend := dropRightWhile_append_takeRightWhile isBlank (t.dropWhile isBlank)
  have hhead := List.head?_dropWhile_not isBlank t
  rw [← happend, List.head?_append,
    show dropRightWhile isBlank (t.dropWhile isBlank) = trim t from rfl,
    h] at hhead
  simpa using hhead

theorem not_isBlank_of_getLast?_trim {t : List Char} {c : Char} (h : (trim t).getLast? = some c) :
    isBlank c = false :=
  of_getLast?_dropRightWhile h

/-- Trimming twice is trimming once. -/
theorem trim_trim (t : List Char) : trim (trim t) = trim t :=
  trim_eq_self (fun _ ↦ not_isBlank_of_head?_trim) fun _ ↦ not_isBlank_of_getLast?_trim

/-- Trimming keeps a first character that is no blank. -/
theorem head?_trim {t : List Char} {c : Char} (h : t.head? = some c) (hc : isBlank c = false) :
    (trim t).head? = some c := by
  rcases t with - | ⟨d, t⟩
  · cases h
  · obtain rfl : d = c := Option.some.inj h
    have hdrop : (d :: t).dropWhile isBlank = d :: t :=
      List.dropWhile_cons_of_neg (by rw [hc]; decide)
    have happend := dropRightWhile_append_takeRightWhile isBlank (d :: t)
    rw [trim, hdrop]
    cases hrest : dropRightWhile isBlank (d :: t) with
    | nil =>
      rw [hrest, List.nil_append] at happend
      have hmem : d ∈ takeRightWhile isBlank (d :: t) := by
        rw [happend]
        exact List.mem_cons_self
      rw [of_mem_takeRightWhile hmem] at hc
      cases hc
    | cons e rest =>
      rw [hrest] at happend
      obtain ⟨rfl, -⟩ := List.cons.inj happend
      rfl

/-- A character that is no blank can be put in front of a trimmed text. -/
theorem trim_cons {t : List Char} {c : Char} (hc : isBlank c = false) (h : trim t = t) :
    trim (c :: t) = c :: t := by
  refine trim_eq_self (fun d hd ↦ ?_) fun d hd ↦ ?_
  · obtain rfl : c = d := Option.some.inj hd
    exact hc
  · rcases t with - | ⟨e, t⟩
    · obtain rfl : c = d := Option.some.inj hd
      exact hc
    · rw [List.getLast?_cons_cons] at hd
      exact not_isBlank_of_getLast?_trim (h.symm ▸ hd)

/-! ### Words -/

/-- The maximal runs of characters outside `p`, in order. -/
def words (p : Char → Bool) (t : List Char) : List (List Char) :=
  finish (t.foldr (fun c s ↦ if p c then ([], finish s) else (c :: s.1, s.2)) ([], []))
where
  /-- The word under construction joins the finished ones unless it is empty. -/
  finish : List Char × List (List Char) → List (List Char)
    | ([], done) => done
    | (w, done) => w :: done

example : words isSeparator " <%  %>\n".toList = ["<%".toList, "%>".toList] := by decide

/-- A word is not empty and holds none of the characters between words. -/
theorem of_mem_words {p : Char → Bool} {t w : List Char} (h : w ∈ words p t) :
    w ≠ [] ∧ ∀ c ∈ w, p c = false := by
  -- the same holds of the word under construction, but that it may be empty
  have hfinish {s : List Char × List (List Char)} (hfirst : ∀ c ∈ s.1, p c = false)
      (hdone : ∀ w ∈ s.2, w ≠ [] ∧ ∀ c ∈ w, p c = false) :
      ∀ w ∈ words.finish s, w ≠ [] ∧ ∀ c ∈ w, p c = false := by
    obtain ⟨first, done⟩ := s
    rcases first with - | ⟨c, first⟩
    · exact hdone
    · exact List.forall_mem_cons.2 ⟨⟨List.cons_ne_nil c first, hfirst⟩, hdone⟩
  have hnone {P : Char → Prop} : ∀ c ∈ ([] : List Char), P c :=
    fun _ hc ↦ absurd hc List.not_mem_nil
  have hparts := List.foldrRecOn
    (motive := fun s ↦ (∀ c ∈ s.1, p c = false) ∧ ∀ w ∈ s.2, w ≠ [] ∧ ∀ c ∈ w, p c = false) t
    (fun c s ↦ if p c then (([] : List Char), words.finish s) else (c :: s.1, s.2))
    (b := ([], [])) ⟨hnone, fun _ hw ↦ absurd hw List.not_mem_nil⟩
    fun s ⟨hfirst, hdone⟩ c _ ↦ by
      split
      · exact ⟨hnone, hfinish hfirst hdone⟩
      · next hc => exact ⟨List.forall_mem_cons.2 ⟨Bool.eq_false_iff.2 hc, hfirst⟩, hdone⟩
  exact hfinish hparts.1 hparts.2 w h

end Mustache.Text
