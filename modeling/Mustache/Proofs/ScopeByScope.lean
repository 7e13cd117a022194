import Mustache.Lookup

/-!
# Names looked up scope by scope

A name has its first segment looked up in one scope after the other, and the segments behind that
one in the value of the first alone. So the first scope that has a value for the first segment
decides what the name stands for, or that it stands for nothing (`Value.found_lookup_cons`).

What is reported on the way is left out here. It goes by the scopes that are passed, while what is
found does not.
-/

namespace Mustache

/-! ### First segments -/

namespace Text

theorem head?_consFirst (c : Char) (ps : List (List Char)) :
    (consFirst c ps).head? = some (c :: ps.head?.getD []) := by
  rcases ps with - | ⟨p, ps⟩ <;> rfl

/-- The first piece goes up to the first separator. -/
theorem head?_pieces (p : Char → Bool) (t : List Char) :
    (pieces p t).head? = some (t.takeWhile fun c ↦ !p c) := by
  induction t with
  | nil => rfl
  | cons c t ih =>
    rw [pieces_cons, List.takeWhile_cons]
    rcases p c with - | -
    · rw [if_neg Bool.false_ne_true, head?_consFirst, ih]
      rfl
    · rfl

/-- Only an empty text has one empty piece. -/
theorem eq_nil_of_pieces {p : Char → Bool} {t : List Char} (h : pieces p t = [[]]) : t = [] := by
  rcases t with - | ⟨c, t⟩
  · rfl
  · rw [pieces_cons] at h
    split at h
    · have hhead := head?_pieces p t
      rw [(List.cons.inj h).2] at hhead
      exact nomatch hhead
    · have hhead := head?_consFirst c (pieces p t)
      rw [h] at hhead
      exact nomatch hhead

end Text

namespace Name

/-- Two empty pieces are what a dot alone is cut into. -/
theorem pieces_eq_iff {t : List Char} : Text.pieces (· == '.') t = [[], []] ↔ t = ['.'] := by
  constructor
  · intro h
    rcases t with - | ⟨c, t⟩
    · exact nomatch h
    · rw [Text.pieces_cons] at h
      split at h
      · next hc =>
        rw [Text.eq_nil_of_pieces (List.cons.inj h).2, beq_iff_eq.1 hc]
      · have hhead := Text.head?_consFirst c (Text.pieces (· == '.') t)
        rw [h] at hhead
        exact nomatch hhead
  · rintro rfl
    rfl

/-- The first segment goes up to the first dot, but the dot alone is a segment itself. -/
theorem head?_segments (t : List Char) :
    (segments t).head? = some (if t = ['.'] then ['.'] else t.takeWhile (· != '.')) := by
  have hhead : (Text.pieces (· == '.') t).head? = some (t.takeWhile (· != '.')) :=
    Text.head?_pieces _ t
  simp only [← pieces_eq_iff, segments]
  split
  · next before hreverse =>
    have hps := congrArg List.reverse hreverse
    rw [List.reverse_reverse, List.reverse_cons, List.reverse_cons, List.append_assoc] at hps
    rw [hps] at hhead ⊢
    -- the dot is the first segment only if nothing is in front of it
    generalize before.reverse = front at hhead ⊢
    rcases front with - | ⟨first, others⟩
    · rfl
    · rw [if_neg fun heq ↦ by simpa using congrArg List.length heq]
      exact hhead
  · next hother =>
    rw [if_neg fun heq ↦ hother [] (congrArg List.reverse heq)]
    exact hhead

/-- The first segment of a name is what is in front of its first dot, except that the dot alone is a
segment. -/
theorem first_ofString (s : String) :
    (ofString s).first =
      if s = "." then "." else String.ofList (s.toList.takeWhile (· != '.')) := by
  have hhead := head?_segments s.toList
  have hdot : s.toList = ".".toList ↔ s = "." := String.toList_inj
  rw [ofString]
  generalize segments s.toList = segments at hhead ⊢
  rcases segments with - | ⟨first, others⟩
  · exact nomatch hhead
  · obtain rfl := Option.some.inj hhead
    show String.ofList (if s.toList = ".".toList then ['.'] else _) = _
    simp only [hdot]
    split <;> rfl

end Name

namespace Value

/-! ### Scopes -/

/-- The value that segments lead to inside another value. -/
def inside (v : Value) : List String → Except String Value
  | [] => .ok v
  | segment :: others => (resolve [v] segment others).found

/-- The first segment is searched for in the whole chain, and the others inside the value that is
found. -/
theorem found_resolve (chain : List Value) (segment : String) (others : List String) :
    (resolve chain segment others).found =
      match (search segment chain).found with
      | some v => v.inside others
      | none => .error segment := by
  rcases others with - | ⟨next, others⟩
  · rw [resolve, Search.andThen]
    rcases (search segment chain).found with - | v <;> rfl
  · rw [resolve, Search.andThen]
    rcases (search segment chain).found with - | v <;> rfl

/-- **The first scope that has a value for the first segment decides.** -/
theorem found_lookup_cons (scope : Value) (chain : List Value) (name : String) :
    (lookup (scope :: chain) name).found =
      match (scope.get? (Name.ofString name).first).found with
      | some v => v.inside (Name.ofString name).others
      | none => (lookup chain name).found := by
  rw [lookup, lookup, found_resolve, found_resolve, search_cons, Search.andThen]
  rcases (scope.get? (Name.ofString name).first).found with - | v <;> rfl

/-- Without a scope nothing is found, and the first segment is what is missing. -/
theorem found_lookup_nil (name : String) :
    (lookup [] name).found = .error (Name.ofString name).first := by
  rw [lookup, found_resolve]
  rfl

/-- A scope that is searched twice has nothing else the second time. -/
theorem found_lookup_cons_cons (scope : Value) (chain : List Value) (name : String) :
    (lookup (scope :: scope :: chain) name).found = (lookup (scope :: chain) name).found := by
  rw [found_lookup_cons, found_lookup_cons]
  rcases (scope.get? (Name.ofString name).first).found with - | v <;> rfl

/-- The innermost scope may be put in front once more. -/
theorem found_lookup_head_append (chain : List Value) (name : String) :
    (lookup (chain.head?.toList ++ chain) name).found = (lookup chain name).found := by
  rcases chain with - | ⟨scope, chain⟩
  · rfl
  · exact found_lookup_cons_cons scope chain name

end Value

end Mustache
