/-!
# Entries

Mappings as lists of keyed entries, in increasing order of their keys by code points, with one
entry per key (`Sorted`). `insert` binds one key; `ofList` is a run of insertions, so a later entry
takes the place of an earlier one with the same key. Look-ups are `List.lookup`.

* `lookup_insert` — inserting changes what one key is bound to and nothing else;
* `sorted_ofList` — whatever is inserted, the entries are in order;
* `lookup_ofList` — of several entries with one key the last one counts;
* `ofList_of_sorted` — entries in order are bound as they stand.
-/

namespace Mustache.Entries

variable {α : Type}

/-- Entries in increasing order of their keys, which are therefore distinct. -/
def Sorted (es : List (String × α)) : Prop :=
  es.Pairwise fun e f ↦ e.1 < f.1

/-- The entries with `key` bound to `value`. -/
def insert (key : String) (value : α) : List (String × α) → List (String × α)
  | [] => [(key, value)]
  | e :: es =>
    if key < e.1 then (key, value) :: e :: es
    else if key = e.1 then (key, value) :: es
    else e :: insert key value es

/-- The entries bound one after the other. -/
def ofList (es : List (String × α)) : List (String × α) :=
  es.foldl (fun bound e ↦ insert e.1 e.2 bound) []

/-! ### Look-ups -/

/-- What is found is an entry. -/
theorem mem_of_lookup {κ : Type} [BEq κ] [LawfulBEq κ] {k : κ} {a : α} {es : List (κ × α)}
    (h : es.lookup k = some a) : (k, a) ∈ es := by
  obtain ⟨front, behind, rfl, -⟩ := List.lookup_eq_some_iff.1 h
  exact List.mem_append_right _ List.mem_cons_self

/-- What is not found is no key. -/
theorem ne_of_lookup_eq_none {κ : Type} [BEq κ] [LawfulBEq κ] {k : κ} {es : List (κ × α)}
    (h : es.lookup k = none) : ∀ e ∈ es, k ≠ e.1 := by
  simpa only [bne_iff_ne] using List.lookup_eq_none_iff.1 h

/-- A key that has been put in has its new value. -/
theorem lookup_insert_self (key : String) (value : α) (es : List (String × α)) :
    (insert key value es).lookup key = some value := by
  induction es with
  | nil => simp [insert]
  | cons e es ih =>
    obtain ⟨k, v⟩ := e
    simp only [insert]
    split
    · simp
    · split
      · simp
      · next hne => simp [List.lookup_cons, beq_eq_false_iff_ne.2 hne, ih]

/-- And no other key is touched. -/
theorem lookup_insert_of_ne {key other : String} (h : other ≠ key) (value : α)
    (es : List (String × α)) : (insert key value es).lookup other = es.lookup other := by
  have hbeq := beq_eq_false_iff_ne.2 h
  induction es with
  | nil => simp [insert, List.lookup_cons, hbeq]
  | cons e es ih =>
    obtain ⟨k, v⟩ := e
    simp only [insert]
    split
    · simp [List.lookup_cons, hbeq]
    · split
      · next heq => subst heq; simp [List.lookup_cons, hbeq]
      · simp [List.lookup_cons, ih]

/-- Inserting changes what one key is bound to and nothing else. -/
theorem lookup_insert (key other : String) (value : α) (es : List (String × α)) :
    (insert key value es).lookup other = if other = key then some value else es.lookup other := by
  split
  · next h => rw [h, lookup_insert_self]
  · next h => exact lookup_insert_of_ne h value es

/-! ### Order -/

/-- Putting an entry in adds no entry besides. -/
theorem mem_insert {key : String} {value : α} {es : List (String × α)} {e : String × α}
    (h : e ∈ insert key value es) : e = (key, value) ∨ e ∈ es := by
  induction es with
  | nil => exact .inl (List.mem_singleton.1 h)
  | cons f es ih =>
    simp only [insert] at h
    split at h
    · exact List.mem_cons.1 h
    · split at h
      · exact (List.mem_cons.1 h).imp_right (List.mem_cons_of_mem f)
      · cases List.mem_cons.1 h with
        | inl heq => exact .inr (heq ▸ List.mem_cons_self)
        | inr hmem => exact (ih hmem).imp_right (List.mem_cons_of_mem f)

/-- An entry is put in where its key belongs. -/
theorem sorted_insert (key : String) (value : α) {es : List (String × α)} (h : Sorted es) :
    Sorted (insert key value es) := by
  induction es with
  | nil => exact List.pairwise_singleton ..
  | cons e es ih =>
    obtain ⟨hfirst, hrest⟩ := List.pairwise_cons.1 h
    simp only [insert]
    split
    · next hlt =>
      refine List.pairwise_cons.2 ⟨fun f hf ↦ ?_, h⟩
      cases List.mem_cons.1 hf with
      | inl heq => exact heq ▸ hlt
      | inr hmem => exact String.lt_trans hlt (hfirst f hmem)
    · next hlt =>
      split
      · next heq => exact List.pairwise_cons.2 ⟨fun f hf ↦ heq ▸ hfirst f hf, hrest⟩
      · next hne =>
        refine List.pairwise_cons.2 ⟨fun f hf ↦ ?_, ih hrest⟩
        cases mem_insert hf with
        | inl heq => exact heq ▸ Std.lt_of_le_of_ne (String.not_lt.1 hlt) (Ne.symm hne)
        | inr hmem => exact hfirst f hmem

/-- Whatever is inserted, the entries are in order. -/
theorem sorted_ofList (es : List (String × α)) : Sorted (ofList es) := by
  suffices h : ∀ bound : List (String × α), Sorted bound →
      Sorted (es.foldl (fun bound e ↦ insert e.1 e.2 bound) bound) from h [] .nil
  induction es with
  | nil => exact fun _ hbound ↦ hbound
  | cons e es ih => exact fun bound hbound ↦ ih _ (sorted_insert e.1 e.2 hbound)

/-! ### Entries bound one after the other -/

theorem mem_foldl_insert {es bound : List (String × α)} {e : String × α}
    (h : e ∈ es.foldl (fun bound e ↦ insert e.1 e.2 bound) bound) : e ∈ es ∨ e ∈ bound := by
  induction es generalizing bound with
  | nil => exact .inr h
  | cons f es ih =>
    rcases ih h with h | h
    · exact .inl (List.mem_cons_of_mem f h)
    · rcases mem_insert h with rfl | h
      · exact .inl List.mem_cons_self
      · exact .inr h

/-- Nothing is bound that was not given. -/
theorem mem_of_mem_ofList {es : List (String × α)} {e : String × α} (h : e ∈ ofList es) : e ∈ es :=
  (mem_foldl_insert h).resolve_right List.not_mem_nil

/-- Of entries that are put in one by one the last with a key is found, before all that has been
there. -/
theorem lookup_foldl_insert (key : String) (es bound : List (String × α)) :
    (es.foldl (fun bound e ↦ insert e.1 e.2 bound) bound).lookup key =
      (es.reverse.lookup key).or (bound.lookup key) := by
  induction es generalizing bound with
  | nil => rfl
  | cons e es ih =>
    rw [List.foldl_cons, ih, List.reverse_cons, List.lookup_append, Option.or_assoc, lookup_insert,
      List.lookup_cons, List.lookup_nil]
    by_cases h : key = e.1
    · rw [if_pos h, h, beq_self_eq_true, Option.some_or]
    · rw [if_neg h, beq_eq_false_iff_ne.2 h, Option.none_or]

/-- Of several entries with one key the last one counts. -/
theorem lookup_ofList (key : String) (es : List (String × α)) :
    (ofList es).lookup key = es.reverse.lookup key := by
  rw [ofList, lookup_foldl_insert, List.lookup_nil, Option.or_none]

/-- The entry that is found from the end is the last one with its key. -/
theorem lookup_reverse_eq_some_iff {key : String} {a : α} {es : List (String × α)} :
    es.reverse.lookup key = some a ↔
      ∃ front behind, es = front ++ (key, a) :: behind ∧ ∀ e ∈ behind, key ≠ e.1 := by
  rw [List.lookup_eq_some_iff]
  constructor
  · rintro ⟨behind, front, heq, hne⟩
    refine ⟨front.reverse, behind.reverse, ?_, fun e he ↦ ?_⟩
    · rw [← List.reverse_inj, heq]
      simp
    · exact bne_iff_ne.1 (hne e (List.mem_reverse.1 he))
  · rintro ⟨front, behind, rfl, hne⟩
    refine ⟨behind.reverse, front.reverse, by simp, fun e he ↦ ?_⟩
    exact bne_iff_ne.2 (hne e (List.mem_reverse.1 he))

/-- A key above all others goes to the end. -/
theorem insert_of_forall_lt {key : String} {es : List (String × α)} (h : ∀ e ∈ es, e.1 < key)
    (value : α) : insert key value es = es ++ [(key, value)] := by
  induction es with
  | nil => rfl
  | cons e es ih =>
    obtain ⟨he, hes⟩ := List.forall_mem_cons.1 h
    have hne : key ≠ e.1 := fun heq ↦ String.lt_irrefl _ (heq ▸ he)
    rw [insert, if_neg (String.lt_asymm he), if_neg hne, ih hes, List.cons_append]

theorem foldl_insert_of_sorted {bound es : List (String × α)} (h : Sorted (bound ++ es)) :
    es.foldl (fun bound e ↦ insert e.1 e.2 bound) bound = bound ++ es := by
  induction es generalizing bound with
  | nil => rw [List.foldl_nil, List.append_nil]
  | cons e es ih =>
    have hlt : ∀ f ∈ bound, f.1 < e.1 := fun f hf ↦
      (List.pairwise_append.1 h).2.2 f hf e List.mem_cons_self
    rw [List.append_cons] at h ⊢
    rw [List.foldl_cons, insert_of_forall_lt hlt, ih h]

/-- Entries in order are bound as they stand. -/
theorem ofList_of_sorted {es : List (String × α)} (h : Sorted es) : ofList es = es := by
  have hbehind : Sorted ([] ++ es) := h
  exact foldl_insert_of_sorted hbehind

/-- Entries in order are found from either end. -/
theorem lookup_reverse_of_sorted {es : List (String × α)} (h : Sorted es) (key : String) :
    es.reverse.lookup key = es.lookup key := by
  rw [← lookup_ofList, ofList_of_sorted h]

/-! ### Other values -/

/-- Values can be mapped before or after they are looked up, as the keys stay. -/
theorem lookup_map {β : Type} (f : α → β) (key : String) (es : List (String × α)) :
    (es.map (Prod.map id f)).lookup key = (es.lookup key).map f := by
  induction es with
  | nil => rfl
  | cons e es ih =>
    rw [List.map_cons, List.lookup_cons, List.lookup_cons, ih]
    show (match key == e.1 with | true => some (f e.2) | false => (es.lookup key).map f) = _
    cases key == e.1 <;> rfl

theorem map_insert {β : Type} (f : α → β) (key : String) (value : α) (es : List (String × α)) :
    (insert key value es).map (Prod.map id f) = insert key (f value) (es.map (Prod.map id f)) := by
  induction es with
  | nil => rfl
  | cons e es ih =>
    rw [insert, List.map_cons, insert]
    show _ = if key < e.1 then _ else if key = e.1 then _ else _
    split
    · rfl
    split
    · rfl
    · rw [List.map_cons, ih]

/-- What the values are has no influence on which of them are bound. -/
theorem map_ofList {β : Type} (f : α → β) (es : List (String × α)) :
    (ofList es).map (Prod.map id f) = ofList (es.map (Prod.map id f)) := by
  suffices h : ∀ bound : List (String × α),
      (es.foldl (fun bound e ↦ insert e.1 e.2 bound) bound).map (Prod.map id f) =
        (es.map (Prod.map id f)).foldl (fun bound e ↦ insert e.1 e.2 bound)
          (bound.map (Prod.map id f)) from h []
  induction es with
  | nil => exact fun _ ↦ rfl
  | cons e es ih =>
    intro bound
    rw [List.foldl_cons, ih, map_insert]
    rfl

end Mustache.Entries
