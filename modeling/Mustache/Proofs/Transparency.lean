import Mustache.Proofs.Interchange

/-!
# Indirection is transparent

Values that only stand for others, wrappers around anything and objects that are sequences, render
as what they stand for (`indirection_is_transparent`).

`Value.Veiled` says where they may be put: around the contexts, the items of sequences and the
values of mappings, at any depth and any number of them around one another. A field of a record is
looked at as it is when the record is asked whether it is zero, so nothing may be put around it,
only further inside; whether that is allowed is the first argument of `Veiled`.

What a rendering asks a value for (`Value.Interchangeable`) is compared by recursion on the value
that is veiled: its document and its text (`Veiled.toJson_eq`, `Veiled.shown?_eq`), what it unwraps
to and whether it is zero, by which sections go (`Veiled.unwrapped`, `Veiled.isZero_eq`), and what
it has for a name (`Veiled.get?`). The last one is where a veil can be seen. The segment `.` asks a
value for itself, and a wrapper answers with itself before what it wraps is asked. An object with a
method of that name would have answered with something else
(`indirection_is_visible_of_dot_method`).
-/

namespace Mustache

/-! ### What is compared -/

/-- Whether an object has no methods and no text of its own. -/
structure HostObject.Silent {α : Type} (o : HostObject α) : Prop where
  method (name : String) : o.method name = .ok none
  textForm : o.textForm = .byKind

/-- Whether two objects give the same answers, up to values in `R`. -/
structure HostObject.Alike (R : Value → Value → Prop) (o o' : HostObject Value) : Prop where
  kind : o.kind = o'.kind
  method (name : String) : SameError (Option.Rel R) (o.method name) (o'.method name)
  member (name : String) : Option.Rel R (o.member name) (o'.member name)
  keys : o.keys = o'.keys
  items : List.Forall₂ R o.items o'.items
  inner : Option.Rel R o.inner? o'.inner?
  isZero : o.isZero = o'.isZero
  textForm : o.textForm = o'.textForm
  debug : o.debug = o'.debug

namespace Value

/-- Whether a value is an object that has an answer, or a failure, where it is asked for itself. -/
def AnswersDot : Value → Prop
  | .object _ o => o.method "." ≠ .ok none
  | _ => False

/-- Whether a value is another one with veils put around what is in it, and around itself if
`outer`. The veils are wrappers and objects that are sequences. -/
inductive Veiled : Bool → Value → Value → Prop
  | refl (outer : Bool) (v : Value) : Veiled outer v v
  | seq {outer : Bool} {items items' : List Value} (h : List.Forall₂ (Veiled true) items items') :
      Veiled outer (.seq items) (.seq items')
  | map {outer : Bool} {es es' : List (String × Value)}
      (hkeys : es.map Prod.fst = es'.map Prod.fst)
      (h : List.Forall₂ (Veiled true) (es.map Prod.snd) (es'.map Prod.snd)) :
      Veiled outer (.map es) (.map es')
  /-- The fields of a record are not veiled themselves. -/
  | record {outer : Bool} {name : String} {fields fields' : List (String × Value)}
      (hkeys : fields.map Prod.fst = fields'.map Prod.fst)
      (h : List.Forall₂ (Veiled false) (fields.map Prod.snd) (fields'.map Prod.snd)) :
      Veiled outer (.record ⟨name, fields⟩) (.record ⟨name, fields'⟩)
  /-- Any values that an object answers with can be veiled. -/
  | object {outer : Bool} {i i' : Nat} {o o' : HostObject Value} {R : Value → Value → Prop}
      (hR : ∀ v w, R v w → Veiled true v w) (h : o.Alike R o') :
      Veiled outer (.object i o) (.object i' o')
  /-- A wrapper without methods around a value that does not answer for itself. -/
  | wrapper {v w : Value} {i : Nat} {o : HostObject Value} (hkind : o.kind = .wrapper)
      (ho : o.Silent) (hinner : o.inner? = some w) (hdot : ¬ v.AnswersDot) (h : Veiled true v w) :
      Veiled true v (.object i o)
  /-- An object without methods in place of a sequence. -/
  | sequence {items : List Value} {i : Nat} {o : HostObject Value} (hkind : o.kind = .seq)
      (ho : o.Silent) (h : List.Forall₂ (Veiled true) items o.items) :
      Veiled true (.seq items) (.object i o)

end Value

/-! ### Relations carried along -/

/-- An object is like itself, part by part. -/
theorem HostObject.Alike.refl {R : Value → Value → Prop} (h : ∀ v, R v v) (o : HostObject Value) :
    o.Alike R o where
  kind := rfl
  method _ := SameError.refl (optionRel_refl h) _
  member _ := optionRel_refl h _
  keys := rfl
  items := List.forall₂_same.2 fun v _ ↦ h v
  inner := optionRel_refl h _
  isZero := rfl
  textForm := rfl
  debug := rfl

theorem HostObject.Alike.mono {R S : Value → Value → Prop} (h : ∀ v w, R v w → S v w)
    {o o' : HostObject Value} (ho : o.Alike R o') : o.Alike S o' where
  kind := ho.kind
  method name := (ho.method name).mono fun _ _ ↦ optionRel_mono h
  member name := optionRel_mono h (ho.member name)
  keys := ho.keys
  items := ho.items.imp fun _ _ ↦ h _ _
  inner := optionRel_mono h ho.inner
  isZero := ho.isZero
  textForm := ho.textForm
  debug := ho.debug

/-! ### Values that are veiled -/

namespace Value.Veiled

/-- What may not be veiled itself may be. -/
theorem weaken {outer : Bool} {v w : Value} (h : Veiled outer v w) : Veiled true v w := by
  cases h with
  | refl => exact .refl true v
  | seq h => exact .seq h
  | map hkeys h => exact .map hkeys h
  | record hkeys h => exact .record hkeys h
  | object hR h => exact .object hR h
  | wrapper hkind ho hinner hdot h => exact .wrapper hkind ho hinner hdot h
  | sequence hkind ho h => exact .sequence hkind ho h

variable {outer : Bool} {v w : Value}

/-- Only objects are veils. -/
theorem of_not_object (h : Veiled outer v w) (hw : ∀ i o, w ≠ .object i o) : Veiled false v w := by
  cases h with
  | refl => exact .refl false v
  | seq h => exact .seq h
  | map hkeys h => exact .map hkeys h
  | record hkeys h => exact .record hkeys h
  | object | wrapper | sequence => exact absurd rfl (hw _ _)

/-- What a plain list stands for is a plain list, item by item. -/
theorem eq_seq {items' : List Value} (h : Veiled outer v (.seq items')) :
    ∃ items, v = .seq items ∧ List.Forall₂ (Veiled true) items items' := by
  cases h with
  | refl => exact ⟨items', rfl, List.forall₂_same.2 fun v _ ↦ .refl true v⟩
  | seq h => exact ⟨_, rfl, h⟩

theorem eq_map {es' : List (String × Value)} (h : Veiled outer v (.map es')) :
    ∃ es, v = .map es ∧
      List.Forall₂ (fun e e' ↦ e.1 = e'.1 ∧ Veiled true e.2 e'.2) es es' := by
  cases h with
  | refl => exact ⟨es', rfl, List.forall₂_same.2 fun e _ ↦ ⟨rfl, .refl true e.2⟩⟩
  | map hkeys h => exact ⟨_, rfl, forall₂_entries hkeys h⟩

theorem eq_record {r' : Record Value} (h : Veiled outer v (.record r')) :
    ∃ r : Record Value, v = .record r ∧
      List.Forall₂ (fun e e' ↦ e.1 = e'.1 ∧ Veiled false e.2 e'.2) r.fields r'.fields := by
  cases h with
  | refl => exact ⟨r', rfl, List.forall₂_same.2 fun e _ ↦ ⟨rfl, .refl false e.2⟩⟩
  | record hkeys h => exact ⟨_, rfl, forall₂_entries hkeys h⟩

/-- An object is alike to an object, or it is a veil. -/
theorem object_cases {i' : Nat} {o' : HostObject Value} (h : Veiled outer v (.object i' o')) :
    (∃ i o, v = .object i o ∧ o.Alike (Veiled true) o') ∨
      outer = true ∧ o'.Silent ∧
        (o'.kind = .wrapper ∧ ¬ v.AnswersDot ∧ Option.Rel (Veiled true) (some v) o'.inner? ∨
          ∃ items, v = .seq items ∧ o'.kind = .seq ∧
            List.Forall₂ (Veiled true) items o'.items) := by
  cases h with
  | refl => exact .inl ⟨i', o', rfl, .refl (.refl true) o'⟩
  | object hR h => exact .inl ⟨_, _, rfl, h.mono hR⟩
  | wrapper hkind ho hinner hdot h =>
    exact .inr ⟨rfl, ho, .inl ⟨hkind, hdot, hinner ▸ .some h⟩⟩
  | sequence hkind ho h => exact .inr ⟨rfl, ho, .inr ⟨_, rfl, hkind, h⟩⟩

end Value.Veiled

namespace Value

/-! ### Documents and texts -/

mutual

/-- A veiled value has the same document. -/
theorem Veiled.toJson_eq {outer : Bool} {v w : Value} (h : Veiled outer v w) :
    v.toJson = w.toJson := by
  match w with
  | .seq items' =>
    obtain ⟨items, rfl, hitems⟩ := h.eq_seq
    rw [toJson, toJson, itemsToJson_eq hitems]
  | .map es' =>
    obtain ⟨es, rfl, hes⟩ := h.eq_map
    rw [toJson, toJson, entriesToJson_eq hes]
  | .record r' =>
    obtain ⟨r, rfl, hfields⟩ := h.eq_record
    rw [toJson, toJson, entriesToJson_eq hfields]
  | .object i' o' =>
    rcases h.object_cases with ⟨i, o, rfl, ho⟩ |
      ⟨-, ho, ⟨hkind, -, hinner⟩ | ⟨items, rfl, hkind, hitems⟩⟩
    · have hmembers :
          (fun k ↦ memberToJson k (o.member k)) = fun k ↦ memberToJson k (o'.member k) :=
        funext fun k ↦ memberToJson_eq k (ho.member k)
      have htext : o.ownText? = o'.ownText? := by
        rw [HostObject.ownText?, HostObject.ownText?, ho.textForm, ho.debug]
      rw [toJson, toJson, ho.kind, ho.keys, hmembers, itemsToJson_eq ho.items,
        innerToJson_eq ho.inner, htext]
    · have hsame := innerToJson_eq hinner
      rw [toJson, hkind]
      exact hsame
    · rw [toJson, toJson, hkind, itemsToJson_eq hitems]
  | .null | .bool _ | .int _ | .uint _ | .float _ | .text _ | .lambda _ => cases h; rfl
termination_by structural w

theorem itemsToJson_eq {outer : Bool} {items items' : List Value}
    (h : List.Forall₂ (Veiled outer) items items') : itemsToJson items = itemsToJson items' := by
  match items' with
  | [] =>
    obtain rfl := List.forall₂_nil_right_iff.1 h
    rfl
  | w :: items' =>
    obtain ⟨v, items, hv, hitems, rfl⟩ := List.forall₂_cons_right_iff.1 h
    rw [itemsToJson, itemsToJson, hv.toJson_eq, itemsToJson_eq hitems]
termination_by structural items'

theorem entriesToJson_eq {outer : Bool} {es es' : List (String × Value)}
    (h : List.Forall₂ (fun e e' ↦ e.1 = e'.1 ∧ Veiled outer e.2 e'.2) es es') :
    entriesToJson es = entriesToJson es' := by
  match es' with
  | [] =>
    obtain rfl := List.forall₂_nil_right_iff.1 h
    rfl
  | (k, w) :: es' =>
    obtain ⟨⟨_, v⟩, es, ⟨rfl, hv⟩, hes, rfl⟩ := List.forall₂_cons_right_iff.1 h
    rw [entriesToJson, entriesToJson, Veiled.toJson_eq (w := w) hv, entriesToJson_eq hes]
termination_by structural es'

theorem memberToJson_eq (k : String) {outer : Bool} {v? w? : Option Value}
    (h : Option.Rel (Veiled outer) v? w?) : memberToJson k v? = memberToJson k w? := by
  match w? with
  | none => cases h; rfl
  | some w =>
    match v?, h with
    | some v, .some hv => rw [memberToJson, memberToJson, Veiled.toJson_eq (w := w) hv]
termination_by structural w?

theorem innerToJson_eq {outer : Bool} {v? w? : Option Value}
    (h : Option.Rel (Veiled outer) v? w?) : innerToJson v? = innerToJson w? := by
  match w? with
  | none => cases h; rfl
  | some w =>
    match v?, h with
    | some v, .some hv => exact Veiled.toJson_eq (w := w) hv
termination_by structural w?

end

mutual

/-- A veiled value has the same text. -/
theorem Veiled.shown?_eq {outer : Bool} {v w : Value} (h : Veiled outer v w) :
    v.shown? = w.shown? := by
  have hjson := h.toJson_eq
  match w with
  | .seq items' =>
    obtain ⟨items, rfl, -⟩ := h.eq_seq
    rw [shown?, shown?, hjson]
  | .map es' =>
    obtain ⟨es, rfl, -⟩ := h.eq_map
    rw [shown?, shown?, hjson]
  | .record r' =>
    obtain ⟨r, rfl, -⟩ := h.eq_record
    rw [shown?, shown?, hjson]
  | .object i' o' =>
    rcases h.object_cases with ⟨i, o, rfl, ho⟩ |
      ⟨-, ho, ⟨hkind, -, hinner⟩ | ⟨items, rfl, hkind, -⟩⟩
    · rw [shown?, shown?, ho.textForm, ho.kind, ho.debug, hjson, innerShown?_eq ho.inner]
    · have hsame := innerShown?_eq hinner
      rw [shown?, ho.textForm, hkind]
      exact hsame
    · rw [shown?, shown?, ho.textForm, hkind, hjson]
  | .null | .bool _ | .int _ | .uint _ | .float _ | .text _ | .lambda _ => cases h; rfl
termination_by structural w

theorem innerShown?_eq {outer : Bool} {v? w? : Option Value}
    (h : Option.Rel (Veiled outer) v? w?) : innerShown? v? = innerShown? w? := by
  match w? with
  | none => cases h; rfl
  | some w =>
    match v?, h with
    | some v, .some hv => exact Veiled.shown?_eq (w := w) hv
termination_by structural w?

end

/-! ### Zero and emptiness -/

mutual

/-- A value that is not veiled itself is as zero as it was. -/
theorem Veiled.isZero_eq {v w : Value} (h : Veiled false v w) : v.isZero = w.isZero := by
  match w with
  | .seq items' =>
    obtain ⟨items, rfl, -⟩ := h.eq_seq
    rfl
  | .map es' =>
    obtain ⟨es, rfl, -⟩ := h.eq_map
    rfl
  | .record r' =>
    obtain ⟨r, rfl, hfields⟩ := h.eq_record
    rw [isZero, isZero, areZero_eq hfields]
  | .object i' o' =>
    rcases h.object_cases with ⟨i, o, rfl, ho⟩ | ⟨houter, -⟩
    · exact ho.isZero
    · exact nomatch houter
  | .null | .bool _ | .int _ | .uint _ | .float _ | .text _ | .lambda _ => cases h; rfl
termination_by structural w

/-- Records are empty together, field by field. -/
theorem areZero_eq {es es' : List (String × Value)}
    (h : List.Forall₂ (fun e e' ↦ e.1 = e'.1 ∧ Veiled false e.2 e'.2) es es') :
    areZero es = areZero es' := by
  match es' with
  | [] =>
    obtain rfl := List.forall₂_nil_right_iff.1 h
    rfl
  | (k, w) :: es' =>
    obtain ⟨⟨_, v⟩, es, ⟨rfl, hv⟩, hes, rfl⟩ := List.forall₂_cons_right_iff.1 h
    rw [areZero, areZero, Veiled.isZero_eq (w := w) hv, areZero_eq hes]
termination_by structural es'

end

/-- Whether a value unwraps to the same as another one: to what is veiled further inside only, or to
a sequence where the other one unwraps to an object that is one. -/
def Unveiled (u u' : Value) : Prop :=
  Veiled false u u' ∨ ∃ items i o, u = .seq items ∧ u' = .object i o ∧ o.kind = .seq ∧
    List.Forall₂ (Veiled true) items o.items

/-- An object that is no wrapper stays. -/
theorem unwrapped_object {i : Nat} {o : HostObject Value} (h : o.kind ≠ .wrapper) :
    (object i o).unwrapped = .object i o := by
  rw [unwrapped, if_neg h]

mutual

/-- A veiled value unwraps to the same. -/
theorem Veiled.unwrapped {outer : Bool} {v w : Value} (h : Veiled outer v w) :
    Unveiled v.unwrapped w.unwrapped := by
  match w with
  | .object i' o' =>
    rcases h.object_cases with ⟨i, o, rfl, ho⟩ |
      ⟨-, ho, ⟨hkind, -, hinner⟩ | ⟨items, rfl, hkind, hitems⟩⟩
    · rw [Value.unwrapped, Value.unwrapped, ho.kind]
      split
      · exact unwrappedInner_unveiled ho.inner
      · exact .inl (.object (fun _ _ ↦ id) ho)
    · have hsame := unwrappedInner_unveiled hinner
      rw [Value.unwrapped.eq_def (.object i' o')]
      dsimp only
      rw [if_pos hkind]
      exact hsame
    · rw [unwrapped_object (by rw [hkind]; decide)]
      exact .inr ⟨items, i', o', rfl, rfl, hkind, hitems⟩
  | .null | .bool _ | .int _ | .uint _ | .float _ | .text _ | .seq _ | .map _ | .record _
  | .lambda _ =>
    have hinside := h.of_not_object fun _ _ heq ↦ nomatch heq
    cases h <;> exact .inl hinside
termination_by structural w

/-- What is left of a wrapper corresponds to what is left of the value inside. -/
theorem unwrappedInner_unveiled {outer : Bool} {v? w? : Option Value}
    (h : Option.Rel (Veiled outer) v? w?) : Unveiled (unwrappedInner v?) (unwrappedInner w?) := by
  match w? with
  | none =>
    cases h
    exact .inl (.refl false _)
  | some w =>
    match v?, h with
    | some v, .some hv => exact Veiled.unwrapped (w := w) hv
termination_by structural w?

end

/-- A veiled value is as empty as it was. -/
theorem Veiled.isEmpty_eq {outer : Bool} {v w : Value} (h : Veiled outer v w) :
    isEmpty (some v) = isEmpty (some w) := by
  have hsame := h.unwrapped
  rw [isEmpty, isEmpty]
  generalize v.unwrapped = u, w.unwrapped = u' at hsame
  rcases hsame with hinside | ⟨items, i, o, rfl, rfl, hkind, hitems⟩
  · have hzero := hinside.isZero_eq
    cases hinside with
    | refl | map => rfl
    | seq hitems => exact isEmpty_eq_of_forall₂ hitems
    | record => exact hzero
    | object hR ho =>
      dsimp only
      rw [ho.kind, isEmpty_eq_of_forall₂ ho.items, hzero]
  · show items.isEmpty = if o.kind = .seq then o.items.isEmpty else _
    rw [if_pos hkind]
    exact isEmpty_eq_of_forall₂ hitems

/-! ### Sections -/

/-- A section goes about veiled values as it does about others. -/
theorem Veiled.visit {v w : Value} (h : Veiled true v w) (inverted : Bool)
    {chain chain' : List Value} (hchain : List.Forall₂ (Veiled true) chain chain') :
    (Value.visit inverted (some v)).Paired (List.Forall₂ (Veiled true)) Eq chain chain'
      (Value.visit inverted (some w)) := by
  have hscopes {items items' : List Value} (hitems : List.Forall₂ (Veiled true) items items') :
      List.Forall₂ (fun v w ↦ List.Forall₂ (Veiled true) (v :: chain) (w :: chain')) items items' :=
    hitems.imp fun _ _ hv ↦ .cons hv hchain
  have hone := hscopes (.cons h .nil)
  have hsame := h.unwrapped
  rw [Value.visit, Value.visit, h.isEmpty_eq]
  split
  · exact .entering .nil
  split
  · exact .staying (forall₂_head_append hchain)
  dsimp only [Option.getD_some]
  generalize v.unwrapped = u, w.unwrapped = u' at hsame
  -- both unwrap to the same kind of value, or the one to a list and the other to an object for it
  rcases hsame with hinside | ⟨items, i, o, rfl, rfl, hkind, hitems⟩
  · match u', hinside with
    | .seq _, hinside =>
      obtain ⟨items, rfl, hitems⟩ := hinside.eq_seq
      exact .entering (hscopes hitems)
    | .object _ o', hinside =>
      rcases hinside.object_cases with ⟨_, o, rfl, ho⟩ | ⟨houter, -⟩
      · dsimp only
        rw [ho.kind]
        split
        · exact .entering (hscopes ho.items)
        · exact .entering hone
      · exact nomatch houter
    | .lambda l, hinside =>
      cases hinside
      exact .calling rfl
    | .map _, hinside | .record _, hinside | .null, hinside | .bool _, hinside | .int _, hinside
    | .uint _, hinside | .float _, hinside | .text _, hinside =>
      cases hinside <;> exact .entering hone
  · dsimp only
    rw [if_pos hkind]
    exact .entering (hscopes hitems)

/-! ### Names -/

/-- A value that does not answer for itself is found when it is asked for itself. -/
theorem get?_dot {v : Value} (h : ¬ v.AnswersDot) : v.get? "." = .silent (some v) := by
  match v with
  | .object i o =>
    have hmethod : o.method "." = .ok none := not_not.1 h
    rw [get?, hmethod]
    rfl
  | .null | .bool _ | .int _ | .uint _ | .float _ | .text _ | .seq _ | .map _ | .record _
  | .lambda _ => rfl

/-- An object without methods answers for itself or by its kind. -/
theorem get?_of_silent {o : HostObject Value} (ho : o.Silent) (i : Nat) (segment : String) :
    (object i o).get? segment =
      if segment = "." then .silent (some (.object i o))
      else
        match o.kind with
        | .wrapper => getInner? segment o.inner?
        | .record | .map => .silent (o.member segment)
        | .seq | .sealed => .silent none := by
  have hmethod := ho.method segment
  rw [get?]
  generalize o.method segment = answer at hmethod
  subst hmethod
  rfl

/-- Objects that are alike answer a segment alike, if what they hold does. -/
theorem get?_alike_of_object {o o' : HostObject Value} (ho : o.Alike (Veiled true) o') (i i' : Nat)
    {segment : String}
    (hinner : Search.Alike (Option.Rel (Veiled true)) (getInner? segment o.inner?)
      (getInner? segment o'.inner?)) :
    Search.Alike (Option.Rel (Veiled true)) ((object i o).get? segment)
      ((object i' o').get? segment) := by
  have hmethod := ho.method segment
  rw [get?, get?, ho.debug, ho.kind]
  -- the methods are asked first, and the members only where there is no such method
  generalize o.method segment = m, o'.method segment = m' at hmethod
  cases hmethod with
  | error cause => exact ⟨rfl, .none⟩
  | ok hfound =>
    cases hfound with
    | some hv => exact ⟨rfl, .some hv⟩
    | none =>
      dsimp only
      split
      · exact ⟨rfl, .some (.object (fun _ _ ↦ id) ho)⟩
      split
      · exact hinner
      · exact ⟨rfl, ho.member segment⟩
      · exact ⟨rfl, ho.member segment⟩
      · exact ⟨rfl, .none⟩
      · exact ⟨rfl, .none⟩

mutual

/-- A veiled value has the same for a segment, veiled perhaps. -/
theorem Veiled.get? {outer : Bool} {v w : Value} (h : Veiled outer v w) (segment : String) :
    Search.Alike (Option.Rel (Veiled true)) (v.get? segment) (w.get? segment) := by
  have hself : Option.Rel (Veiled true) (some v) (some w) := .some h.weaken
  match w with
  | .object i' o' =>
    rcases h.object_cases with ⟨i, o, rfl, ho⟩ |
      ⟨-, ho, ⟨hkind, hdot, hinner⟩ | ⟨items, rfl, hkind, hitems⟩⟩
    · exact get?_alike_of_object ho i i' (getInner?_alike ho.inner segment)
    · -- a wrapper that is a veil has no methods: it stands for itself, and else for what it holds
      have hsame := getInner?_alike hinner segment
      rw [get?_of_silent ho, hkind]
      split
      · next hsegment =>
        rw [hsegment, get?_dot hdot]
        exact ⟨rfl, hself⟩
      · exact hsame
    · -- a sequence has nothing under a name but the dot, veiled or not
      rw [get?_of_silent ho, hkind]
      show Search.Alike _ (.silent (if segment = "." then _ else _)) _
      split
      · exact ⟨rfl, hself⟩
      · exact ⟨rfl, .none⟩
  | .map es' =>
    obtain ⟨es, rfl, hes⟩ := h.eq_map
    rw [Value.get?, Value.get?]
    split
    · exact ⟨rfl, hself⟩
    · exact ⟨rfl, optionRel_lookup hes segment⟩
  | .record r' =>
    obtain ⟨r, rfl, hfields⟩ := h.eq_record
    rw [Value.get?, Value.get?]
    split
    · exact ⟨rfl, hself⟩
    · exact ⟨rfl, optionRel_mono (fun _ _ hv ↦ hv.weaken) (optionRel_lookup hfields segment)⟩
  | .seq items' =>
    obtain ⟨items, rfl, -⟩ := h.eq_seq
    show Search.Alike _ (.silent (if segment = "." then _ else _))
      (.silent (if segment = "." then _ else _))
    split
    · exact ⟨rfl, hself⟩
    · exact ⟨rfl, .none⟩
  | .null | .bool _ | .int _ | .uint _ | .float _ | .text _ | .lambda _ =>
    cases h
    exact .refl (optionRel_refl (.refl true)) _
termination_by structural w

/-- A wrapper hands a segment on to what it holds. -/
theorem getInner?_alike {outer : Bool} {v? w? : Option Value}
    (h : Option.Rel (Veiled outer) v? w?) (segment : String) :
    Search.Alike (Option.Rel (Veiled true)) (getInner? segment v?) (getInner? segment w?) := by
  match w? with
  | none =>
    cases h
    exact ⟨rfl, .none⟩
  | some w =>
    match v?, h with
    | some v, .some hv => exact Veiled.get? (w := w) hv segment
termination_by structural w?

end

/-- A rendering cannot tell whether values are veiled. -/
theorem Veiled.interchangeable : Interchangeable (Veiled true) where
  toJson_eq := Veiled.toJson_eq
  shown?_eq := Veiled.shown?_eq
  visit := Veiled.visit
  get? := Veiled.get?

end Value

/-- **Indirection is transparent.** A template renders the same, to the last notice, where wrappers
or objects that are sequences stand for values of the contexts, as long as no object that has a
method `.` is wrapped. Values have to be shown as they are or as JSON. -/
theorem indirection_is_transparent (t : Template)
    (hstringer : t.compiler.stringer? = none ∨ t.compiler.stringer? = some .json)
    (files : FileTree) {contexts contexts' : List Value}
    (h : List.Forall₂ (Value.Veiled true) contexts contexts') :
    t.run files contexts = t.run files contexts' :=
  Value.Veiled.interchangeable.run_eq t hstringer files h

namespace Value

/-- A wrapper around a value. -/
def wrapped (v : Value) : Value :=
  .object 0 { HostObject.blank .wrapper "Obj" with inner? := some v }

/-- An object that is a sequence of these items. -/
def sequenced (items : List Value) : Value :=
  .object 0 { HostObject.blank .seq "Obj" with items := items }

/-- One wrapper more is a veil, unless the value answers the dot itself. -/
theorem Veiled.wrapped {v w : Value} (h : Veiled true v w) (hdot : ¬ v.AnswersDot) :
    Veiled true v w.wrapped :=
  .wrapper rfl ⟨fun _ ↦ rfl, rfl⟩ rfl hdot h

/-- And so is a sequence object in the place of a list. -/
theorem Veiled.sequenced {items items' : List Value}
    (h : List.Forall₂ (Veiled true) items items') : Veiled true (.seq items) (sequenced items') :=
  .sequence rfl ⟨fun _ ↦ rfl, rfl⟩ h

end Value

/-- Two wrappers around a context, an object for a sequence in it, and wrappers around an item and
around a value. -/
theorem indirection_is_transparent_of_wrappers :
    let t : Template :=
      ⟨⟨[.block "s" false 1 [.interpolation "." true, .interpolation "n" false, .text ";"]],
        .standard⟩, .standard⟩
    let contexts : List Value :=
      [.map [("n", .text "x"), ("s", .seq [.text "a", .seq [.bool true]])]]
    let contexts' : List Value :=
      [(Value.map [("n", (Value.text "x").wrapped), ("s", .sequenced
        [.text "a", (Value.sequenced [.bool true]).wrapped])]).wrapped.wrapped]
    t.compiler.stringer? = none ∧ List.Forall₂ (Value.Veiled true) contexts contexts' ∧
      (t.run .empty contexts').toText = .ok "ax;[true]x;" := by
  intro t contexts contexts'
  have hitem : Value.Veiled true (.seq [.bool true]) (Value.sequenced [.bool true]).wrapped :=
    (Value.Veiled.sequenced (.cons (.refl true _) .nil)).wrapped id
  have hitems : Value.Veiled true (.seq [.text "a", .seq [.bool true]])
      (.sequenced [.text "a", (Value.sequenced [.bool true]).wrapped]) :=
    .sequenced (.cons (.refl true _) (.cons hitem .nil))
  have hvalue : Value.Veiled true (.text "x") (Value.text "x").wrapped :=
    (Value.Veiled.refl true _).wrapped id
  have hcontext : Value.Veiled true
      (.map [("n", .text "x"), ("s", .seq [.text "a", .seq [.bool true]])])
      (.map [("n", (Value.text "x").wrapped), ("s", .sequenced
        [.text "a", (Value.sequenced [.bool true]).wrapped])]) :=
    .map rfl (.cons hvalue (.cons hitems .nil))
  have hcontexts : List.Forall₂ (Value.Veiled true) contexts contexts' :=
    .cons ((hcontext.wrapped id).wrapped id) .nil
  have hrun : (t.run .empty contexts).outcome = .ok () ∧
      (t.run .empty contexts).text = "ax;[true]x;" := by
    decide +kernel
  refine ⟨rfl, hcontexts, ?_⟩
  rw [← indirection_is_transparent t (.inl rfl) .empty hcontexts, Run.toText_of_ok hrun]

/-- A wrapper answers with itself where the object that it wraps would have called a method. -/
theorem indirection_is_visible_of_dot_method :
    let v : Value := .object 0 { HostObject.blank .sealed "Obj" with
      method := fun name ↦ .ok (if name = "." then some (.text "x") else none)
      textForm := .own "y" }
    let t : Template := ⟨⟨[.interpolation "." false], .standard⟩, .standard⟩
    (∃ i o, v.wrapped = .object i o ∧ o.kind = .wrapper ∧ o.Silent ∧ o.inner? = some v) ∧
      (t.run .empty [v]).toText = .ok "x" ∧ (t.run .empty [v.wrapped]).toText = .ok "y" := by
  intro v t
  have hbare : (t.run .empty [v]).outcome = .ok () ∧ (t.run .empty [v]).text = "x" := by
    decide +kernel
  have hwrapped : (t.run .empty [v.wrapped]).outcome = .ok () ∧
      (t.run .empty [v.wrapped]).text = "y" := by
    decide +kernel
  exact ⟨⟨_, _, rfl, rfl, ⟨fun _ ↦ rfl, rfl⟩, rfl⟩, Run.toText_of_ok hbare,
    Run.toText_of_ok hwrapped⟩

end Mustache
