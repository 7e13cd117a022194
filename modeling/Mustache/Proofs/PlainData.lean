import Mustache.Compiler

/-!
# Host objects written as data

A host object is written as the data it stands for: what a wrapper holds, the items of a sequence,
the members of a record or a mapping under its keys, the text of a sealed object. Putting that data
in its place, at every depth (`Value.materialised`), changes neither the text that a value is shown
as nor its document, whether it has one or not (`objects_written_as_plain_data`).

This is about objects that leave their text to their kind (`Value.ShownByKind`). An object with a
text of its own is shown as that text, but has the document of its data all the same, so the two
come apart. For a sealed object alone, its own text is its data.

The key of a member that an object does not have is left out, and a key that is named twice is
written twice, in the document as in the data.
-/

namespace Mustache

namespace Value

/-! ### The data of an object -/

mutual

/-- A value with the data in the place of every object that it is written with. -/
def materialised : Value → Value
  | .object _ o =>
    match o.kind with
    | .wrapper => materialisedInner o.inner?
    | .seq => .seq (materialisedItems o.items)
    | .record | .map => .record ⟨"", o.keys.flatMap fun k ↦ materialisedMember k (o.member k)⟩
    | .sealed => .text (o.ownText?.getD "")
  | .seq items => .seq (materialisedItems items)
  | .map entries => .map (materialisedEntries entries)
  | .record r => .record ⟨r.name, materialisedEntries r.fields⟩
  | v => v
termination_by structural v => v

def materialisedItems : List Value → List Value
  | [] => []
  | v :: items => v.materialised :: materialisedItems items
termination_by structural items => items

def materialisedEntries : List (String × Value) → List (String × Value)
  | [] => []
  | (k, v) :: entries => (k, v.materialised) :: materialisedEntries entries
termination_by structural entries => entries

/-- The field for a key of an object; none if the object does not have the member. -/
def materialisedMember (k : String) : Option Value → List (String × Value)
  | none => []
  | some v => [(k, v.materialised)]
termination_by structural v => v

/-- The data of what a wrapper holds; a null wrapper stands for null. -/
def materialisedInner : Option Value → Value
  | none => .null
  | some v => v.materialised
termination_by structural v => v

end

mutual

/-- Whether the objects a value is written with leave their text to their kind, or, if they are
sealed, have a text. -/
def ShownByKind : Value → Prop
  | .object _ o =>
    match o.kind with
    | .wrapper => o.textForm = .byKind ∧ InnerShownByKind o.inner?
    | .seq => o.textForm = .byKind ∧ ItemsShownByKind o.items
    | .record | .map => o.textForm = .byKind ∧ ∀ k ∈ o.keys, InnerShownByKind (o.member k)
    | .sealed => o.textForm ≠ .failing
  | .seq items => ItemsShownByKind items
  | .map entries => EntriesShownByKind entries
  | .record r => EntriesShownByKind r.fields
  | _ => True
termination_by structural v => v

def ItemsShownByKind : List Value → Prop
  | [] => True
  | v :: items => v.ShownByKind ∧ ItemsShownByKind items
termination_by structural items => items

def EntriesShownByKind : List (String × Value) → Prop
  | [] => True
  | (_, v) :: entries => v.ShownByKind ∧ EntriesShownByKind entries
termination_by structural entries => entries

def InnerShownByKind : Option Value → Prop
  | none => True
  | some v => v.ShownByKind
termination_by structural v => v

end


end Value

/-- Only an object whose text fails has none. -/
theorem HostObject.exists_ownText {α : Type} {o : HostObject α} (h : o.textForm ≠ .failing) :
    ∃ t, o.ownText? = some t := by
  rw [HostObject.ownText?]
  split
  · exact ⟨_, rfl⟩
  · exact ⟨_, rfl⟩
  · next hform => exact absurd hform h

namespace Value

/-! ### Documents -/

/-- The documents of entries that stand one behind the other; either part may fail. -/
theorem entriesToJson_append (es fs : List (String × Value)) :
    entriesToJson (es ++ fs) = do
      let as ← entriesToJson es
      let bs ← entriesToJson fs
      return as ++ bs := by
  induction es with
  | nil => exact (bind_pure (entriesToJson fs)).symm
  | cons e es ih =>
    obtain ⟨k, v⟩ := e
    rw [List.cons_append, entriesToJson, entriesToJson, ih]
    simp only [bind_assoc, pure_bind, List.cons_append]

/-- Fields that are written key by key are written one key behind the other. -/
theorem entriesToJson_flatMap {keys : List String} {fields : String → List (String × Value)}
    {members : String → Except Unwritable (List (String × Json))}
    (h : ∀ k ∈ keys, entriesToJson (fields k) = members k) :
    entriesToJson (keys.flatMap fields) = (keys.mapM members).map List.flatten := by
  induction keys with
  | nil => rfl
  | cons k keys ih =>
    obtain ⟨hk, hkeys⟩ := List.forall_mem_cons.1 h
    rw [List.flatMap_cons, entriesToJson_append, hk, ih hkeys, List.mapM_cons]
    rcases members k with e | ms
    · rfl
    · rcases keys.mapM members with e | mss <;> rfl

mutual

/-- A value and its data have the same document, or neither has one. -/
theorem toJson_materialised : ∀ v : Value, v.ShownByKind → v.materialised.toJson = v.toJson
  | .object i o, h => by
    rw [ShownByKind] at h
    rw [materialised, toJson]
    have hmembers (hkeys : ∀ k ∈ o.keys, InnerShownByKind (o.member k)) :=
      entriesToJson_flatMap fun k hk ↦
        entriesToJson_materialisedMember k (o.member k) (hkeys k hk)
    rcases hkind : o.kind with - | - | - | - | -
    all_goals simp only [hkind] at h ⊢
    case record | map =>
      rw [toJson, hmembers h.2]
      rcases o.keys.mapM fun k ↦ memberToJson k (o.member k) with e | ms <;> rfl
    case seq => rw [toJson, itemsToJson_materialised o.items h.2]
    case wrapper => exact innerToJson_materialised o.inner? h.2
    case sealed =>
      obtain ⟨t, ht⟩ := o.exists_ownText h
      rw [toJson, ht]
      rfl
  | .seq items, h => by rw [materialised, toJson, toJson, itemsToJson_materialised items h]
  | .map entries, h => by rw [materialised, toJson, toJson, entriesToJson_materialised entries h]
  | .record r, h => by rw [materialised, toJson, toJson, entriesToJson_materialised r.fields h]
  | .null, _ | .bool _, _ | .int _, _ | .uint _, _ | .float _, _ | .text _, _ | .lambda _, _ => rfl
termination_by structural v => v

theorem itemsToJson_materialised :
    ∀ items, ItemsShownByKind items → itemsToJson (materialisedItems items) = itemsToJson items
  | [], _ => rfl
  | v :: items, h => by
    rw [materialisedItems, itemsToJson, itemsToJson, toJson_materialised v h.1,
      itemsToJson_materialised items h.2]
termination_by structural items => items

theorem entriesToJson_materialised :
    ∀ entries, EntriesShownByKind entries →
      entriesToJson (materialisedEntries entries) = entriesToJson entries
  | [], _ => rfl
  | (k, v) :: entries, h => by
    rw [materialisedEntries, entriesToJson, entriesToJson, toJson_materialised v h.1,
      entriesToJson_materialised entries h.2]
termination_by structural entries => entries

/-- The member of an object is the field of its data, and a missing member is no field. -/
theorem entriesToJson_materialisedMember (k : String) :
    ∀ v? : Option Value, InnerShownByKind v? →
      entriesToJson (materialisedMember k v?) = memberToJson k v?
  | none, _ => rfl
  | some v, h => by
    rw [materialisedMember, memberToJson, entriesToJson, toJson_materialised v h]
    rcases v.toJson with e | j <;> rfl
termination_by structural v? => v?

/-- A wrapper has the document of what it holds, and a null wrapper that of null. -/
theorem innerToJson_materialised :
    ∀ v? : Option Value, InnerShownByKind v? → (materialisedInner v?).toJson = innerToJson v?
  | none, _ => rfl
  | some v, h => toJson_materialised v h
termination_by structural v? => v?

end

/-! ### Texts -/

/-- Compound values with one document are shown as one text. -/
theorem shown?_of_toJson {v w : Value} (hv : v.shown? = some (compoundText v.toJson))
    (hw : w.shown? = some (compoundText w.toJson)) (h : w.toJson = v.toJson) :
    w.shown? = v.shown? ∧ v.shown?.isSome := by
  rw [hv, hw, h]
  exact ⟨rfl, rfl⟩

mutual

/-- A value and its data are shown alike. Both have a text: no object of `Value.ShownByKind` fails
to give one. -/
theorem shown?_materialised : ∀ v : Value, v.ShownByKind →
    v.materialised.shown? = v.shown? ∧ v.shown?.isSome
  | .object i o, h => by
    have hjson := toJson_materialised (.object i o) h
    rw [ShownByKind] at h
    rw [materialised] at hjson ⊢
    rcases hkind : o.kind with - | - | - | - | -
    all_goals simp only [hkind] at h hjson ⊢
    case record | map | seq =>
      exact shown?_of_toJson (by rw [shown?, h.1, hkind]) rfl hjson
    case wrapper =>
      rw [shown?, h.1, hkind]
      exact innerShown?_materialised o.inner? h.2
    case sealed =>
      rw [shown?, shown?, hkind, HostObject.ownText?]
      rcases hform : o.textForm with - | t | -
      · exact ⟨rfl, rfl⟩
      · exact ⟨rfl, rfl⟩
      · exact absurd hform h
  | .seq items, h => shown?_of_toJson rfl rfl (toJson_materialised (.seq items) h)
  | .map entries, h => shown?_of_toJson rfl rfl (toJson_materialised (.map entries) h)
  | .record r, h => shown?_of_toJson rfl rfl (toJson_materialised (.record r) h)
  | .null, _ | .bool _, _ | .int _, _ | .uint _, _ | .float _, _ | .text _, _ | .lambda _, _ =>
    ⟨rfl, rfl⟩
termination_by structural v => v

theorem innerShown?_materialised : ∀ v? : Option Value, InnerShownByKind v? →
    (materialisedInner v?).shown? = innerShown? v? ∧ (innerShown? v?).isSome
  | none, _ => ⟨rfl, rfl⟩
  | some v, h => shown?_materialised v h
termination_by structural v? => v?

end

end Value

/-- **Objects are written as the data they stand for.** A value whose objects leave their text to
their kind is shown as some text, its data is shown as the same one, and both are written as JSON
alike: as the same text or with the same failure. -/
theorem objects_written_as_plain_data (v : Value) (h : v.ShownByKind) :
    (∃ t, v.shown? = some t ∧ v.materialised.shown? = some t) ∧
      Stringer.json v = Stringer.json v.materialised := by
  obtain ⟨hshown, hsome⟩ := Value.shown?_materialised v h
  obtain ⟨t, ht⟩ := Option.isSome_iff_exists.1 hsome
  refine ⟨⟨t, ht, hshown.trans ht⟩, ?_⟩
  rw [Stringer.json, Stringer.json, Value.toJson_materialised v h]

/-- A record object whose name is behind a wrapper, whose marks are a sequence object with a sealed
item and a null wrapper, and whose key `name` comes twice. -/
def parcel : Value :=
  let named := { HostObject.blank .wrapper "" with inner? := some (Value.text "box") }
  let stamp := { HostObject.blank .sealed "" with textForm := .own "top" }
  let marks := { HostObject.blank .seq "" with
    items := [Value.object 2 stamp, .object 3 (.blank .wrapper ""), .seq [.int 1]] }
  .object 0 { HostObject.blank .record "Parcel" with
    member := fun k ↦
      if k = "name" then some (.object 1 named)
      else if k = "marks" then some (.object 4 marks) else none
    keys := ["name", "weight", "marks", "name"] }

example : parcel.materialised = .record ⟨"", [("name", .text "box"),
    ("marks", .seq [.text "top", .null, .seq [.int 1]]), ("name", .text "box")]⟩ := rfl

/-- The parcel is written as its data, though the document of it has a key twice. -/
theorem objects_written_as_plain_data_of_parcel : parcel.ShownByKind ∧
    (∃ t, parcel.shown? = some t ∧ parcel.materialised.shown? = some t) ∧
      Stringer.json parcel = Stringer.json parcel.materialised := by
  have h : parcel.ShownByKind := by
    simp [parcel, HostObject.blank, Value.ShownByKind, Value.InnerShownByKind,
      Value.ItemsShownByKind]
  exact ⟨h, objects_written_as_plain_data parcel h⟩

end Mustache
