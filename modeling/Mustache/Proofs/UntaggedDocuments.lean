import Mathlib.Logic.Relation
import Mustache.Value.Document

/-!
# YAML documents as values

YAML has more than JSON: tags around anything, keys of any kind, and numbers that are not finite.

* **Tags leave no trace.** Documents that are the same without their tags (`Yaml.untagged`) have the
  same value. The entries of a mapping stay as many as they were when tags are taken away, even if
  two keys become the same one; the later of them counts, as it did before.
* **A mapping is what its named entries bind.** A key names its text (`Yaml.Names`): a text itself,
  a truth value and a number as they are written. Other keys name nothing and are left out, and of
  several entries with one text, whatever the kinds of their keys are, the last one counts.
* **What YAML shares with JSON has one value.** A document without tags, with texts as keys and with
  finite numbers, is one that JSON has too (`Yaml.toJson?`), and the value of that one is the same.
-/

namespace Mustache

namespace Yaml

/-! ### Tags -/

mutual

/-- The document without its tags, around values and around keys, at any depth. -/
def untagged : Yaml → Yaml
  | .sequence items => .sequence (itemsUntagged items)
  | .mapping entries => .mapping (entriesUntagged entries)
  | .tagged _ content => content.untagged
  | y => y
termination_by structural y => y

def itemsUntagged : List Yaml → List Yaml
  | [] => []
  | y :: items => y.untagged :: itemsUntagged items
termination_by structural items => items

def entriesUntagged : List (Yaml × Yaml) → List (Yaml × Yaml)
  | [] => []
  | (k, y) :: entries => (k.untagged, y.untagged) :: entriesUntagged entries
termination_by structural entries => entries

end

/-- The text of a key does not depend on its tags. -/
theorem keyText?_untagged : ∀ k : Yaml, k.untagged.keyText? = k.keyText?
  | .tagged _ content => keyText?_untagged content
  | .null | .bool _ | .whole _ | .float _ | .text _ | .sequence _ | .mapping _ => rfl
termination_by structural k => k

end Yaml

namespace Value

mutual

/-- Tags leave no trace. -/
theorem ofYaml_untagged : ∀ y : Yaml, ofYaml y.untagged = ofYaml y
  | .sequence items => by rw [Yaml.untagged, ofYaml, ofYaml, ofYamlItems_untagged items]
  | .mapping entries => by rw [Yaml.untagged, ofYaml, ofYaml, ofYamlEntries_untagged entries]
  | .tagged _ content => ofYaml_untagged content
  | .null | .bool _ | .whole _ | .float _ | .text _ => rfl
termination_by structural y => y

theorem ofYamlItems_untagged :
    ∀ items : List Yaml, ofYamlItems (Yaml.itemsUntagged items) = ofYamlItems items
  | [] => rfl
  | y :: items => by
    rw [Yaml.itemsUntagged, ofYamlItems, ofYamlItems, ofYaml_untagged y,
      ofYamlItems_untagged items]
termination_by structural items => items

theorem ofYamlEntries_untagged :
    ∀ entries : List (Yaml × Yaml),
      ofYamlEntries (Yaml.entriesUntagged entries) = ofYamlEntries entries
  | [] => rfl
  | (k, y) :: entries => by
    rw [Yaml.entriesUntagged, ofYamlEntries, ofYamlEntries, Yaml.keyText?_untagged k,
      ofYaml_untagged y, ofYamlEntries_untagged entries]
termination_by structural entries => entries

end

end Value

/-! ### Keys -/

namespace Yaml

/-- Whether a key names a text, whatever tags are around it. -/
inductive Names : Yaml → String → Prop
  | text (t : String) : Names (.text t) t
  | yes : Names (.bool true) "true"
  | no : Names (.bool false) "false"
  | whole (n : Whole) : Names (.whole n) (toString n.val)
  | float (x : Binary64) : Names (.float x) (numberStyle.write x)
  | tagged {k : Yaml} {t : String} (tag : String) (h : Names k t) : Names (.tagged tag k) t

/-- A key that names a text has that text as its key text. -/
theorem Names.keyText? {k : Yaml} {t : String} (h : k.Names t) : k.keyText? = some t := by
  induction h with
  | tagged tag _ ih => exact ih
  | _ => rfl

/-- And the key text is the only text that a key names. -/
theorem names_of_keyText? : ∀ {k : Yaml} {t : String}, k.keyText? = some t → k.Names t
  | .text u, t, h => by
    obtain rfl := Option.some.inj h
    exact .text _
  | .bool b, t, h => by
    obtain rfl := Option.some.inj h
    cases b
    · exact .no
    · exact .yes
  | .whole n, t, h => by
    obtain rfl := Option.some.inj h
    exact .whole n
  | .float x, t, h => by
    obtain rfl := Option.some.inj h
    exact .float x
  | .tagged tag k, t, h => .tagged tag (names_of_keyText? (k := k) h)

end Yaml

namespace Value

/-- The entry that counts for a text is the last one whose key names it. -/
theorem lookup_ofYamlEntries {entries : List (Yaml × Yaml)} {t : String} {v : Value} :
    (Entries.ofList (ofYamlEntries entries)).lookup t = some v ↔
      ∃ front k y behind, entries = front ++ (k, y) :: behind ∧ k.Names t ∧
        (∀ e ∈ behind, ¬ e.1.Names t) ∧ v = ofYaml y := by
  rw [Entries.lookup_ofList, Entries.lookup_reverse_eq_some_iff, ofYamlEntries_eq_filterMap]
  constructor
  · rintro ⟨_, _, heq, hne⟩
    obtain ⟨front, rest, rfl, -, hrest⟩ := List.filterMap_eq_append_iff.1 heq
    obtain ⟨between, ⟨k, y⟩, behind, rfl, -, hentry, rfl⟩ := List.filterMap_eq_cons_iff.1 hrest
    obtain ⟨u, hu, heq⟩ := Option.map_eq_some_iff.1 hentry
    obtain ⟨rfl, rfl⟩ := Prod.mk.inj heq
    refine ⟨front ++ between, k, y, behind, (List.append_assoc ..).symm,
      Yaml.names_of_keyText? hu, fun e he hnames ↦ ?_, rfl⟩
    exact hne _ (List.mem_filterMap.2 ⟨e, he, congrArg _ hnames.keyText?⟩) rfl
  · rintro ⟨front, k, y, behind, rfl, hk, hbehind, rfl⟩
    rw [List.filterMap_append, List.filterMap_cons, hk.keyText?]
    refine ⟨_, _, rfl, fun e he heq ↦ ?_⟩
    obtain ⟨f, hf, hentry⟩ := List.mem_filterMap.1 he
    obtain ⟨u, hu, rfl⟩ := Option.map_eq_some_iff.1 hentry
    exact hbehind f hf (heq ▸ Yaml.names_of_keyText? hu)

end Value

/-! ### What JSON has too -/

namespace Yaml

mutual

/-- The same document in JSON; `none` when there is a tag, a key that is not a text, or a number
that is not finite. -/
def toJson? : Yaml → Option Json
  | .null => some .null
  | .bool b => some (.bool b)
  | .whole n => some (.whole n)
  | .float x => if x.isNaN || x.isInfinite then none else some (.float x)
  | .text t => some (.text t)
  | .sequence items => (itemsToJson? items).map .array
  | .mapping entries => (entriesToJson? entries).map .object
  | .tagged _ _ => none
termination_by structural y => y

def itemsToJson? : List Yaml → Option (List Json)
  | [] => some []
  | y :: items => do
    let j ← y.toJson?
    let js ← itemsToJson? items
    return j :: js
termination_by structural items => items

def entriesToJson? : List (Yaml × Yaml) → Option (List (String × Json))
  | [] => some []
  | (.text k, y) :: entries => do
    let j ← y.toJson?
    let ms ← entriesToJson? entries
    return (k, j) :: ms
  | _ :: _ => none
termination_by structural entries => entries

end

/-- Whether a document is directly in another one, in the place of a value or of a key. -/
inductive Part : Yaml → Yaml → Prop
  | item {y : Yaml} {items : List Yaml} (h : y ∈ items) : Part y (.sequence items)
  | key {k y : Yaml} {entries : List (Yaml × Yaml)} (h : (k, y) ∈ entries) :
    Part k (.mapping entries)
  | value {k y : Yaml} {entries : List (Yaml × Yaml)} (h : (k, y) ∈ entries) :
    Part y (.mapping entries)
  | content {tag : String} {y : Yaml} : Part y (.tagged tag y)

/-- Whether a document is in another one at any depth, or is that one. -/
def Within (y z : Yaml) : Prop :=
  Relation.ReflTransGen Part y z

/-- Whether JSON has a document of this form: no tag, no key that is not a text, no number that is
not finite. What is in the document is not looked into. -/
def IsShared : Yaml → Prop
  | .tagged _ _ => False
  | .mapping entries => ∀ e ∈ entries, ∃ t, e.1 = .text t
  | .float x => x.isNaN = false ∧ x.isInfinite = false
  | _ => True

theorem Part.within {y z : Yaml} (h : Part y z) : Within y z :=
  Relation.ReflTransGen.single h

theorem Within.trans {x y z : Yaml} (h : Within x y) (h' : Within y z) : Within x z :=
  Relation.ReflTransGen.trans h h'

/-- What holds of a document and of all in its parts holds of all that is in it. -/
theorem forall_within {P : Yaml → Prop} {y : Yaml} (hself : P y)
    (hparts : ∀ x, Part x y → ∀ z, Within z x → P z) : ∀ z, Within z y → P z := by
  intro z hz
  rcases Relation.ReflTransGen.cases_tail hz with rfl | ⟨x, hzx, hx⟩
  · exact hself
  · exact hparts x hx z hzx

end Yaml

namespace Value

mutual

/-- A document that JSON has too has one value. -/
theorem exists_toJson?_of_isShared :
    ∀ y : Yaml, (∀ z, Yaml.Within z y → z.IsShared) →
      ∃ j, y.toJson? = some j ∧ ofYaml y = ofJson j
  | .sequence items, h => by
    obtain ⟨js, hjs, heq⟩ := exists_itemsToJson?_of_isShared items fun y hy z hz ↦
      h z (hz.trans (Yaml.Part.item hy).within)
    exact ⟨.array js, by rw [Yaml.toJson?, hjs]; rfl, by rw [ofYaml, ofJson, heq]⟩
  | .mapping entries, h => by
    obtain ⟨ms, hms, heq⟩ := exists_entriesToJson?_of_isShared entries (h _ .refl) fun e he z hz ↦
      h z (hz.trans (Yaml.Part.value he).within)
    exact ⟨.object ms, by rw [Yaml.toJson?, hms]; rfl, by rw [ofYaml, ofJson, heq]⟩
  | .float x, h => by
    obtain ⟨hnan, hinfinite⟩ := h _ .refl
    exact ⟨.float x, by rw [Yaml.toJson?, hnan, hinfinite]; rfl, rfl⟩
  | .tagged _ _, h => (h _ .refl).elim
  | .null, _ => ⟨.null, rfl, rfl⟩
  | .bool b, _ => ⟨.bool b, rfl, rfl⟩
  | .whole n, _ => ⟨.whole n, rfl, rfl⟩
  | .text t, _ => ⟨.text t, rfl, rfl⟩
termination_by structural y => y

/-- A sequence has a document if all of its items do, and then item by item. -/
theorem exists_itemsToJson?_of_isShared :
    ∀ items : List Yaml, (∀ y ∈ items, ∀ z, Yaml.Within z y → z.IsShared) →
      ∃ js, Yaml.itemsToJson? items = some js ∧ ofYamlItems items = ofJsonItems js
  | [], _ => ⟨[], rfl, rfl⟩
  | y :: items, h => by
    obtain ⟨hy, hitems⟩ := List.forall_mem_cons.1 h
    obtain ⟨j, hj, heq⟩ := exists_toJson?_of_isShared y hy
    obtain ⟨js, hjs, heqs⟩ := exists_itemsToJson?_of_isShared items hitems
    refine ⟨j :: js, by rw [Yaml.itemsToJson?, hj, hjs]; rfl, ?_⟩
    rw [ofYamlItems, ofJsonItems, heq, heqs]
termination_by structural items => items

/-- A mapping has a document if its keys are texts and its values have documents. -/
theorem exists_entriesToJson?_of_isShared :
    ∀ entries : List (Yaml × Yaml), (∀ e ∈ entries, ∃ t, e.1 = .text t) →
      (∀ e ∈ entries, ∀ z, Yaml.Within z e.2 → z.IsShared) →
      ∃ ms, Yaml.entriesToJson? entries = some ms ∧ ofYamlEntries entries = ofJsonMembers ms
  | [], _, _ => ⟨[], rfl, rfl⟩
  | (k, y) :: entries, hkeys, h => by
    obtain ⟨⟨t, rfl⟩, hothers⟩ := List.forall_mem_cons.1 hkeys
    obtain ⟨hy, hentries⟩ := List.forall_mem_cons.1 h
    obtain ⟨j, hj, heq⟩ := exists_toJson?_of_isShared y hy
    obtain ⟨ms, hms, heqs⟩ := exists_entriesToJson?_of_isShared entries hothers hentries
    refine ⟨(t, j) :: ms, by rw [Yaml.entriesToJson?, hj, hms]; rfl, ?_⟩
    rw [ofYamlEntries, ofJsonMembers, ← heq, ← heqs]
    rfl
termination_by structural entries => entries

end

end Value

/-- **YAML documents by their untagged texts.** Taking tags away, all of them or some, changes
nothing in the value of a document. A mapping becomes the mapping of the texts that its keys name,
each bound to the value of the last entry whose key names it. And a document without tags, with
texts as keys and with finite numbers, has the value of the same document in JSON. -/
theorem yaml_values_by_named_texts (y : Yaml) :
    (Value.ofYaml y.untagged = Value.ofYaml y ∧
      ∀ z : Yaml, z.untagged = y.untagged → Value.ofYaml z = Value.ofYaml y) ∧
    (∀ entries, y = .mapping entries → ∃ es, Value.ofYaml y = .map es ∧ Entries.Sorted es ∧
      ∀ t v, es.lookup t = some v ↔
        ∃ front k z behind, entries = front ++ (k, z) :: behind ∧ k.Names t ∧
          (∀ e ∈ behind, ¬ e.1.Names t) ∧ v = Value.ofYaml z) ∧
    ((∀ z, Yaml.Within z y → z.IsShared) →
      ∃ j, y.toJson? = some j ∧ Value.ofYaml y = Value.ofJson j) := by
  refine ⟨⟨Value.ofYaml_untagged y, fun z hz ↦ ?_⟩, ?_, Value.exists_toJson?_of_isShared y⟩
  · rw [← Value.ofYaml_untagged z, hz, Value.ofYaml_untagged y]
  · rintro entries rfl
    exact ⟨_, rfl, Entries.sorted_ofList _, fun t v ↦ Value.lookup_ofYamlEntries⟩

/-- A mapping with two keys that name one text, the second of them behind two tags, and with a key
that names nothing. -/
def taggedRota : Yaml :=
  .mapping [(.whole (.ofInt64 1), .text "early"), (.null, .text "never"),
    (.tagged "!day" (.tagged "!shift" (.text "1")), .tagged "!names" (.sequence [.bool true]))]

/-- The same without some of the tags. -/
def rota : Yaml :=
  .mapping [(.whole (.ofInt64 1), .text "early"), (.null, .text "never"),
    (.tagged "!shift" (.text "1"), .sequence [.bool true])]

example : Value.ofYaml taggedRota = .map [("1", .seq [.bool true])] := rfl

/-- The mapping under either tags, and one of its entries alone, which JSON has as well. -/
theorem yaml_values_by_named_texts_of_rota :
    rota.untagged = taggedRota.untagged ∧ Value.ofYaml rota = Value.ofYaml taggedRota ∧
    (∃ es, Value.ofYaml taggedRota = .map es ∧ es.lookup "1" = some (.seq [.bool true])) ∧
    let plain : Yaml := .mapping [(.text "1", .sequence [.bool true])]
    (∀ z, Yaml.Within z plain → z.IsShared) ∧
      ∃ j, plain.toJson? = some j ∧ Value.ofYaml plain = Value.ofJson j := by
  have hsame : rota.untagged = taggedRota.untagged := rfl
  obtain ⟨⟨-, htags⟩, hmapping, -⟩ := yaml_values_by_named_texts taggedRota
  obtain ⟨es, heq, -, hlookup⟩ := hmapping _ rfl
  have hshared : ∀ z, Yaml.Within z (.mapping [(.text "1", .sequence [.bool true])]) →
      z.IsShared := by
    refine Yaml.forall_within (fun e he ↦ ?_) fun x hx ↦ ?_
    · obtain rfl := List.mem_singleton.1 he
      exact ⟨"1", rfl⟩
    · cases hx with
      | key h =>
        obtain ⟨rfl, -⟩ := Prod.mk.inj (List.mem_singleton.1 h)
        exact Yaml.forall_within trivial fun _ h ↦ by cases h
      | value h =>
        obtain ⟨-, rfl⟩ := Prod.mk.inj (List.mem_singleton.1 h)
        refine Yaml.forall_within trivial fun x hx ↦ ?_
        cases hx with
        | item h =>
          obtain rfl := List.mem_singleton.1 h
          exact Yaml.forall_within trivial fun _ h ↦ by cases h
  refine ⟨hsame, htags rota hsame, ⟨es, heq, (hlookup "1" _).2 ?_⟩, hshared,
    (yaml_values_by_named_texts _).2.2 hshared⟩
  exact ⟨[_, _], _, .tagged "!names" (.sequence [.bool true]), [], rfl,
    .tagged _ (.tagged _ (.text "1")), fun _ h ↦ absurd h List.not_mem_nil, rfl⟩

end Mustache
