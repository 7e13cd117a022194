import Mathlib.Tactic.Choose
import Mustache.Proofs.KeptDocuments
import Mustache.Proofs.PlainData
import Mustache.Value.Capture

/-!
# Values captured once more

A value describes itself, so it can be captured as a value. What comes out is plain data: wrappers
and objects are gone, records have become mappings, and of several fields with one name the last
one is left. That is the end of it: plain data is captured as itself.

The contents of a value (`Value.contents`) are the values that its description has in it, and what
is shown here of a value is shown from what holds of its contents. A description is one of four: of
a scalar, of what a wrapper holds, item by item, or entry by entry. There is one lemma for each of
them, whatever the value is that has it.

A lambda among the contents, at any depth, is what stops the capture. The only other thing that
could is a sealed object without a text, so the statement is about values whose sealed objects have
one.
-/

namespace Mustache

/-- The members that an object lists and has, in the order of its keys. -/
def HostObject.listed {α : Type} (o : HostObject α) : List (String × α) :=
  o.keys.flatMap fun k ↦ (o.member k).toList.map (k, ·)

/-- A member is listed if its key is and the object has it. -/
theorem HostObject.mem_listed {α : Type} {o : HostObject α} {k : String} {v : α} :
    (k, v) ∈ o.listed ↔ k ∈ o.keys ∧ o.member k = some v := by
  simp only [listed, List.mem_flatMap, List.mem_map, Option.mem_toList, Prod.mk.injEq]
  constructor
  · rintro ⟨_, hk, _, hv, rfl, rfl⟩
    exact ⟨hk, hv⟩
  · rintro ⟨hk, hv⟩
    exact ⟨k, hk, v, hv, rfl, rfl⟩

/-- Entries are offered one after the other, each as its key and its value. -/
theorem Datum.ofEntries_append (es fs : List (String × Value)) :
    ofEntries (es ++ fs) = ofEntries es ++ ofEntries fs := by
  induction es with
  | nil => rfl
  | cons e es ih => rw [List.cons_append, ofEntries, ofEntries, ih, List.cons_append]

/-- The members of an object are described as the entries of a mapping. -/
theorem Datum.ofEntries_listed (o : HostObject Value) :
    ofEntries o.listed = o.keys.flatMap fun k ↦ ofMember k (o.member k) := by
  rw [HostObject.listed]
  induction o.keys with
  | nil => rfl
  | cons k keys ih =>
    rw [List.flatMap_cons, List.flatMap_cons, ofEntries_append, ih]
    cases o.member k <;> rfl

namespace Value

/-- The members of an object are written as the entries of a mapping. -/
theorem entriesToJson_listed (o : HostObject Value) :
    entriesToJson o.listed =
      (o.keys.mapM fun k ↦ memberToJson k (o.member k)).map List.flatten :=
  entriesToJson_flatMap fun k _ ↦ by
    rcases o.member k with - | v
    · rfl
    · show entriesToJson [(k, v)] = v.toJson.map fun j ↦ [(k, j)]
      rw [entriesToJson]
      rcases v.toJson with e | j <;> rfl

/-! ### Contents -/

/-- The values that a value is written with. -/
def contents : Value → List Value
  | .seq items => items
  | .map es => es.map Prod.snd
  | .record r => r.fields.map Prod.snd
  | .object _ o =>
    match o.kind with
    | .record | .map => o.listed.map Prod.snd
    | .seq => o.items
    | .wrapper => o.inner?.toList
    | .sealed => []
  | _ => []

/-- Whether a value is written with another one, at whatever depth, or is that one. -/
inductive Holds : Value → Value → Prop
  | self (v : Value) : Holds v v
  | content {v w x : Value} (hw : w ∈ v.contents) (h : Holds w x) : Holds v x

/-- Whether a value is written with a lambda, at whatever depth, or is one. -/
def HoldsLambda (v : Value) : Prop :=
  ∃ l, v.Holds (.lambda l)

/-- A value other than a lambda holds one exactly if one of its contents does. -/
theorem holdsLambda_iff {v : Value} (hv : ∀ l, v ≠ .lambda l) :
    v.HoldsLambda ↔ ∃ w ∈ v.contents, w.HoldsLambda := by
  constructor
  · rintro ⟨l, hl⟩
    cases hl with
    | self => exact absurd rfl (hv l)
    | content hw h => exact ⟨_, hw, l, h⟩
  · rintro ⟨w, hw, l, hl⟩
    exact ⟨l, .content hw hl⟩

-- Contents are smaller values: the recursion is that of the type, into members and what is wrapped.
mutual

/-- Going into contents again and again comes to an end. -/
theorem acc_contents : ∀ v : Value, Acc (fun w v ↦ w ∈ v.contents) v
  | .seq items => ⟨_, acc_contents_items items⟩
  | .map es => ⟨_, List.forall_mem_map.2 (acc_contents_entries es)⟩
  | .record r => ⟨_, List.forall_mem_map.2 (acc_contents_entries r.fields)⟩
  | .object _ o => ⟨_, fun w hw ↦ by
    rw [contents] at hw
    split at hw
    · obtain ⟨e, he, rfl⟩ := List.mem_map.1 hw
      exact acc_contents_inner (o.member e.1) e.2 (HostObject.mem_listed.1 he).2
    · obtain ⟨e, he, rfl⟩ := List.mem_map.1 hw
      exact acc_contents_inner (o.member e.1) e.2 (HostObject.mem_listed.1 he).2
    · exact acc_contents_items o.items w hw
    · exact acc_contents_inner o.inner? w (Option.mem_toList.1 hw)
    · exact absurd hw List.not_mem_nil⟩
  | .null | .bool _ | .int _ | .uint _ | .float _ | .text _ | .lambda _ =>
    ⟨_, fun _ hw ↦ absurd hw List.not_mem_nil⟩
termination_by structural v => v

theorem acc_contents_items :
    ∀ items : List Value, ∀ v ∈ items, Acc (fun w v ↦ w ∈ v.contents) v
  | [] => fun _ h ↦ absurd h List.not_mem_nil
  | v :: items => List.forall_mem_cons.2 ⟨acc_contents v, acc_contents_items items⟩
termination_by structural items => items

theorem acc_contents_entries :
    ∀ es : List (String × Value), ∀ e ∈ es, Acc (fun w v ↦ w ∈ v.contents) e.2
  | [] => fun _ h ↦ absurd h List.not_mem_nil
  | (_, v) :: es => List.forall_mem_cons.2 ⟨acc_contents v, acc_contents_entries es⟩
termination_by structural es => es

theorem acc_contents_inner :
    ∀ v? : Option Value, ∀ v, v? = some v → Acc (fun w v ↦ w ∈ v.contents) v
  | none, _, h => by cases h
  | some v, _, h => Option.some.inj h ▸ acc_contents v
termination_by structural v? => v?

end

/-- What follows for a value from the same for its contents holds of all values. -/
theorem induction_on_contents {P : Value → Prop}
    (h : ∀ v, (∀ w ∈ v.contents, P w) → P v) (v : Value) : P v :=
  WellFounded.induction ⟨acc_contents⟩ v h

/-! ### Plain data -/

/-- Plain data: scalars, sequences, and mappings in the order of their keys. -/
inductive Plain : Value → Prop
  | null : Plain .null
  | bool (b : Bool) : Plain (.bool b)
  | int (n : Int64) : Plain (.int n)
  | uint (n : UInt64) : Plain (.uint n)
  | float (x : Binary64) : Plain (.float x)
  | text (t : String) : Plain (.text t)
  | seq {items : List Value} (h : ∀ v ∈ items, Plain v) : Plain (.seq items)
  | map {es : List (String × Value)} (hkeys : Entries.Sorted es) (h : ∀ e ∈ es, Plain e.2) :
    Plain (.map es)

/-! ### Capturing items and entries -/

section

variable {α β ε : Type} {f : α → Except ε β} {as : List α}

/-- If every item has a result, the list has the list of these. -/
theorem mapM_eq_ok {g : α → β} (h : ∀ a ∈ as, f a = .ok (g a)) : as.mapM f = .ok (as.map g) := by
  induction as with
  | nil => rfl
  | cons a as ih =>
    obtain ⟨ha, has⟩ := List.forall_mem_cons.1 h
    rw [List.mapM_cons, ha, ih has]
    rfl

/-- If there is one way to fail, and one fails, all of them fail. -/
theorem mapM_eq_error {e : ε} (h : ∀ a ∈ as, f a = .error e ∨ ∃ b, f a = .ok b)
    (herror : ∃ a ∈ as, f a = .error e) : as.mapM f = .error e := by
  induction as with
  | nil =>
    obtain ⟨a, hmem, -⟩ := herror
    exact absurd hmem List.not_mem_nil
  | cons a as ih =>
    obtain ⟨ha, has⟩ := List.forall_mem_cons.1 h
    rw [List.mapM_cons]
    obtain ha | ⟨b, ha⟩ := ha
    · rw [ha]
      rfl
    · have hrest : ∃ a ∈ as, f a = .error e := by simpa [ha] using herror
      rw [ha, ih has hrest]
      rfl

end

/-- The items of a sequence are captured one by one, up to the first error. -/
theorem captureItems_ofItems (items : List Value) :
    captureItems (Datum.ofItems items) = items.mapM fun v ↦ capture (.ofValue v) := by
  induction items with
  | nil => rfl
  | cons v items ih => rw [Datum.ofItems, captureItems, ih, List.mapM_cons]

/-- The entry with its value captured once more. -/
def captureEntry (e : String × Value) : Except CaptureError (String × Value) :=
  (capture (.ofValue e.2)).map (Prod.mk e.1)

/-- The entries are captured one by one, up to the first error, and bound in their order. -/
theorem captureSteps_ofEntries (bound es : List (String × Value)) :
    captureSteps none bound (Datum.ofEntries es) =
      (es.mapM captureEntry).map
        (List.foldl (fun bound e ↦ Entries.insert e.1 e.2 bound) bound) := by
  induction es generalizing bound with
  | nil => rfl
  | cons e es ih =>
    obtain ⟨k, v⟩ := e
    rw [Datum.ofEntries, List.mapM_cons, captureEntry]
    show (capture (.ofValue v) >>= fun w ↦
      captureSteps none (Entries.insert k w bound) (Datum.ofEntries es)) = _
    rcases capture (.ofValue v) with e | w
    · rfl
    · show captureSteps none (Entries.insert k w bound) (Datum.ofEntries es) = _
      rw [ih]
      rcases es.mapM captureEntry with e | bs <;> rfl

/-- An object is captured as a mapping, of its entries with the last value for each key. -/
theorem capture_ofEntries (es : List (String × Value)) :
    capture (.mapping (Datum.ofEntries es)) = (es.mapM captureEntry).map ofEntries := by
  rw [capture, captureSteps_ofEntries]
  rcases es.mapM captureEntry with e | bs <;> rfl

theorem capture_ofEntries_eq_ok {f : Value → Value} {es : List (String × Value)}
    (h : ∀ e ∈ es, capture (.ofValue e.2) = .ok (f e.2)) :
    capture (.mapping (Datum.ofEntries es)) = .ok (ofEntries (es.map (Prod.map id f))) := by
  have hentry : ∀ e ∈ es, captureEntry e = .ok (Prod.map id f e) := fun e he ↦ by
    rw [captureEntry, h e he]
    rfl
  rw [capture_ofEntries, mapM_eq_ok hentry]
  rfl

/-- Plain data is captured as itself. -/
theorem capture_ofValue_of_plain {v : Value} (h : v.Plain) : capture (.ofValue v) = .ok v := by
  induction h with
  | null | bool | int | uint | float | text => rfl
  | @seq items _ ih =>
    rw [Datum.ofValue, capture, captureItems_ofItems, mapM_eq_ok ih, List.map_id']
    rfl
  | @map es hkeys _ ih =>
    rw [Datum.ofValue, capture_ofEntries_eq_ok (f := id) ih, Prod.map_id, List.map_id, ofEntries,
      Entries.ofList_of_sorted hkeys]

/-! ### What capturing once more comes to -/

/-- Whether a value is captured once more as another one: plain data that is written as the
document of the value in the order of its keys. -/
structure NormalisesTo (v w : Value) : Prop where
  capture_eq : capture (.ofValue v) = .ok w
  plain : w.Plain
  document : ∃ j, v.toJson = .ok j ∧ w.toJson = .ok j.inKeyOrder

/-- Whether a lambda that a value holds, and nothing else, stops it from being captured. -/
structure LambdaAlone (v : Value) : Prop where
  stops : v.HoldsLambda → capture (.ofValue v) = .error (.unwritable .lambda)
  alone : ¬ v.HoldsLambda → ∃ w, v.NormalisesTo w

/-- There is no third way to end. -/
theorem LambdaAlone.eq_error_or {v : Value} (h : LambdaAlone v) :
    capture (.ofValue v) = .error (.unwritable .lambda) ∨ ∃ w, capture (.ofValue v) = .ok w := by
  by_cases hlambda : v.HoldsLambda
  · exact .inl (h.stops hlambda)
  · obtain ⟨w, hw⟩ := h.alone hlambda
    exact .inr ⟨w, hw.capture_eq⟩

/-- A value that offers data is no lambda. -/
theorem ne_lambda_of_ofValue {v : Value} (h : ∀ e, Datum.ofValue v ≠ .failing e) (l : Lambda) :
    v ≠ .lambda l :=
  fun hl ↦ h (.unwritable .lambda) (hl ▸ rfl)

namespace LambdaAlone

variable {v : Value}

/-- A value without contents is not stopped if it is captured at all. -/
theorem of_contents_eq_nil {w : Value} (hcontents : v.contents = []) (h : v.NormalisesTo w) :
    LambdaAlone v where
  stops hv := by
    have hne : ∀ l, v ≠ .lambda l := fun l hl ↦ by
      rw [hl] at h
      cases h.capture_eq
    obtain ⟨x, hx, -⟩ := (holdsLambda_iff hne).1 hv
    exact absurd (hcontents ▸ hx) List.not_mem_nil
  alone _ := ⟨w, h⟩

/-- A value that is described as another one. -/
theorem of_described {w : Value} (hdatum : Datum.ofValue v = Datum.ofValue w)
    (hjson : v.toJson = w.toJson) (hlambda : v.HoldsLambda ↔ w.HoldsLambda) (h : LambdaAlone w) :
    LambdaAlone v where
  stops hv := hdatum ▸ h.stops (hlambda.1 hv)
  alone hv := by
    obtain ⟨x, hcapture, hplain, hdocument⟩ := h.alone fun hw ↦ hv (hlambda.2 hw)
    exact ⟨x, hdatum ▸ hcapture, hplain, hjson ▸ hdocument⟩

/-- A value that is described item by item. -/
theorem of_items {items : List Value} (hdatum : Datum.ofValue v = .sequence (Datum.ofItems items))
    (hjson : v.toJson = (itemsToJson items).map .array) (hcontents : v.contents = items)
    (h : ∀ w ∈ v.contents, LambdaAlone w) : LambdaAlone v := by
  have hlambda := holdsLambda_iff (ne_lambda_of_ofValue fun e he ↦ by cases hdatum.symm.trans he)
  rw [hcontents] at hlambda h
  refine ⟨fun hv ↦ ?_, fun hv ↦ ?_⟩
  · obtain ⟨w, hw, hwlambda⟩ := hlambda.1 hv
    rw [hdatum, capture, captureItems_ofItems,
      mapM_eq_error (fun w hw ↦ (h w hw).eq_error_or) ⟨w, hw, (h w hw).stops hwlambda⟩]
    rfl
  · have hitems : ∀ w ∈ items, ∃ x, w.NormalisesTo x := fun w hw ↦
      (h w hw).alone fun hwlambda ↦ hv (hlambda.2 ⟨w, hw, hwlambda⟩)
    choose! f hf using hitems
    choose! g hg using fun w hw ↦ (hf w hw).document
    have hdocument : itemsToJson items = .ok (items.map g) := by
      simpa only [List.map_id] using itemsToJson_map (f := id) fun w hw ↦ (hg w hw).1
    refine ⟨.seq (items.map f), ?_, .seq ?_, .array (items.map g), ?_, ?_⟩
    · rw [hdatum, capture, captureItems_ofItems, mapM_eq_ok fun w hw ↦ (hf w hw).capture_eq]
      rfl
    · exact List.forall_mem_map.2 fun w hw ↦ (hf w hw).plain
    · rw [hjson, hdocument]
      rfl
    · rw [toJson, itemsToJson_map fun w hw ↦ (hg w hw).2, Json.inKeyOrder,
        Json.itemsInKeyOrder_eq_map, List.map_map]
      rfl

/-- A value that is described entry by entry. -/
theorem of_entries {es : List (String × Value)}
    (hdatum : Datum.ofValue v = .mapping (Datum.ofEntries es))
    (hjson : v.toJson = (entriesToJson es).map .object) (hcontents : v.contents = es.map Prod.snd)
    (h : ∀ w ∈ v.contents, LambdaAlone w) : LambdaAlone v := by
  have hlambda := holdsLambda_iff (ne_lambda_of_ofValue fun e he ↦ by cases hdatum.symm.trans he)
  have hmem {e : String × Value} (he : e ∈ es) : e.2 ∈ v.contents :=
    hcontents ▸ List.mem_map_of_mem he
  refine ⟨fun hv ↦ ?_, fun hv ↦ ?_⟩
  · -- no entry fails for another reason, so the first that fails fails for its lambda
    obtain ⟨w, hw, hwlambda⟩ := hlambda.1 hv
    obtain ⟨e, he, rfl⟩ := List.mem_map.1 (hcontents ▸ hw)
    have hentry : captureEntry e = .error (.unwritable .lambda) := by
      rw [captureEntry, (h e.2 hw).stops hwlambda]
      rfl
    have hentries : ∀ e ∈ es,
        captureEntry e = .error (.unwritable .lambda) ∨ ∃ b, captureEntry e = .ok b := by
      intro e he
      rw [captureEntry]
      obtain herror | ⟨x, hx⟩ := (h e.2 (hmem he)).eq_error_or
      · exact .inl (by rw [herror]; rfl)
      · exact .inr ⟨(e.1, x), by rw [hx]; rfl⟩
    rw [hdatum, capture_ofEntries, mapM_eq_error hentries ⟨e, he, hentry⟩]
    rfl
  · have hvalues : ∀ w ∈ v.contents, ∃ x, w.NormalisesTo x := fun w hw ↦
      (h w hw).alone fun hwlambda ↦ hv (hlambda.2 ⟨w, hw, hwlambda⟩)
    -- `f` is what a value of an entry is captured as, and `g` its document
    choose! f hf using hvalues
    choose! g hg using fun w hw ↦ (hf w hw).document
    have hdocument : entriesToJson es = .ok (es.map (Prod.map id g)) := by
      simpa only [Prod.map_id, List.map_id] using
        entriesToJson_map (f := id) fun e he ↦ (hg e.2 (hmem he)).1
    have hbound : entriesToJson ((Entries.ofList es).map (Prod.map id f)) =
        .ok ((Entries.ofList es).map (Prod.map id fun w ↦ (g w).inKeyOrder)) :=
      entriesToJson_map fun e he ↦ (hg e.2 (hmem (Entries.mem_of_mem_ofList he))).2
    refine ⟨ofEntries (es.map (Prod.map id f)), ?_, .map (Entries.sorted_ofList _) fun e he ↦ ?_,
      .object (es.map (Prod.map id g)), ?_, ?_⟩
    · rw [hdatum, capture_ofEntries_eq_ok fun e he ↦ (hf e.2 (hmem he)).capture_eq]
    · obtain ⟨e, hes, rfl⟩ := List.mem_map.1 (Entries.mem_of_mem_ofList he)
      exact (hf e.2 (hmem hes)).plain
    · rw [hjson, hdocument]
      rfl
    · rw [ofEntries, toJson, ← Entries.map_ofList, hbound, Json.inKeyOrder,
        Json.membersInKeyOrder_eq_map, List.map_map, Entries.map_ofList]
      rfl

end LambdaAlone

/-- Whether the sealed objects that a value holds have a text. -/
def SealedHaveText (v : Value) : Prop :=
  ∀ i o, v.Holds (.object i o) → o.kind = .sealed → o.textForm ≠ .failing

/-- The condition on sealed objects goes down to the contents, as an induction over them asks. -/
theorem sealedHaveText_iff {v : Value} : v.SealedHaveText ↔
    (∀ i o, v = .object i o → o.kind = .sealed → o.textForm ≠ .failing) ∧
      ∀ w ∈ v.contents, w.SealedHaveText := by
  constructor
  · intro h
    exact ⟨fun i o hv ↦ h i o (hv ▸ .self _), fun w hw i o ho ↦ h i o (.content hw ho)⟩
  · rintro ⟨hself, hcontents⟩ i o ho
    cases ho with
    | self => exact hself i o rfl
    | content hw ho => exact hcontents _ hw i o ho

/-- An object of any kind, where it is so for all of its contents. -/
theorem lambdaAlone_object {i : Nat} {o : HostObject Value}
    (hsealed : o.kind = .sealed → o.textForm ≠ .failing)
    (h : ∀ w ∈ contents (.object i o), LambdaAlone w) : LambdaAlone (.object i o) := by
  rcases hkind : o.kind with - | - | - | - | -
  case record | map =>
    refine .of_entries ?_ ?_ (by rw [contents, hkind]) h
    · rw [Datum.ofValue, hkind, Datum.ofEntries_listed]
    · rw [toJson, hkind, entriesToJson_listed]
      rcases o.keys.mapM fun k ↦ memberToJson k (o.member k) with e | ms <;> rfl
  case seq =>
    exact .of_items (by rw [Datum.ofValue, hkind]) (by rw [toJson, hkind])
      (by rw [contents, hkind]) h
  case wrapper =>
    -- a null wrapper is captured as null, and any other as what it holds
    rcases hinner : o.inner? with - | v
    · refine .of_contents_eq_nil (w := .null) (by rw [contents, hkind, hinner]; rfl)
        ⟨?_, .null, .null, ?_, rfl⟩
      · rw [Datum.ofValue, hkind, hinner]
        rfl
      · rw [toJson, hkind, hinner]
        rfl
    · have hcontents : contents (.object i o) = [v] := by
        rw [contents, hkind, hinner]
        rfl
      have hlambda := holdsLambda_iff fun l (hl : object i o = .lambda l) ↦ by cases hl
      rw [hcontents] at hlambda h
      refine .of_described ?_ ?_ (by simpa using hlambda) (h v (List.mem_singleton_self v))
      · rw [Datum.ofValue, hkind, hinner]
        rfl
      · rw [toJson, hkind, hinner]
        rfl
  case sealed =>
    obtain ⟨t, ht⟩ := o.exists_ownText (hsealed hkind)
    refine .of_contents_eq_nil (w := .text t) (by rw [contents, hkind])
      ⟨?_, .text t, .text t, ?_, rfl⟩
    · rw [Datum.ofValue, hkind, ht]
      rfl
    · rw [toJson, hkind, ht]

/-- A lambda that it holds is what stops a value from being captured, if nothing sealed does. -/
theorem lambdaAlone (v : Value) (hsealed : v.SealedHaveText) : LambdaAlone v := by
  induction v using induction_on_contents with
  | h v ih =>
    have hcontents : ∀ w ∈ v.contents, LambdaAlone w := fun w hw ↦
      ih w hw ((sealedHaveText_iff.1 hsealed).2 w hw)
    cases v with
    | lambda l => exact ⟨fun _ ↦ rfl, fun hlambda ↦ absurd ⟨l, .self _⟩ hlambda⟩
    | object i o => exact lambdaAlone_object (hsealed i o (.self _)) hcontents
    | seq items => exact .of_items rfl rfl rfl hcontents
    | map es => exact .of_entries rfl rfl rfl hcontents
    | record r => exact .of_entries rfl rfl rfl hcontents
    | null | bool | int | uint | float | text =>
      exact .of_contents_eq_nil rfl ⟨rfl, by constructor, _, rfl, rfl⟩

end Value

/-- **Capturing once more normalises, and does so once.** A value whose sealed objects have a text
is captured once more unless it holds a lambda, which is what the capture then fails for. It comes
out as plain data, which is the value itself if that is plain already, which is captured as itself
from then on, and whose document is that of the value in the order of its keys. -/
theorem capturing_again_normalises (v : Value) (hsealed : v.SealedHaveText) :
    (v.HoldsLambda → Value.capture (.ofValue v) = .error (.unwritable .lambda)) ∧
    (¬ v.HoldsLambda → ∃ w, Value.capture (.ofValue v) = .ok w ∧ w.Plain ∧
      Value.capture (.ofValue w) = .ok w ∧ (w = v ↔ v.Plain) ∧
      ∃ j, v.toJson = .ok j ∧ w.toJson = .ok j.inKeyOrder) := by
  have halone := v.lambdaAlone hsealed
  refine ⟨halone.stops, fun hlambda ↦ ?_⟩
  obtain ⟨w, hcapture, hplain, hdocument⟩ := halone.alone hlambda
  refine ⟨w, hcapture, hplain, Value.capture_ofValue_of_plain hplain, ⟨fun hw ↦ ?_, fun hv ↦ ?_⟩,
    hdocument⟩
  · exact hw ▸ hplain
  · exact Except.ok.inj (hcapture.symm.trans (Value.capture_ofValue_of_plain hv))

/-- A record with two fields of one name and a sealed object behind a wrapper. -/
def crate : Value :=
  let stamp := { HostObject.blank .sealed "" with textForm := .own "top" }
  let mark := { HostObject.blank .wrapper "" with inner? := some (Value.object 1 stamp) }
  .record ⟨"Crate", [("size", .int 1), ("mark", .object 0 mark), ("size", .seq [])]⟩

example : Value.capture (.ofValue crate) = .ok (.map [("mark", .text "top"), ("size", .seq [])]) :=
  rfl

/-- The crate comes out as plain data, and not beside a lambda. -/
theorem capturing_again_normalises_of_crate :
    let stopped : Value := .seq [crate, .lambda ⟨0, fun _ ↦ .answer ""⟩]
    crate.SealedHaveText ∧ ¬ crate.HoldsLambda ∧
      (∃ w, Value.capture (.ofValue crate) = .ok w ∧ w.Plain ∧
        Value.capture (.ofValue w) = .ok w) ∧
      stopped.SealedHaveText ∧ stopped.HoldsLambda ∧
      Value.capture (.ofValue stopped) = .error (.unwritable .lambda) := by
  intro stopped
  have hempty (v : Value) (hv : ∀ i o, v ≠ .object i o) (hcontents : v.contents = []) :
      v.SealedHaveText :=
    Value.sealedHaveText_iff.2
      ⟨fun i o h ↦ absurd h (hv i o), fun w hw ↦ absurd (hcontents ▸ hw) List.not_mem_nil⟩
  have hcrate : crate.SealedHaveText := by
    refine Value.sealedHaveText_iff.2 ⟨fun i o h ↦ (by cases h), List.forall_mem_cons.2
      ⟨?_, List.forall_mem_cons.2 ⟨?_, List.forall_mem_singleton.2 ?_⟩⟩⟩
    · exact hempty _ (fun i o h ↦ by cases h) rfl
    · refine Value.sealedHaveText_iff.2
        ⟨fun i o h hkind ↦ (by cases h; cases hkind), List.forall_mem_singleton.2 ?_⟩
      exact Value.sealedHaveText_iff.2
        ⟨fun i o h _ ↦ (by cases h; decide), fun w hw ↦ absurd hw List.not_mem_nil⟩
    · exact hempty _ (fun i o h ↦ by cases h) rfl
  have hstopped : stopped.SealedHaveText := by
    refine Value.sealedHaveText_iff.2 ⟨fun i o h ↦ (by simp [stopped] at h), List.forall_mem_cons.2
      ⟨hcrate, List.forall_mem_singleton.2 ?_⟩⟩
    exact hempty _ (fun i o h ↦ by cases h) rfl
  have hlambda : ¬ crate.HoldsLambda := fun h ↦ by
    cases (capturing_again_normalises crate hcrate).1 h
  obtain ⟨w, hcapture, hplain, hagain, -⟩ := (capturing_again_normalises crate hcrate).2 hlambda
  have hholds : stopped.HoldsLambda :=
    ⟨_, .content (List.mem_cons_of_mem _ List.mem_cons_self) (.self _)⟩
  exact ⟨hcrate, hlambda, ⟨w, hcapture, hplain, hagain⟩, hstopped, hholds,
    (capturing_again_normalises stopped hstopped).1 hholds⟩

end Mustache
