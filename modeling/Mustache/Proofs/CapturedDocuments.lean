import Mathlib.Data.List.Forall2
import Mustache.Proofs.Interchange
import Mustache.Value.Capture
import Mustache.Value.Document

/-!
# Documents as values, in two ways

A JSON document becomes a value directly (`Value.ofJson`), or by describing itself as host data that
is captured (`Datum.ofJson`, `Value.capture`). The values differ: an integer that is not negative is
a signed one in the first way, as long as it fits, and always an unsigned one in the second.

The difference does not show. A value with integers of the other type in it (`Value.Retyped`) has
the same document and the same text, is as empty, and has for every name a value that differs as
little, so it can stand for the other in any rendering (`Value.Retyped.interchangeable`). Capturing
a document never fails, and what is captured is such a value (`captured_documents_render_alike`).
-/

namespace Mustache

namespace Datum

mutual

/-- The description of a JSON document. Integers are described as unsigned unless they are
negative. -/
def ofJson : Json → Datum
  | .null => .unit
  | .bool b => .bool b
  | .whole n => if 0 ≤ n.val then .uint (.ofNat n.val.toNat) else .int (.ofInt n.val)
  | .float x => .float x
  | .text t => .text t
  | .array items => .sequence (ofJsonItems items)
  | .object members => .mapping (ofJsonMembers members)
termination_by structural j => j

def ofJsonItems : List Json → List Datum
  | [] => []
  | j :: items => ofJson j :: ofJsonItems items
termination_by structural items => items

def ofJsonMembers : List (String × Json) → List (MapStep Datum)
  | [] => []
  | (k, j) :: members => .entry (.text k) (ofJson j) :: ofJsonMembers members
termination_by structural members => members

end

end Datum

/-! ### Integers of the other type -/

/-- Whether a value is another one in which signed integers may have become unsigned ones, at any
depth. -/
inductive Value.Retyped : Value → Value → Prop
  | refl (v : Value) : Retyped v v
  | integer {n : Int64} {m : UInt64} (h : n.toInt = m.toNat) : Retyped (.int n) (.uint m)
  | seq {items items' : List Value} (h : List.Forall₂ Retyped items items') :
      Retyped (.seq items) (.seq items')
  | map {es es' : List (String × Value)} (hkeys : es.map Prod.fst = es'.map Prod.fst)
      (h : List.Forall₂ Retyped (es.map Prod.snd) (es'.map Prod.snd)) : Retyped (.map es) (.map es')

namespace Value

/-- Whether entries have the same keys, in the same order, and values that are retyped at most. -/
def EntriesRetyped : List (String × Value) → List (String × Value) → Prop :=
  List.Forall₂ fun e e' ↦ e.1 = e'.1 ∧ e.2.Retyped e'.2

namespace Retyped

variable {v w : Value}

theorem map_of_entries {es es' : List (String × Value)} (h : EntriesRetyped es es') :
    Retyped (.map es) (.map es') := by
  refine .map ?_ ?_
  · rw [← List.forall₂_eq_eq_eq, List.forall₂_map_left_iff, List.forall₂_map_right_iff]
    exact h.imp fun _ _ he ↦ he.1
  · rw [List.forall₂_map_left_iff, List.forall₂_map_right_iff]
    exact h.imp fun _ _ he ↦ he.2

theorem eq_seq {items' : List Value} (h : Retyped v (.seq items')) :
    ∃ items, v = .seq items ∧ List.Forall₂ Retyped items items' := by
  cases h with
  | refl => exact ⟨items', rfl, List.forall₂_same.2 fun v _ ↦ .refl v⟩
  | seq h => exact ⟨_, rfl, h⟩

theorem eq_map {es' : List (String × Value)} (h : Retyped v (.map es')) :
    ∃ es, v = .map es ∧ EntriesRetyped es es' := by
  cases h with
  | refl => exact ⟨es', rfl, List.forall₂_same.2 fun e _ ↦ ⟨rfl, .refl e.2⟩⟩
  | map hkeys h => exact ⟨_, rfl, forall₂_entries hkeys h⟩

end Retyped

/-! ### Answers -/

mutual

/-- A retyped value has the same document. -/
theorem Retyped.toJson_eq {v w : Value} (h : Retyped v w) : v.toJson = w.toJson := by
  match w with
  | .seq items' =>
    obtain ⟨items, rfl, hitems⟩ := h.eq_seq
    rw [toJson, toJson, itemsToJson_retyped hitems]
  | .map es' =>
    obtain ⟨es, rfl, hes⟩ := h.eq_map
    rw [toJson, toJson, entriesToJson_retyped hes]
  | .uint m =>
    cases h with
    | refl => rfl
    | integer hint =>
      rw [toJson, toJson, Whole.ofInt64, Whole.ofUInt64]
      simp only [hint]
  | .null | .bool _ | .int _ | .float _ | .text _ | .record _ | .object _ _ | .lambda _ =>
    cases h; rfl
termination_by structural w

theorem itemsToJson_retyped {items items' : List Value} (h : List.Forall₂ Retyped items items') :
    itemsToJson items = itemsToJson items' := by
  match items' with
  | [] =>
    obtain rfl := List.forall₂_nil_right_iff.1 h
    rfl
  | w :: items' =>
    obtain ⟨v, items, hv, hitems, rfl⟩ := List.forall₂_cons_right_iff.1 h
    rw [itemsToJson, itemsToJson, hv.toJson_eq, itemsToJson_retyped hitems]
termination_by structural items'

theorem entriesToJson_retyped {es es' : List (String × Value)} (h : EntriesRetyped es es') :
    entriesToJson es = entriesToJson es' := by
  match es' with
  | [] =>
    obtain rfl := List.forall₂_nil_right_iff.1 h
    rfl
  | (k, w) :: es' =>
    obtain ⟨⟨_, v⟩, es, ⟨rfl, hv⟩, hes, rfl⟩ := List.forall₂_cons_right_iff.1 h
    rw [entriesToJson, entriesToJson, Retyped.toJson_eq (w := w) hv, entriesToJson_retyped hes]
termination_by structural es'

end

namespace Retyped

variable {v w : Value}

/-- A retyped value has the same text. -/
theorem shown?_eq (h : Retyped v w) : v.shown? = w.shown? := by
  have hjson := h.toJson_eq
  cases h with
  | refl => rfl
  | integer hint => rw [shown?, shown?, hint]; rfl
  | seq | map => rw [shown?, shown?, hjson]

/-- A retyped value is as empty. -/
theorem isEmpty_eq (h : Retyped v w) : isEmpty (some v) = isEmpty (some w) := by
  cases h with
  | refl | map => rfl
  | @integer n m hint =>
    have hzero : n = 0 ↔ m = 0 := by
      rw [← Int64.toInt_inj, ← UInt64.toNat_inj, hint]
      exact Int.natCast_eq_zero
    show (n == 0) = (m == 0)
    rw [Bool.eq_iff_iff, beq_iff_eq, beq_iff_eq]
    exact hzero
  | seq hitems => exact isEmpty_eq_of_forall₂ hitems

/-- A section goes about a retyped value as it does about the other. -/
theorem visit (h : Retyped v w) (inverted : Bool) {chain chain' : List Value}
    (hchain : List.Forall₂ Retyped chain chain') :
    (Value.visit inverted (some v)).Paired (List.Forall₂ Retyped) Eq chain chain'
      (Value.visit inverted (some w)) := by
  have hscopes {items items' : List Value} (hitems : List.Forall₂ Retyped items items') :
      List.Forall₂ (fun v w ↦ List.Forall₂ Retyped (v :: chain) (w :: chain')) items items' :=
    hitems.imp fun _ _ hv ↦ .cons hv hchain
  have hone := hscopes (.cons h .nil)
  have hempty := h.isEmpty_eq
  cases h with
  | refl =>
    exact Visit.paired (fun v ↦ .cons (.refl v) hchain) (forall₂_head_append hchain) (fun _ ↦ rfl) _
  | integer | map =>
    rw [Value.visit, Value.visit, hempty]
    split
    · exact .entering .nil
    split
    · exact .staying (forall₂_head_append hchain)
    · exact .entering hone
  | seq hitems =>
    rw [Value.visit, Value.visit, hempty]
    split
    · exact .entering .nil
    split
    · exact .staying (forall₂_head_append hchain)
    · exact .entering (hscopes hitems)

/-- A retyped value has the same for a segment, retyped perhaps. -/
theorem get? (h : Retyped v w) (segment : String) :
    Search.Alike (Option.Rel Retyped) (v.get? segment) (w.get? segment) := by
  have hself : Option.Rel Retyped (some v) (some w) := .some h
  cases h with
  | refl => exact .refl (optionRel_refl .refl) _
  | map hkeys hvalues =>
    rw [Value.get?, Value.get?]
    split
    · exact ⟨rfl, hself⟩
    · exact ⟨rfl, optionRel_lookup (forall₂_entries hkeys hvalues) segment⟩
  | integer | seq =>
    show Search.Alike _ (.silent (if segment = "." then _ else _))
      (.silent (if segment = "." then _ else _))
    split
    · exact ⟨rfl, hself⟩
    · exact ⟨rfl, .none⟩

/-- A rendering cannot tell the types of integers apart. -/
theorem interchangeable : Interchangeable Retyped where
  toJson_eq := toJson_eq
  shown?_eq := shown?_eq
  visit := visit
  get? := get?

end Retyped

/-! ### Documents -/

/-- Entries that correspond still do with corresponding values put in under a key. -/
theorem EntriesRetyped.insert {es es' : List (String × Value)} (h : EntriesRetyped es es')
    (key : String) {v w : Value} (hv : Retyped v w) :
    EntriesRetyped (Entries.insert key v es) (Entries.insert key w es') := by
  induction h with
  | nil => exact .cons ⟨rfl, hv⟩ .nil
  | @cons e e' es es' he hes ih =>
    rw [Entries.insert, Entries.insert, he.1]
    split
    · exact .cons ⟨rfl, hv⟩ (.cons he hes)
    split
    · exact .cons ⟨rfl, hv⟩ hes
    · exact .cons he ih

/-- A whole number is captured as the number it is converted to, of one kind of numbers or the
other. -/
theorem capture_whole (n : Whole) :
    ∃ v, capture (Datum.ofJson (.whole n)) = .ok v ∧ Retyped (ofWhole n) v := by
  have hge := n.ge
  have hlt := n.lt
  rw [Datum.ofJson, ofWhole]
  by_cases hneg : n.val < 0
  · rw [if_neg (by omega), if_pos (by omega)]
    exact ⟨_, rfl, .refl _⟩
  · rw [if_pos (by omega)]
    refine ⟨_, rfl, ?_⟩
    split
    · refine .integer ?_
      have hsize : n.val.toNat < UInt64.size := by rw [UInt64.size]; omega
      rw [Int64.toInt_ofInt_of_le (by omega) (by omega), UInt64.toNat_ofNat_of_lt' hsize]
      omega
    · exact .refl _

mutual

/-- A document is captured as its value, retyped perhaps. -/
theorem capture_ofJson : ∀ j : Json, ∃ v, capture (Datum.ofJson j) = .ok v ∧ Retyped (ofJson j) v
  | .null => ⟨_, rfl, .refl _⟩
  | .bool _ => ⟨_, rfl, .refl _⟩
  | .float _ => ⟨_, rfl, .refl _⟩
  | .text _ => ⟨_, rfl, .refl _⟩
  | .whole n => capture_whole n
  | .array items => by
    obtain ⟨vs, hcapture, hvs⟩ := captureItems_ofJson items
    refine ⟨.seq vs, ?_, .seq hvs⟩
    rw [Datum.ofJson, capture, hcapture]
    rfl
  | .object members => by
    obtain ⟨es, hcapture, hes⟩ := captureSteps_ofJson members .nil
    refine ⟨.map es, ?_, .map_of_entries hes⟩
    rw [Datum.ofJson, capture, hcapture]
    rfl
termination_by structural j => j

theorem captureItems_ofJson : ∀ items : List Json,
    ∃ vs, captureItems (Datum.ofJsonItems items) = .ok vs ∧
      List.Forall₂ Retyped (ofJsonItems items) vs
  | [] => ⟨[], rfl, .nil⟩
  | j :: items => by
    obtain ⟨v, hcapture, hv⟩ := capture_ofJson j
    obtain ⟨vs, hcaptures, hvs⟩ := captureItems_ofJson items
    refine ⟨v :: vs, ?_, .cons hv hvs⟩
    rw [Datum.ofJsonItems, captureItems, hcapture, hcaptures]
    rfl
termination_by structural items => items

/-- The members of a document are bound one after the other in both ways. -/
theorem captureSteps_ofJson :
    ∀ (members : List (String × Json)) {bound bound' : List (String × Value)},
      EntriesRetyped bound bound' →
      ∃ es, captureSteps none bound' (Datum.ofJsonMembers members) = .ok es ∧
        EntriesRetyped
          ((ofJsonMembers members).foldl (fun bound e ↦ Entries.insert e.1 e.2 bound) bound) es
  | [], _, bound', h => ⟨bound', rfl, h⟩
  | (k, j) :: members, _, _, h => by
    obtain ⟨v, hcapture, hv⟩ := capture_ofJson j
    obtain ⟨es, hcaptures, hes⟩ := captureSteps_ofJson members (h.insert k hv)
    refine ⟨es, ?_, hes⟩
    rw [Datum.ofJsonMembers, captureSteps, hcapture]
    exact hcaptures
termination_by structural members => members

end

end Value

/-- **Documents render alike in both ways.** A JSON document that describes itself is captured, and
a template renders the same, to the last notice, with what is captured in the contexts as with the
value of the document in its place. Values have to be shown as they are or as JSON. -/
theorem captured_documents_render_alike (j : Json) :
    ∃ v, Value.capture (Datum.ofJson j) = .ok v ∧
      ∀ (t : Template) (files : FileTree) (before behind : List Value),
        t.compiler.stringer? = none ∨ t.compiler.stringer? = some .json →
        t.run files (before ++ Value.ofJson j :: behind) = t.run files (before ++ v :: behind) := by
  obtain ⟨v, hcapture, hv⟩ := Value.capture_ofJson j
  have hsame (vs : List Value) : List.Forall₂ Value.Retyped vs vs :=
    List.forall₂_same.2 fun v _ ↦ .refl v
  refine ⟨v, hcapture, fun t files before behind hstringer ↦ ?_⟩
  exact Value.Retyped.interchangeable.run_eq t hstringer files
    (List.rel_append (hsame before) (.cons hv (hsame behind)))

/-- The integers of a captured document are unsigned where those of its value are not. -/
theorem captured_documents_render_alike_of_counts :
    let j : Json := .object [("n", .array [.whole (.ofInt64 7), .whole (.ofInt64 (-7))])]
    let t : Template := ⟨⟨[.interpolation "n" true], .standard⟩, .standard⟩
    Value.ofJson j = .map [("n", .seq [.int 7, .int (-7)])] ∧
      Value.capture (Datum.ofJson j) = .ok (.map [("n", .seq [.uint 7, .int (-7)])]) ∧
      t.compiler.stringer? = none ∧
      t.run .empty [.map [("n", .seq [.int 7, .int (-7)])]] =
        t.run .empty [.map [("n", .seq [.uint 7, .int (-7)])]] := by
  intro j t
  have hcapture : Value.capture (Datum.ofJson j) = .ok (.map [("n", .seq [.uint 7, .int (-7)])]) :=
    rfl
  obtain ⟨v, hv, hrun⟩ := captured_documents_render_alike j
  obtain rfl := Except.ok.inj (hcapture.symm.trans hv)
  exact ⟨rfl, hcapture, rfl, hrun t .empty [] [] (.inl rfl)⟩

end Mustache
