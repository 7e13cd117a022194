import Mustache.Compiler
import Mustache.Value.Document

/-!
# Documents kept in values

A JSON document that has become a value is still there: written as JSON again, the value is the
document, with the members of its objects in the order of their keys and of several members with
one key the last one (`Json.inKeyOrder`). This is the form that documents have once they are read.

What is inside the document is in the same place inside the value (`Value.at?_ofJson`, by paths of
places and keys), so what is said of one number is said of the numbers at any depth: whole numbers
keep their value, as signed integers as far as these reach, and floats keep their bits.
-/

namespace Mustache

namespace Json

/-! ### The order of members -/

mutual

/-- The document with the members of every object in the order of their keys, and of several
members with one key the last one alone. -/
def inKeyOrder : Json → Json
  | .array items => .array (itemsInKeyOrder items)
  | .object members => ofMembers (membersInKeyOrder members)
  | j => j
termination_by structural j => j

def itemsInKeyOrder : List Json → List Json
  | [] => []
  | j :: items => j.inKeyOrder :: itemsInKeyOrder items
termination_by structural items => items

def membersInKeyOrder : List (String × Json) → List (String × Json)
  | [] => []
  | (k, j) :: members => (k, j.inKeyOrder) :: membersInKeyOrder members
termination_by structural members => members

end

/-- Items keep their places; only the members inside are ordered. -/
theorem itemsInKeyOrder_eq_map (items : List Json) :
    itemsInKeyOrder items = items.map inKeyOrder := by
  induction items with
  | nil => rfl
  | cons j items ih => rw [itemsInKeyOrder, ih, List.map_cons]

/-- Each value is ordered where it is; the members themselves are not moved by this. -/
theorem membersInKeyOrder_eq_map (members : List (String × Json)) :
    membersInKeyOrder members = members.map (Prod.map id inKeyOrder) := by
  induction members with
  | nil => rfl
  | cons m members ih => rw [membersInKeyOrder, ih, List.map_cons]; rfl

/-- Documents whose objects have their members in the order of their keys, one for each key. -/
inductive Ordered : Json → Prop
  | null : Ordered .null
  | bool (b : Bool) : Ordered (.bool b)
  | whole (n : Whole) : Ordered (.whole n)
  | float (x : Binary64) : Ordered (.float x)
  | text (t : String) : Ordered (.text t)
  | array {items : List Json} (h : ∀ j ∈ items, Ordered j) : Ordered (.array items)
  | object {members : List (String × Json)} (hkeys : Entries.Sorted members)
    (h : ∀ m ∈ members, Ordered m.2) : Ordered (.object members)

mutual

/-- Putting a document in order puts it in order at every depth. -/
theorem ordered_inKeyOrder : ∀ j : Json, j.inKeyOrder.Ordered
  | .array items => .array (ordered_itemsInKeyOrder items)
  | .object members =>
    .object (Entries.sorted_ofList _) fun m hm ↦
      ordered_membersInKeyOrder members m (Entries.mem_of_mem_ofList hm)
  | .null => .null
  | .bool b => .bool b
  | .whole n => .whole n
  | .float x => .float x
  | .text t => .text t
termination_by structural j => j

theorem ordered_itemsInKeyOrder : ∀ items : List Json, ∀ j ∈ itemsInKeyOrder items, j.Ordered
  | [] => fun _ hj ↦ absurd hj List.not_mem_nil
  | j :: items => List.forall_mem_cons.2 ⟨ordered_inKeyOrder j, ordered_itemsInKeyOrder items⟩
termination_by structural items => items

theorem ordered_membersInKeyOrder :
    ∀ members : List (String × Json), ∀ m ∈ membersInKeyOrder members, m.2.Ordered
  | [] => fun _ hm ↦ absurd hm List.not_mem_nil
  | (_, j) :: members =>
    List.forall_mem_cons.2 ⟨ordered_inKeyOrder j, ordered_membersInKeyOrder members⟩
termination_by structural members => members

end

/-- A document in order stays as it is. -/
theorem inKeyOrder_of_ordered {j : Json} (h : j.Ordered) : j.inKeyOrder = j := by
  induction h with
  | null | bool | whole | float | text => rfl
  | @array items _ ih =>
    rw [inKeyOrder, itemsInKeyOrder_eq_map, List.map_congr_left ih, List.map_id']
  | @object members hkeys _ ih =>
    have hmembers : members.map (Prod.map id inKeyOrder) = members.map id :=
      List.map_congr_left fun m hm ↦ Prod.ext rfl (ih m hm)
    rw [inKeyOrder, membersInKeyOrder_eq_map, hmembers, List.map_id, ofMembers,
      Entries.ofList_of_sorted hkeys]

/-! ### Inside a document -/

/-- A step into a document. -/
inductive Step
  /-- To the item in this place of an array. -/
  | item (n : Nat)
  /-- To the member with this key of an object. -/
  | member (key : String)

/-- What a step leads to; of several members with one key, to the last one. -/
def step? : Step → Json → Option Json
  | .item n, .array items => items[n]?
  | .member k, .object members => members.reverse.lookup k
  | _, _ => none

/-- What a path leads to. -/
def at? : List Step → Json → Option Json
  | [], j => some j
  | s :: path, j => (j.step? s).bind (at? path)

/-- A step into the ordered document leads to what it leads to in the document, ordered. -/
theorem step?_inKeyOrder (s : Step) (j : Json) :
    j.inKeyOrder.step? s = (j.step? s).map inKeyOrder := by
  cases s with
  | item n =>
    cases j with
    | array items => rw [inKeyOrder, step?, step?, itemsInKeyOrder_eq_map, List.getElem?_map]
    | _ => rfl
  | member k =>
    cases j with
    | object members =>
      rw [inKeyOrder, ofMembers, step?, step?,
        Entries.lookup_reverse_of_sorted (Entries.sorted_ofList _), Entries.lookup_ofList,
        membersInKeyOrder_eq_map, ← List.map_reverse, Entries.lookup_map]
    | _ => rfl

/-- A document in the order of its keys has the same in every place, in the order of its keys. -/
theorem at?_inKeyOrder (path : List Step) (j : Json) :
    j.inKeyOrder.at? path = (j.at? path).map inKeyOrder := by
  induction path generalizing j with
  | nil => rfl
  | cons s path ih =>
    rw [at?, at?, step?_inKeyOrder]
    cases j.step? s with
    | none => rfl
    | some k => exact ih k

end Json

namespace Value

/-! ### Inside a value -/

/-- What a step into a document leads to in the value of the document. -/
def step? : Json.Step → Value → Option Value
  | .item n, .seq items => items[n]?
  | .member k, .map entries => entries.lookup k
  | _, _ => none

/-- What a path into a document leads to in the value of the document. -/
def at? : List Json.Step → Value → Option Value
  | [], v => some v
  | s :: path, v => (v.step? s).bind (at? path)

/-- There is nothing inside a whole number. -/
theorem step?_ofWhole (s : Json.Step) (n : Whole) : (ofWhole n).step? s = none := by
  rw [ofWhole]
  cases s <;> split <;> rfl

/-- And one step into the value finds the value of what it finds in the document. -/
theorem step?_ofJson (s : Json.Step) (j : Json) :
    (ofJson j).step? s = (j.step? s).map ofJson := by
  cases s with
  | item n =>
    cases j with
    | array items => rw [ofJson, step?, Json.step?, ofJsonItems_eq_map, List.getElem?_map]
    | whole n => exact step?_ofWhole _ n
    | _ => rfl
  | member k =>
    cases j with
    | object members =>
      rw [ofJson, ofEntries, step?, Json.step?, Entries.lookup_ofList, ofJsonMembers_eq_map,
        ← List.map_reverse, Entries.lookup_map]
    | whole n => exact step?_ofWhole _ n
    | _ => rfl

/-- What is inside a document is in the same place inside its value. -/
theorem at?_ofJson (path : List Json.Step) (j : Json) :
    (ofJson j).at? path = (j.at? path).map ofJson := by
  induction path generalizing j with
  | nil => rfl
  | cons s path ih =>
    rw [at?, Json.at?, step?_ofJson]
    cases j.step? s with
    | none => rfl
    | some k => exact ih k

/-! ### Numbers -/

/-- A whole number that a signed integer can have is one. -/
theorem ofWhole_of_lt {n : Whole} (h : n.val < 0x8000000000000000) :
    ∃ i : Int64, ofWhole n = .int i ∧ i.toInt = n.val := by
  have hge := n.ge
  refine ⟨.ofInt n.val, by rw [ofWhole, if_pos h], Int64.toInt_ofInt_of_le ?_ ?_⟩
  · omega
  · omega

/-- A whole number that no signed integer can have is an unsigned one. -/
theorem ofWhole_of_le {n : Whole} (h : 0x8000000000000000 ≤ n.val) :
    ∃ u : UInt64, ofWhole n = .uint u ∧ (u.toNat : Int) = n.val := by
  have hlt := n.lt
  have hsize : n.val.toNat < UInt64.size := by rw [UInt64.size]; omega
  refine ⟨.ofNat n.val.toNat, by rw [ofWhole, if_neg (Int.not_lt.2 h)], ?_⟩
  rw [UInt64.toNat_ofNat_of_lt' hsize]
  omega

/-- A whole number is written as itself, whichever of the two kinds of numbers holds it. -/
theorem toJson_ofWhole (n : Whole) : (ofWhole n).toJson = .ok (.whole n) := by
  obtain h | h := Int.lt_or_le n.val 0x8000000000000000
  · obtain ⟨i, heq, hval⟩ := ofWhole_of_lt h
    rw [heq, toJson, Whole.ofInt64]
    simp only [hval]
  · obtain ⟨u, heq, hval⟩ := ofWhole_of_le h
    rw [heq, toJson, Whole.ofUInt64]
    simp only [hval]

/-! ### Documents -/

/-- If every item has a document, the list has the list of these. -/
theorem itemsToJson_map {α : Type} {f : α → Value} {g : α → Json} {as : List α}
    (h : ∀ a ∈ as, (f a).toJson = .ok (g a)) : itemsToJson (as.map f) = .ok (as.map g) := by
  induction as with
  | nil => rfl
  | cons a as ih =>
    obtain ⟨ha, has⟩ := List.forall_mem_cons.1 h
    rw [List.map_cons, itemsToJson, ha, ih has]
    rfl

/-- If every value has a document, the entries have these under their keys. -/
theorem entriesToJson_map {α : Type} {f : α → Value} {g : α → Json} {es : List (String × α)}
    (h : ∀ e ∈ es, (f e.2).toJson = .ok (g e.2)) :
    entriesToJson (es.map (Prod.map id f)) = .ok (es.map (Prod.map id g)) := by
  induction es with
  | nil => rfl
  | cons e es ih =>
    obtain ⟨he, hes⟩ := List.forall_mem_cons.1 h
    rw [List.map_cons, Prod.map, entriesToJson, he, ih hes]
    rfl

mutual

/-- The value of a document is written as the document in the order of its keys. -/
theorem toJson_ofJson : ∀ j : Json, (ofJson j).toJson = .ok j.inKeyOrder
  | .array items => by
    rw [ofJson, toJson, ofJsonItems_eq_map, itemsToJson_map (toJson_ofJson_item items),
      Json.inKeyOrder, Json.itemsInKeyOrder_eq_map]
    rfl
  | .object members => by
    have hmembers : ∀ m ∈ Entries.ofList members, (ofJson m.2).toJson = .ok m.2.inKeyOrder :=
      fun m hm ↦ toJson_ofJson_member members m (Entries.mem_of_mem_ofList hm)
    rw [ofJson, ofEntries, toJson, ofJsonMembers_eq_map, ← Entries.map_ofList,
      entriesToJson_map hmembers, Entries.map_ofList, Json.inKeyOrder,
      Json.membersInKeyOrder_eq_map]
    rfl
  | .whole n => toJson_ofWhole n
  | .null | .bool _ | .float _ | .text _ => rfl
termination_by structural j => j

theorem toJson_ofJson_item :
    ∀ items : List Json, ∀ j ∈ items, (ofJson j).toJson = .ok j.inKeyOrder
  | [] => fun _ hj ↦ absurd hj List.not_mem_nil
  | j :: items => List.forall_mem_cons.2 ⟨toJson_ofJson j, toJson_ofJson_item items⟩
termination_by structural items => items

theorem toJson_ofJson_member :
    ∀ members : List (String × Json), ∀ m ∈ members, (ofJson m.2).toJson = .ok m.2.inKeyOrder
  | [] => fun _ hm ↦ absurd hm List.not_mem_nil
  | (_, j) :: members => List.forall_mem_cons.2 ⟨toJson_ofJson j, toJson_ofJson_member members⟩
termination_by structural members => members

end

end Value

/-- **Documents are kept without loss.** The value of a document is written as the compact text of
the document in the order of its keys, which is the document itself if it is in that order, and has
everything else in the same place. At any depth, whole numbers keep their value, as signed integers
as far as these reach and as unsigned ones above, and floats keep their bits. -/
theorem documents_kept_without_loss (j : Json) :
    Stringer.json (Value.ofJson j) = .ok j.inKeyOrder.write ∧
    (j.inKeyOrder.Ordered ∧ (j.Ordered → j.inKeyOrder = j) ∧
      ∀ path, j.inKeyOrder.at? path = (j.at? path).map Json.inKeyOrder) ∧
    (∀ path n, j.at? path = some (.whole n) →
      (n.val < 0x8000000000000000 →
        ∃ i : Int64, (Value.ofJson j).at? path = some (.int i) ∧ i.toInt = n.val) ∧
      (0x8000000000000000 ≤ n.val →
        ∃ u : UInt64, (Value.ofJson j).at? path = some (.uint u) ∧ (u.toNat : Int) = n.val)) ∧
    ∀ path x, j.at? path = some (.float x) → (Value.ofJson j).at? path = some (.float x) := by
  refine ⟨?_, ⟨j.ordered_inKeyOrder, Json.inKeyOrder_of_ordered, (j.at?_inKeyOrder ·)⟩,
    fun path n hn ↦ ?_, fun path x hx ↦ ?_⟩
  · rw [Stringer.json, Value.toJson_ofJson]
  · rw [Value.at?_ofJson, hn, Option.map_some, Value.ofJson]
    constructor
    · intro hlt
      obtain ⟨i, heq, hval⟩ := Value.ofWhole_of_lt hlt
      exact ⟨i, congrArg some heq, hval⟩
    · intro hle
      obtain ⟨u, heq, hval⟩ := Value.ofWhole_of_le hle
      exact ⟨u, congrArg some heq, hval⟩
  · rw [Value.at?_ofJson, hx, Option.map_some, Value.ofJson]

/-- An object with a key that comes twice, the second time for a list with the first whole number
that is no signed integer. -/
def borderDocument : Json :=
  .object [("n", .null),
    ("n", .array [.whole (.ofInt64 (-7)), .whole (.ofUInt64 0x8000000000000000)]),
    ("a", .text "x")]

example : borderDocument.inKeyOrder.write =
    "\x7b\"a\":\"x\",\"n\":[-7,9223372036854775808]\x7d" := by decide +kernel

/-- The first whole number that needs 64 bits without a sign, under a key that comes twice. -/
theorem documents_kept_without_loss_of_border :
    let big : Whole := .ofUInt64 0x8000000000000000
    let path : List Json.Step := [.member "n", .item 1]
    Stringer.json (Value.ofJson borderDocument) = .ok borderDocument.inKeyOrder.write ∧
      borderDocument.at? path = some (.whole big) ∧ 0x8000000000000000 ≤ big.val ∧
      ∃ u : UInt64, (Value.ofJson borderDocument).at? path = some (.uint u) ∧
        (u.toNat : Int) = big.val := by
  intro big path
  obtain ⟨htext, -, hwhole, -⟩ := documents_kept_without_loss borderDocument
  have hbig : borderDocument.at? path = some (.whole big) := rfl
  have hle : 0x8000000000000000 ≤ big.val := by decide
  exact ⟨htext, hbig, hle, (hwhole path big hbig).2 hle⟩

end Mustache
