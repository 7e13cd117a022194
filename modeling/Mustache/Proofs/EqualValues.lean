import Mathlib.Data.List.Forall2
import Mustache.Proofs.Recapture

/-!
# Equal values

Equality of values is a partial equivalence: it can be turned round, it can be chained, and the
values that are equal to themselves are those that hold no NaN (`equality_is_partial_equivalence`).

It compares kind by kind and goes one level down at a time. `Value.Matches R` is one such level,
with `R` for what is asked of items, of the values of a mapping and of fields, and a value equals
another one exactly when the two match by equality itself (`Value.equal_iff_matches`). What is shown
of equality is shown of one level first, and then of all levels by going down the contents of the
value on the left.

Objects and lambdas are where this ends. They match by their identity alone, so a NaN among the
items of an object or behind a wrapper does no harm: such a NaN is not held (`Value.HoldsNaN`).
-/

namespace Mustache

/-! ### Floats -/

namespace Binary64

variable {x y z : Binary64}

/-- Equal numbers have the same bits or are the two zeros, and neither is a NaN. -/
theorem equal_iff :
    x.equal y ↔ (x.isNaN = false ∧ y.isNaN = false) ∧ (x = y ∨ x.isAnyZero ∧ y.isAnyZero) := by
  simp [equal]

theorem equal_symm (h : x.equal y) : y.equal x := by
  rw [equal_iff] at h ⊢
  exact ⟨h.1.symm, h.2.imp Eq.symm And.symm⟩

/-- Zeros and equal bits compose: only the two zeros differ and are equal. -/
theorem equal_trans (hxy : x.equal y) (hyz : y.equal z) : x.equal z := by
  rw [equal_iff] at hxy hyz ⊢
  obtain ⟨⟨hx, -⟩, hxy⟩ := hxy
  obtain ⟨⟨-, hz⟩, hyz⟩ := hyz
  refine ⟨⟨hx, hz⟩, ?_⟩
  rcases hxy with rfl | ⟨hx, hy⟩
  · exact hyz
  · rcases hyz with rfl | ⟨-, hz⟩
    · exact .inr ⟨hx, hy⟩
    · exact .inr ⟨hx, hz⟩

/-- A NaN is the only float that differs from itself. -/
theorem equal_self_iff : x.equal x ↔ x.isNaN = false := by
  simp [equal]

end Binary64

/-! ### Lists compared in pairs -/

section

variable {α : Type} {R : α → α → Prop} {as bs cs : List α}

/-- Symmetry is asked of the items of the left list only, as the recursion over a value gives it for
no others. -/
theorem forall₂_symm_of_mem (h : ∀ a ∈ as, ∀ b, R a b → R b a) (hab : List.Forall₂ R as bs) :
    List.Forall₂ R bs as := by
  have hboth := (List.forall₂_and_left as bs).2 ⟨h, hab⟩
  exact (hboth.imp fun a b ⟨ha, hr⟩ ↦ ha b hr).flip

/-- Transitivity as well is asked for chains that start at an item of the first list. -/
theorem forall₂_trans_of_mem (h : ∀ a ∈ as, ∀ b c, R a b → R b c → R a c)
    (hab : List.Forall₂ R as bs) (hbc : List.Forall₂ R bs cs) : List.Forall₂ R as cs := by
  induction hab generalizing cs with
  | nil => exact hbc
  | cons hr _ ih =>
    obtain ⟨ha, has⟩ := List.forall_mem_cons.1 h
    cases hbc with
    | cons hs hrest => exact .cons (ha _ _ hr hs) (ih has hrest)

end

namespace Value

/-! ### One level -/

/-- Whether two entries have one key and values in `R`. -/
def EntriesMatch (R : Value → Value → Prop) (e f : String × Value) : Prop :=
  e.1 = f.1 ∧ R e.2 f.2

/-- Whether two values are of one kind and agree on the level of that kind, where what they have one
level down is in `R`, pair by pair and in order. -/
inductive Matches (R : Value → Value → Prop) : Value → Value → Prop
  | null : Matches R .null .null
  | bool (b : Bool) : Matches R (.bool b) (.bool b)
  | int (n : Int64) : Matches R (.int n) (.int n)
  | uint (n : UInt64) : Matches R (.uint n) (.uint n)
  | float {x y : Binary64} (h : x.equal y) : Matches R (.float x) (.float y)
  | text (t : String) : Matches R (.text t) (.text t)
  | seq {as bs : List Value} (h : List.Forall₂ R as bs) : Matches R (.seq as) (.seq bs)
  | map {es fs : List (String × Value)} (h : List.Forall₂ (EntriesMatch R) es fs) :
    Matches R (.map es) (.map fs)
  | record {r s : Record Value} (hname : r.name = s.name)
    (h : List.Forall₂ (EntriesMatch R) r.fields s.fields) : Matches R (.record r) (.record s)
  | object (identity : Nat) (o p : HostObject Value) :
    Matches R (.object identity o) (.object identity p)
  | lambda {l m : Lambda} (h : l.identity = m.identity) : Matches R (.lambda l) (.lambda m)

section

variable {R : Value → Value → Prop} {a b c : Value} {es fs gs : List (String × Value)}

/-- Entries match both ways if their values do: the keys are compared by equality. -/
theorem entriesMatch_symm (h : ∀ v ∈ es.map Prod.snd, ∀ w, R v w → R w v)
    (hes : List.Forall₂ (EntriesMatch R) es fs) : List.Forall₂ (EntriesMatch R) fs es := by
  refine forall₂_symm_of_mem (fun e he f hef ↦ ?_) hes
  exact ⟨hef.1.symm, h e.2 (List.mem_map_of_mem he) f.2 hef.2⟩

theorem entriesMatch_trans (h : ∀ u ∈ es.map Prod.snd, ∀ v w, R u v → R v w → R u w)
    (hes : List.Forall₂ (EntriesMatch R) es fs) (hfs : List.Forall₂ (EntriesMatch R) fs gs) :
    List.Forall₂ (EntriesMatch R) es gs := by
  refine forall₂_trans_of_mem (fun e he f g hef hfg ↦ ?_) hes hfs
  exact ⟨hef.1.trans hfg.1, h e.2 (List.mem_map_of_mem he) f.2 g.2 hef.2 hfg.2⟩

/-- Matching can be turned round where that can be done one level down. -/
theorem Matches.symm (h : a.Matches R b) (hR : ∀ v ∈ a.contents, ∀ w, R v w → R w v) :
    b.Matches R a := by
  cases h with
  | float h => exact .float (Binary64.equal_symm h)
  | seq h => exact .seq (forall₂_symm_of_mem hR h)
  | map h => exact .map (entriesMatch_symm hR h)
  | record hname h => exact .record hname.symm (entriesMatch_symm hR h)
  | lambda h => exact .lambda h.symm
  | _ => constructor

/-- Matches can be chained where that can be done one level down. -/
theorem Matches.trans (hab : a.Matches R b) (hbc : b.Matches R c)
    (hR : ∀ u ∈ a.contents, ∀ v w, R u v → R v w → R u w) : a.Matches R c := by
  cases hab with
  | float h =>
    cases hbc with
    | float h' => exact .float (Binary64.equal_trans h h')
  | seq h =>
    cases hbc with
    | seq h' => exact .seq (forall₂_trans_of_mem hR h h')
  | map h =>
    cases hbc with
    | map h' => exact .map (entriesMatch_trans hR h h')
  | record hname h =>
    cases hbc with
    | record hname' h' => exact .record (hname.trans hname') (entriesMatch_trans hR h h')
  | lambda h =>
    cases hbc with
    | lambda h' => exact .lambda (h.trans h')
  | object =>
    cases hbc
    constructor
  | _ => exact hbc

end

/-! ### All levels -/

/-- Lists are equal item by item, and so have the same length. -/
theorem equalItems_iff {as bs : List Value} :
    equalItems as bs ↔ List.Forall₂ (fun v w ↦ v.equal w) as bs := by
  induction as generalizing bs with
  | nil => cases bs <;> simp [equalItems]
  | cons a as ih => cases bs <;> simp [equalItems, ih]

/-- Entries are equal in their order, each with its key. -/
theorem equalEntries_iff {es fs : List (String × Value)} :
    equalEntries es fs ↔ List.Forall₂ (EntriesMatch fun v w ↦ v.equal w) es fs := by
  induction es generalizing fs with
  | nil => cases fs <;> simp [equalEntries]
  | cons e es ih => cases fs <;> simp [equalEntries, EntriesMatch, ih]

/-- **Equal values match by equality**, and the other way round. -/
theorem equal_iff_matches (a b : Value) : a.equal b ↔ a.Matches (fun v w ↦ v.equal w) b := by
  constructor
  · intro h
    fun_cases equal a b <;> simp only [equal, beq_iff_eq, Bool.and_eq_true] at h
    case case1 => exact .null
    case case2 => exact h ▸ .bool _
    case case3 => exact h ▸ .int _
    case case4 => exact h ▸ .uint _
    case case5 => exact .float h
    case case6 => exact h ▸ .text _
    case case7 => exact .seq (equalItems_iff.1 h)
    case case8 => exact .map (equalEntries_iff.1 h)
    case case9 => exact .record h.1 (equalEntries_iff.1 h.2)
    case case10 => exact h ▸ .object _ _ _
    case case11 => exact .lambda h
    -- two kinds
    case case12 => cases h
  · intro h
    cases h with
    | float h => exact h
    | seq h => exact equalItems_iff.2 h
    | map h => exact equalEntries_iff.2 h
    | record hname h =>
      rw [equal, hname, beq_self_eq_true, Bool.true_and]
      exact equalEntries_iff.2 h
    | lambda h => exact beq_iff_eq.2 h
    | _ => simp only [equal, beq_self_eq_true]

/-- Equality of values is symmetric. -/
theorem equal_symm {a b : Value} (h : a.equal b) : b.equal a := by
  induction a using induction_on_contents generalizing b with
  | h a ih =>
    rw [equal_iff_matches] at h ⊢
    exact h.symm fun v hv w hvw ↦ ih v hv hvw

/-- Equality of values is transitive. -/
theorem equal_trans {a b c : Value} (hab : a.equal b) (hbc : b.equal c) : a.equal c := by
  induction a using induction_on_contents generalizing b c with
  | h a ih =>
    rw [equal_iff_matches] at hab hbc ⊢
    exact hab.trans hbc fun u hu v w huv hvw ↦ ih u hu huv hvw

/-! ### NaNs -/

/-- Whether a value is a NaN or has one in an item, in the value of a mapping or in a field, at
whatever depth. Objects and lambdas are not looked into. -/
inductive HoldsNaN : Value → Prop
  | float {x : Binary64} (h : x.isNaN) : HoldsNaN (.float x)
  | item {v : Value} {items : List Value} (hv : v ∈ items) (h : HoldsNaN v) : HoldsNaN (.seq items)
  | entry {k : String} {v : Value} {es : List (String × Value)} (hv : (k, v) ∈ es)
    (h : HoldsNaN v) : HoldsNaN (.map es)
  | field {k : String} {v : Value} {r : Record Value} (hv : (k, v) ∈ r.fields) (h : HoldsNaN v) :
    HoldsNaN (.record r)

/-- A NaN makes every value that holds it differ from itself. -/
theorem HoldsNaN.not_equal_self {a : Value} (h : a.HoldsNaN) : ¬ a.equal a := by
  induction h with
  | float h =>
    intro hself
    rw [Binary64.equal_self_iff.1 hself] at h
    cases h
  | item hv _ ih => exact fun hself ↦ ih (List.forall₂_same.1 (equalItems_iff.1 hself) _ hv)
  | entry hv _ ih => exact fun hself ↦ ih (List.forall₂_same.1 (equalEntries_iff.1 hself) _ hv).2
  | field hv _ ih =>
    intro hself
    rw [equal, beq_self_eq_true, Bool.true_and] at hself
    exact ih (List.forall₂_same.1 (equalEntries_iff.1 hself) _ hv).2

/-- Without a NaN in it, a value is equal to itself. -/
theorem equal_self_of_not_holdsNaN {a : Value} (h : ¬ a.HoldsNaN) : a.equal a := by
  induction a using induction_on_contents with
  | h a ih =>
    have hentries {es : List (String × Value)} (hes : ∀ e ∈ es, e.2.equal e.2) :
        List.Forall₂ (EntriesMatch fun v w ↦ v.equal w) es es :=
      List.forall₂_same.2 fun e he ↦ ⟨rfl, hes e he⟩
    rw [equal_iff_matches]
    cases a with
    | float x =>
      refine .float (Binary64.equal_self_iff.2 (Bool.eq_false_iff.2 fun hx ↦ ?_))
      exact h (.float hx)
    | seq items =>
      exact .seq (List.forall₂_same.2 fun v hv ↦ ih v hv fun hnan ↦ h (.item hv hnan))
    | map es =>
      refine .map (hentries fun e he ↦ ih e.2 (List.mem_map_of_mem he) fun hnan ↦ ?_)
      exact h (.entry he hnan)
    | record r =>
      refine .record rfl (hentries fun e he ↦ ih e.2 (List.mem_map_of_mem he) fun hnan ↦ ?_)
      exact h (.field he hnan)
    | lambda l => exact .lambda rfl
    | _ => constructor

end Value

/-- **Equality of values is a partial equivalence.** It goes by kind and, level by level, by what
values have of that kind, floats being equal as numbers and objects and lambdas by their identity.
It can be turned round and chained, and it is reflexive exactly on the values that hold no NaN. -/
theorem equality_is_partial_equivalence (a b c : Value) :
    (a.equal b ↔ a.Matches (fun v w ↦ v.equal w) b) ∧
      (a.equal b → b.equal a) ∧
      (a.equal b → b.equal c → a.equal c) ∧
      (a.equal a ↔ ¬ a.HoldsNaN) := by
  refine ⟨a.equal_iff_matches b, Value.equal_symm, Value.equal_trans, ?_⟩
  exact ⟨fun hself hnan ↦ hnan.not_equal_self hself, Value.equal_self_of_not_holdsNaN⟩

/-- Zeros of either sign beside an object that wraps a NaN, and a NaN that nothing wraps. -/
theorem equality_is_partial_equivalence_of_zeros :
    let zero : Value := .float ⟨0⟩
    let negative : Value := .float ⟨0x8000000000000000⟩
    let nan : Value := .float ⟨0x7FF8000000000000⟩
    let sensor := { HostObject.blank .wrapper "" with inner? := some nan }
    let reading (low high : Value) : Value :=
      .record ⟨"Reading", [("range", .seq [low, high]), ("by", .map [("at", .object 1 sensor)])]⟩
    let a := reading zero negative
    let b := reading negative negative
    let c := reading negative zero
    let broken := reading zero nan
    a.equal b ∧ b.equal a ∧ b.equal c ∧ a.equal c ∧ a.equal a ∧ ¬ a.HoldsNaN ∧
      broken.HoldsNaN ∧ ¬ broken.equal broken := by
  intro zero negative nan sensor reading a b c broken
  have hab : a.equal b := rfl
  have hbc : b.equal c := rfl
  have haa : a.equal a := rfl
  have hbroken : broken.HoldsNaN :=
    .field List.mem_cons_self (.item (List.mem_cons_of_mem _ List.mem_cons_self) (.float rfl))
  obtain ⟨-, hsymm, htrans, hself⟩ := equality_is_partial_equivalence a b c
  obtain ⟨-, -, -, hself'⟩ := equality_is_partial_equivalence broken b c
  exact ⟨hab, hsymm hab, hbc, htrans hab hbc, haa, hself.1 haa, hbroken,
    fun h ↦ hself'.1 h hbroken⟩

end Mustache
