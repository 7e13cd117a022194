import Mathlib.Logic.Relation
import Mustache.Proofs.SideBySide

/-!
# What is within a value

A value can be taken apart: a sequence into its items, a mapping or a record into what it has under
its names, a host object into the values it answers with. `Value.Within v w` says that `v` comes out
of `w` in any number of such steps, none included.

Looking up a name, entering a section and unwrapping take values apart and do nothing else, so a
rendering meets no value that is not within its contexts. What is asked of all lambdas in them
(`Value.AllLambdas`) holds of every lambda that is called.
-/

namespace Mustache

namespace Value

/-- Whether a value is a direct part of another one. -/
inductive Part : Value → Value → Prop
  | item {v : Value} {items : List Value} (h : v ∈ items) : Part v (.seq items)
  | entry {k : String} {v : Value} {es : List (String × Value)} (h : (k, v) ∈ es) : Part v (.map es)
  | field {k : String} {v : Value} {r : Record Value} (h : (k, v) ∈ r.fields) : Part v (.record r)
  | method {k : String} {v : Value} {i : Nat} {o : HostObject Value}
      (h : o.method k = .ok (some v)) : Part v (.object i o)
  | member {k : String} {v : Value} {i : Nat} {o : HostObject Value} (h : o.member k = some v) :
      Part v (.object i o)
  | objectItem {v : Value} {i : Nat} {o : HostObject Value} (h : v ∈ o.items) : Part v (.object i o)
  | inner {v : Value} {i : Nat} {o : HostObject Value} (h : o.inner? = some v) :
      Part v (.object i o)

/-- Whether a value comes out of another one when that is taken apart. -/
def Within (v w : Value) : Prop :=
  Relation.ReflTransGen Part v w

/-- Whether all lambdas within a value are in `P`. -/
def AllLambdas (P : Lambda → Prop) (v : Value) : Prop :=
  ∀ l, Within (.lambda l) v → P l

theorem Within.refl (v : Value) : Within v v :=
  Relation.ReflTransGen.refl

theorem Within.trans {u v w : Value} (h : Within u v) (h' : Within v w) : Within u w :=
  Relation.ReflTransGen.trans h h'

/-- A part is within, in one step. -/
theorem Part.within {v w : Value} (h : Part v w) : Within v w :=
  Relation.ReflTransGen.single h

/-- What is said of all lambdas of a value holds for those of every value within. -/
theorem AllLambdas.of_within {P : Lambda → Prop} {v w : Value} (h : AllLambdas P w)
    (hv : Within v w) : AllLambdas P v :=
  fun l hl ↦ h l (hl.trans hv)

/-! ### One scope -/

mutual

/-- What a scope has for a segment is within it. -/
theorem within_of_get? {segment : String} {scope v : Value}
    (h : (scope.get? segment).found = some v) : Within v scope := by
  match scope with
  | .object i o =>
    rw [get?] at h
    -- the answer of a method, the object itself, or what it has inside by its kind
    split at h
    · next w hw =>
      obtain rfl : w = v := Option.some.inj h
      exact (Part.method hw).within
    · cases h
    · split at h
      · obtain rfl : Value.object i o = v := Option.some.inj h
        exact .refl _
      · split at h
        · obtain ⟨w, hinner, hv⟩ := within_of_getInner? h
          exact hv.trans (Part.inner hinner).within
        · exact (Part.member h).within
        · exact (Part.member h).within
        · cases h
        · cases h
  | .map es =>
    replace h : (if segment = "." then some (.map es) else es.lookup segment) = some v := h
    split at h
    · obtain rfl := Option.some.inj h
      exact .refl _
    · exact (Part.entry (Entries.mem_of_lookup h)).within
  | .record r =>
    replace h : (if segment = "." then some (.record r) else r.get? segment) = some v := h
    split at h
    · obtain rfl := Option.some.inj h
      exact .refl _
    · exact (Part.field (Entries.mem_of_lookup h)).within
  | .null | .bool _ | .int _ | .uint _ | .float _ | .text _ | .seq _ | .lambda _ =>
    simp only [get?, Search.silent] at h
    split at h <;> cases h
    exact .refl _
termination_by structural scope

/-- What is found behind a wrapper is within what the wrapper holds. -/
theorem within_of_getInner? {segment : String} {inner? : Option Value} {v : Value}
    (h : (getInner? segment inner?).found = some v) : ∃ w, inner? = some w ∧ Within v w := by
  match inner? with
  | none => cases h
  | some w => exact ⟨w, rfl, within_of_get? h⟩
termination_by structural inner?

end

/-! ### Chains of scopes -/

/-- What a search finds is within one of the scopes that it asks. -/
theorem exists_within_of_search {segment : String} {chain : List Value} {v : Value}
    (h : (search segment chain).found = some v) : ∃ scope ∈ chain, Within v scope := by
  induction chain with
  | nil => cases h
  | cons scope chain ih =>
    rw [search_cons] at h
    simp only [Search.andThen] at h
    split at h
    · next w hw =>
      obtain rfl : w = v := Option.some.inj h
      exact ⟨scope, List.mem_cons_self, within_of_get? hw⟩
    · obtain ⟨other, hother, hv⟩ := ih h
      exact ⟨other, List.mem_cons_of_mem _ hother, hv⟩

/-- The later names of a dotted name lead further into the same scope. -/
theorem exists_within_of_resolve {segment : String} {others : List String} {chain : List Value}
    {v : Value} (h : (resolve chain segment others).found = .ok v) :
    ∃ scope ∈ chain, Within v scope := by
  induction others generalizing segment chain with
  | nil =>
    simp only [resolve, Search.andThen] at h
    split at h
    · next w hw =>
      obtain rfl : w = v := Except.ok.inj h
      exact exists_within_of_search hw
    · cases h
  | cons next others ih =>
    simp only [resolve, Search.andThen] at h
    split at h
    · next w hw =>
      obtain ⟨scope, hscope, hv⟩ := ih h
      obtain rfl := List.mem_singleton.1 hscope
      obtain ⟨first, hfirst, hwithin⟩ := exists_within_of_search hw
      exact ⟨first, hfirst, hv.trans hwithin⟩
    · cases h

/-- What a name is the name of is within a scope of the chain. -/
theorem exists_within_of_lookup {name : String} {chain : List Value} {v : Value}
    (h : (lookup chain name).found = .ok v) : ∃ scope ∈ chain, Within v scope :=
  exists_within_of_resolve h

/-! ### Sections -/

mutual

/-- Taking wrappers off goes inwards. Only a null wrapper gives a value that is not within. -/
theorem within_unwrapped (v : Value) : Within v.unwrapped v ∨ v.unwrapped = .null := by
  match v with
  | .object i o =>
    rw [unwrapped]
    split
    · rcases within_unwrappedInner o.inner? with ⟨w, hw, hinner⟩ | hnull
      · exact .inl (hinner.trans (Part.inner hw).within)
      · exact .inr hnull
    · exact .inl (.refl _)
  | .null | .bool _ | .int _ | .uint _ | .float _ | .text _ | .seq _ | .map _ | .record _
  | .lambda _ => exact .inl (.refl _)
termination_by structural v

theorem within_unwrappedInner (inner? : Option Value) :
    (∃ w, inner? = some w ∧ Within (unwrappedInner inner?) w) ∨ unwrappedInner inner? = .null := by
  match inner? with
  | none => exact .inr rfl
  | some w => exact (within_unwrapped w).imp_left fun h ↦ ⟨w, rfl, h⟩
termination_by structural inner?

end

variable {P : Lambda → Prop}

/-- All lambdas are in `P` when the value itself is, if it is one, and those in its parts are. -/
theorem allLambdas_of_parts {v : Value} (hself : ∀ l, v = .lambda l → P l)
    (hparts : ∀ w, Part w v → AllLambdas P w) : AllLambdas P v := by
  intro l hl
  rcases Relation.ReflTransGen.cases_tail hl with heq | ⟨w, hlw, hw⟩
  · exact hself l heq
  · exact hparts w hw l hlw

theorem allLambdas_null : AllLambdas P .null :=
  allLambdas_of_parts (fun _ h ↦ nomatch h) fun _ h ↦ nomatch h

theorem allLambdas_text (t : String) : AllLambdas P (.text t) :=
  allLambdas_of_parts (fun _ h ↦ nomatch h) fun _ h ↦ nomatch h

/-- A lambda is the only lambda of itself. -/
theorem allLambdas_lambda {l : Lambda} (h : P l) : AllLambdas P (.lambda l) := by
  refine allLambdas_of_parts (fun l' heq ↦ ?_) fun _ h ↦ nomatch h
  obtain rfl := Value.lambda.inj heq
  exact h

/-- The lambdas of a mapping are those of its values. -/
theorem allLambdas_map {es : List (String × Value)} (h : ∀ e ∈ es, AllLambdas P e.2) :
    AllLambdas P (.map es) := by
  refine allLambdas_of_parts (fun _ h ↦ nomatch h) ?_
  rintro w (- | hw)
  exact h _ hw

theorem AllLambdas.unwrapped {v : Value} (h : AllLambdas P v) : AllLambdas P v.unwrapped := by
  rcases within_unwrapped v with hv | hnull
  · exact h.of_within hv
  · rw [hnull]
    exact allLambdas_null

end Value

/-- Whether all lambdas that a visit can meet are in `P`. -/
def Visit.AllLambdas (P : Lambda → Prop) : Visit → Prop
  | .entering scopes => ∀ v ∈ scopes, v.AllLambdas P
  | .calling l => P l
  | .staying => True

/-- Chains make a pair for a visit if they do behind every scope it can enter and where it stays. -/
theorem Visit.AllLambdas.paired {P : Lambda → Prop} {visit : Visit} (h : visit.AllLambdas P)
    {S : List Value → List Value → Prop} {chain chain' : List Value}
    (hcons : ∀ v : Value, v.AllLambdas P → S (v :: chain) (v :: chain'))
    (hstay : S (chain.head?.toList ++ chain) (chain'.head?.toList ++ chain')) :
    visit.Paired S (fun l l' ↦ l = l' ∧ P l) chain chain' visit := by
  rcases visit with scopes | l | -
  · exact .entering (List.forall₂_same.2 fun v hv ↦ hcons v (h v hv))
  · exact .calling ⟨rfl, h⟩
  · exact .staying hstay

namespace Value

/-- A section meets nothing that is not within its value. -/
theorem allLambdas_visit {P : Lambda → Prop} {v? : Option Value}
    (h : ∀ v, v? = some v → AllLambdas P v) (inverted : Bool) :
    (visit inverted v?).AllLambdas P := by
  have hv : AllLambdas P (v?.getD .null) := by
    cases v? with
    | none => exact allLambdas_null
    | some v => exact h v rfl
  have hone : ∀ w ∈ [v?.getD .null], AllLambdas P w := by
    intro w hw
    obtain rfl := List.mem_singleton.1 hw
    exact hv
  have hunwrapped := hv.unwrapped
  unfold visit
  split
  · exact fun w hw ↦ absurd hw List.not_mem_nil
  · split
    · trivial
    · dsimp only
      generalize (v?.getD Value.null).unwrapped = u at hunwrapped
      cases u with
      | seq items => exact fun w hw ↦ hunwrapped.of_within (Part.item hw).within
      | lambda l => exact hunwrapped l (.refl _)
      | object i o =>
        dsimp only
        split
        · exact fun w hw ↦ hunwrapped.of_within (Part.objectItem hw).within
        · exact hone
      | _ => exact hone

/-- Where the innermost scope is put in front once more, no other lambda is met. -/
theorem allLambdas_head_append {P : Lambda → Prop} {chain : List Value}
    (h : ∀ v ∈ chain, AllLambdas P v) : ∀ v ∈ chain.head?.toList ++ chain, AllLambdas P v := by
  intro v hv
  rcases List.mem_append.1 hv with hv | hv
  · exact h v (List.mem_of_head? (Option.mem_toList.1 hv))
  · exact h v hv

end Value

end Mustache
