import Mustache.Proofs.EscapeModes
import Mustache.Proofs.Failures
import Mustache.Proofs.InvertedSections

/-!
# A section and its inverted twin

Two sections stand in the same chain under the same name, and one of them is inverted. Whatever
value the name has, one of the two renders its children and the other does nothing at all.

Whether a section is passed over is decided by one look at its value (`Value.isEmpty`), and what it
does otherwise by another one (`Value.visit_of_full`). The two looks go by different cases:
emptiness goes by all kinds of value, and a visit by what there is to enter. They agree where it
matters, as a sequence is empty exactly where it has no item to enter (`Value.isEmpty_of_items?`).

`Compiler.InvertedOnly` and `Compiler.PlainOnly` say what the twins do in either case. They say it
for all children, as equations between runs, so how often the children are rendered, in which order
and against which chain is all in them.
-/

namespace Mustache

/-! ### Looking for a value calls nothing -/

namespace Search

variable {α β : Type}

/-- Whether no call of a lambda is reported. -/
def CallsNoLambda (s : Search α) : Prop :=
  ∀ n ∈ s.notices, n.IsNoCall

theorem callsNoLambda_silent (found : α) : (silent found).CallsNoLambda :=
  fun _ hn ↦ absurd hn List.not_mem_nil

/-- Two searches in a row call nothing if neither does. -/
theorem CallsNoLambda.andThen {s : Search α} {next : α → Search β} (hs : s.CallsNoLambda)
    (hnext : ∀ a, (next a).CallsNoLambda) : (s.andThen next).CallsNoLambda := by
  intro n hn
  rcases List.mem_append.1 hn with hn | hn
  · exact hs n hn
  · exact hnext _ n hn

end Search

namespace Value

mutual

/-- Asking an object may run a method of it, but a lambda is a value and stays one. -/
theorem callsNoLambda_get? (segment : String) : ∀ v : Value, (v.get? segment).CallsNoLambda
  | .object i o => by
    rw [get?]
    split
    · exact Search.callsNoLambda_silent _
    · intro n hn
      rw [List.mem_singleton.1 hn]
      trivial
    · split
      · exact Search.callsNoLambda_silent _
      · split
        · exact callsNoLambda_getInner? segment o.inner?
        all_goals exact Search.callsNoLambda_silent _
  | .null | .bool _ | .int _ | .uint _ | .float _ | .text _ | .seq _ | .map _ | .record _
  | .lambda _ => Search.callsNoLambda_silent _
termination_by structural v => v

theorem callsNoLambda_getInner? (segment : String) :
    ∀ v? : Option Value, (getInner? segment v?).CallsNoLambda
  | none => Search.callsNoLambda_silent _
  | some v => callsNoLambda_get? segment v
termination_by structural v => v

end

theorem callsNoLambda_search (segment : String) (chain : List Value) :
    (search segment chain).CallsNoLambda := by
  induction chain with
  | nil => exact Search.callsNoLambda_silent _
  | cons scope chain ih =>
    rw [search_cons]
    refine (callsNoLambda_get? segment scope).andThen fun found ↦ ?_
    rcases found with - | v
    · exact ih
    · exact Search.callsNoLambda_silent _

/-- A dotted name calls nothing either, whatever its segments find on the way. -/
theorem callsNoLambda_resolve (chain : List Value) (segment : String) (others : List String) :
    (resolve chain segment others).CallsNoLambda := by
  induction others generalizing chain segment with
  | nil =>
    refine (callsNoLambda_search segment chain).andThen fun found ↦ ?_
    rcases found with - | v <;> exact Search.callsNoLambda_silent _
  | cons next others ih =>
    refine (callsNoLambda_search segment chain).andThen fun found ↦ ?_
    rcases found with - | v
    · exact Search.callsNoLambda_silent _
    · exact ih [v] next

/-! ### What a value has to enter -/

/-- The items of a sequence, behind all wrapping. -/
def items? (v : Value) : Option (List Value) :=
  match v.unwrapped with
  | .seq items => some items
  | .object _ o => if o.kind = .seq then some o.items else none
  | _ => none

/-- The lambda that a value is behind all wrapping. -/
def lambda? (v : Value) : Option Lambda :=
  match v.unwrapped with
  | .lambda l => some l
  | _ => none

/-- **What is not empty is visited by what it has to enter**: a lambda is called, a sequence has its
items entered, and any other value is entered as it is. -/
theorem visit_of_full {v : Value} (h : isEmpty (some v) = false) :
    visit false (some v) = (v.lambda?.map .calling).getD (.entering (v.items?.getD [v])) := by
  simp only [visit, h, items?, lambda?, Option.getD_some, bne_self_eq_false, Bool.false_eq_true,
    if_false]
  cases v.unwrapped with
  | object i o => by_cases hkind : o.kind = .seq <;> simp [hkind]
  | _ => rfl

/-- No value is both a lambda and a list. -/
theorem lambda?_of_items? {v : Value} {items : List Value} (h : v.items? = some items) :
    v.lambda? = none := by
  simp only [items?, lambda?] at h ⊢
  cases hunwrapped : v.unwrapped with
  | lambda l =>
    rw [hunwrapped] at h
    cases h
  | _ => rfl

/-- A section is passed over by one of two twins. -/
theorem visit_of_isEmpty_ne {inverted : Bool} {v? : Option Value} (h : isEmpty v? ≠ inverted) :
    visit inverted v? = .entering [] :=
  if_pos (bne_iff_ne.2 h)

/-- A sequence is empty where it has no items, whatever wraps it. -/
theorem isEmpty_of_items? {v : Value} {items : List Value} (h : v.items? = some items) :
    isEmpty (some v) = items.isEmpty := by
  simp only [isEmpty, items?] at h ⊢
  generalize v.unwrapped = u at h
  cases u with
  | seq items' =>
    obtain rfl := Option.some.inj h
    rfl
  | object i o =>
    dsimp only at h ⊢
    split at h
    · next hkind =>
      obtain rfl := Option.some.inj h
      exact if_pos hkind
    · cases h
  | _ => cases h

end Value

/-! ### Runs of a section -/

/-- Doing the same for each item is a loop. -/
theorem Run.each_eq_forM {α : Type} (items : List α) (body : α → Rest → Run Unit) :
    each items body pure = forM items fun a ↦ body a pure := by
  induction items with
  | nil => rfl
  | cons a items ih => rw [each_cons, ih, List.forM_cons]

namespace Compiler

variable (c : Compiler)

theorem callsNoLambda_valueOf (chain : List Value) (name : String) :
    (c.valueOf chain name).CallsNoLambda := by
  have hreport (ns : List Notice) : (Run.report ns).notices = ns := by
    induction ns with
    | nil => rfl
    | cons n ns ih => exact congrArg (List.cons n) ih
  rw [valueOf, Run.CallsNoLambda, Run.notesOnly_bind, Run.NotesOnly, hreport]
  refine ⟨Value.callsNoLambda_resolve _ _ _, ?_⟩
  rw [Run.outcome_report, Run.sequel]
  intro n hn
  split at hn
  · cases hn
  · split at hn <;> cases hn

/-- Whether the inverted one of two twins renders its children, once, and the other does nothing but
look for its value. -/
structure InvertedOnly (chain : List Value) (name : String) : Prop where
  inverted (files : FileTree) (depth line : Nat) (children : List Element) :
    c.renderAt files (depth + 1) [.block name true line children] chain pure =
      c.valueOf chain name >>= fun _ ↦
        c.renderAt files (depth + 1) children (chain.head?.toList ++ chain) pure
  plain (files : FileTree) (depth line : Nat) (children : List Element) :
    c.renderAt files (depth + 1) [.block name false line children] chain pure =
      c.valueOf chain name >>= fun _ ↦ pure ()

/-- Whether the inverted one of two twins does nothing but look for its value, which is `v`, and the
other does with its children what `v` is for. -/
structure PlainOnly (chain : List Value) (name : String) (v : Value) : Prop where
  inverted (files : FileTree) (depth line : Nat) (children : List Element) :
    c.renderAt files (depth + 1) [.block name true line children] chain pure =
      c.valueOf chain name >>= fun _ ↦ pure ()
  /-- A lambda is called once, and what becomes of the children is its affair. -/
  lambda {l : Lambda} (h : v.lambda? = some l) (files : FileTree) (depth line : Nat)
    (children : List Element) :
    c.renderAt files (depth + 1) [.block name false line children] chain pure =
      c.valueOf chain name >>= fun _ ↦
        c.callLambda (c.renderAt files depth) chain name l (Element.sources children)
  items_ne_nil {items : List Value} (h : v.items? = some items) : items ≠ []
  /-- Children are rendered once for each item, with the item in front. -/
  items {items : List Value} (h : v.items? = some items) (files : FileTree) (depth line : Nat)
    (children : List Element) :
    c.renderAt files (depth + 1) [.block name false line children] chain pure =
      c.valueOf chain name >>= fun _ ↦
        forM items fun item ↦ c.renderAt files (depth + 1) children (item :: chain) pure
  /-- Children are rendered once, with the value in front as it was found. -/
  other (hlambda : v.lambda? = none) (hitems : v.items? = none) (files : FileTree)
    (depth line : Nat) (children : List Element) :
    c.renderAt files (depth + 1) [.block name false line children] chain pure =
      c.valueOf chain name >>= fun _ ↦ c.renderAt files (depth + 1) children (v :: chain) pure

section

variable {c} {chain : List Value} {name : String} {v? : Option Value}

/-- A section is its visit, behind the search for its value. -/
theorem renderAt_block (hvalue : (c.valueOf chain name).outcome = .ok v?) (files : FileTree)
    (depth : Nat) (inverted : Bool) (line : Nat) (children : List Element) :
    c.renderAt files (depth + 1) [.block name inverted line children] chain pure =
      c.valueOf chain name >>= fun _ ↦
        c.renderVisit files (c.renderAt files depth) name children chain pure
          (Value.visit inverted v?) := by
  show c.renderElement files (c.renderAt files depth) (.block name inverted line children) chain
    (fun _ ↦ pure ()) = _
  rw [renderElement_block]
  exact Run.bind_eq_of_outcome hvalue _

/-- Children are rendered scope by scope, each time one level further in. -/
theorem renderVisit_entering (files : FileTree) (depth : Nat) (scopes : List Value)
    (children : List Element) :
    c.renderVisit files (c.renderAt files depth) name children chain pure (.entering scopes) =
      forM scopes fun v ↦ c.renderAt files (depth + 1) children (v :: chain) pure :=
  Run.each_eq_forM scopes fun v ↦ c.renderAt files (depth + 1) children (v :: chain)

/-- An empty value, or none, leaves the children to the inverted section. -/
theorem invertedOnly_of_isEmpty (hvalue : (c.valueOf chain name).outcome = .ok v?)
    (hempty : Value.isEmpty v? = true) : c.InvertedOnly chain name where
  inverted files depth line children := by
    rw [renderAt_block hvalue, Value.visit_of_isEmpty hempty]
    rfl
  plain files depth line children := by
    rw [renderAt_block hvalue, Value.visit_of_isEmpty_ne (by rw [hempty]; decide)]
    rfl

/-- A value that is not empty leaves them to the plain one. -/
theorem plainOnly_of_full {v : Value} (hvalue : (c.valueOf chain name).outcome = .ok (some v))
    (hfull : Value.isEmpty (some v) = false) : c.PlainOnly chain name v where
  inverted files depth line children := by
    rw [renderAt_block hvalue, Value.visit_of_isEmpty_ne (by rw [hfull]; decide)]
    rfl
  lambda h files depth line children := by
    rw [renderAt_block hvalue, Value.visit_of_full hfull, h]
    exact congrArg _ (funext fun _ ↦ bind_pure _)
  items_ne_nil h := by
    rw [Value.isEmpty_of_items? h] at hfull
    exact List.isEmpty_eq_false_iff.1 hfull
  items h files depth line children := by
    have hlambda : v.lambda? = none := Value.lambda?_of_items? h
    rw [renderAt_block hvalue, Value.visit_of_full hfull, hlambda, h]
    exact congrArg _ (funext fun _ ↦ renderVisit_entering ..)
  other hlambda hitems files depth line children := by
    rw [renderAt_block hvalue, Value.visit_of_full hfull, hlambda, hitems]
    rfl

end

end Compiler

/-- **Twins are complements.** Under a name that has a value, or none where that is no error,
exactly one of two twin sections renders its children or calls its lambda. The other looks for the
value, by which nothing is written and no lambda is called, and does nothing else. -/
theorem section_twins_complement (c : Compiler) {chain : List Value} {name : String}
    {v? : Option Value} (hvalue : (c.valueOf chain name).outcome = .ok v?) :
    ((c.valueOf chain name).text = "" ∧ (c.valueOf chain name).CallsNoLambda) ∧
      Xor (c.InvertedOnly chain name) (∃ v, v? = some v ∧ c.PlainOnly chain name v) := by
  have htext := Run.text_of_quiet (c.quiet_valueOf chain name)
  refine ⟨⟨htext, c.callsNoLambda_valueOf chain name⟩, ?_⟩
  -- the two cannot both hold, as an inverted section around some text would be that text and none
  have hexclusive (hinverted : c.InvertedOnly chain name)
      (hplain : ∃ v, v? = some v ∧ c.PlainOnly chain name v) : False := by
    obtain ⟨v, -, hplain⟩ := hplain
    have hsame := (hinverted.inverted .empty 0 1 [.text "x"]).symm.trans
      (hplain.inverted .empty 0 1 [.text "x"])
    have htexts := congrArg Run.text hsame
    rw [Run.text_bind, Run.text_bind, hvalue, htext] at htexts
    exact absurd (show "" ++ String.join ["x"] = "" ++ String.join [] from htexts) (by decide)
  rcases hempty : Value.isEmpty v? with - | -
  · rcases v? with - | v
    · cases hempty
    · have hplain := Compiler.plainOnly_of_full hvalue hempty
      exact .inr ⟨⟨v, rfl, hplain⟩, fun hinverted ↦ hexclusive hinverted ⟨v, rfl, hplain⟩⟩
  · have hinverted := Compiler.invertedOnly_of_isEmpty hvalue hempty
    exact .inl ⟨hinverted, hexclusive hinverted⟩

/-- A wrapped sequence of two items, and a record that is empty as its fields are. -/
theorem section_twins_complement_of_wrapped_items :
    let items : HostObject Value :=
      { HostObject.blank .seq "Items" with items := [.text "a", .text "b"] }
    let box : HostObject Value :=
      { HostObject.blank .wrapper "Box" with inner? := some (.object 0 items) }
    let zeros : Value := .record ⟨"R", [("n", .int 0), ("t", .text "")]⟩
    let chain : List Value := [.map [("r", zeros), ("w", .object 1 box)]]
    let c := Compiler.standard
    ((c.valueOf chain "w").outcome = .ok (some (.object 1 box)) ∧
        c.PlainOnly chain "w" (.object 1 box) ∧ ¬ c.InvertedOnly chain "w") ∧
      (c.valueOf chain "r").outcome = .ok (some zeros) ∧ c.InvertedOnly chain "r" ∧
        ¬ ∃ v, some zeros = some v ∧ c.PlainOnly chain "r" v := by
  intro items box zeros chain c
  have hwrapped : (c.valueOf chain "w").outcome = .ok (some (.object 1 box)) := rfl
  have hrecord : (c.valueOf chain "r").outcome = .ok (some zeros) := rfl
  obtain ⟨-, hw⟩ := section_twins_complement c hwrapped
  obtain ⟨-, hr⟩ := section_twins_complement c hrecord
  refine ⟨⟨hwrapped, ?_⟩, hrecord, ?_⟩
  · have hrun : (c.renderAt .empty 1 [.block "w" false 1 [.interpolation "." false]] chain
        pure).text = "ab" := by decide +kernel
    rcases hw with ⟨hinverted, -⟩ | ⟨⟨v, hv, hplain⟩, hnot⟩
    · rw [hinverted.plain] at hrun
      exact absurd hrun (by decide +kernel)
    · obtain rfl := Option.some.inj hv
      exact ⟨hplain, hnot⟩
  · have hrun : (c.renderAt .empty 1 [.block "r" true 1 [.text "x"]] chain pure).text = "x" := by
      decide +kernel
    rcases hr with hr | ⟨⟨v, hv, hplain⟩, -⟩
    · exact hr
    · rw [hplain.inverted] at hrun
      exact absurd hrun (by decide +kernel)

end Mustache
