import Mustache.Proofs.NameResolution
import Mustache.Proofs.SectionTwins

/-!
# Dotted names and nested sections

A tag with a dotted name writes what a tag with its last segment does inside sections with the
segments in front of it, one inside the other (`dotted_name_eq_sections`).

The two go about it differently. A dotted name looks for each segment in the value of the one before
it, alone. A section puts that value in front of the whole chain, as it was found and with its
wrapping, and what is inside looks for its name in all of it. Where the dotted name has a value, the
value in front has one for the next segment, and nothing behind it is asked
(`Value.found_resolve_cons_of_ok`).

## Where it fails

* Two empty segments at the end of a name are one dot (`Name.segments`), which stands for the scope
  it is looked up in. So the name `.` is not the empty name inside a section with the empty name
  (`dotted_name_ne_sections_of_dot`).
* A section over a sequence or a lambda does other things than put the value in front, and one over
  an empty value nothing. Such values may come only last (`Value.EntersAsIs`).
-/

namespace Mustache

/-! ### Names put together -/

namespace Name

/-- Segments with dots between them are the segments of the text that they make, unless the last two
are empty. -/
theorem ofString_intercalate {first : String} {others : List String}
    (hdots : ∀ s ∈ first :: others, '.' ∉ s.toList) (hend : ¬ ["", ""] <:+ first :: others) :
    ofString (".".intercalate (first :: others)) = ⟨first, others⟩ := by
  obtain ⟨hfirst, hothers⟩ := List.forall_mem_cons.1 hdots
  induction others generalizing first with
  | nil =>
    rw [String.intercalate_singleton]
    exact ofString_of_isSegment (.inr hfirst)
  | cons next others ih =>
    obtain ⟨hnext, hothers'⟩ := List.forall_mem_cons.1 hothers
    have hdot : first ++ "." ++ ".".intercalate (next :: others) ≠ "." := by
      intro heq
      have hlen := congrArg String.length heq
      have hone : ".".length = 1 := rfl
      rcases others with - | ⟨after, others⟩
      · rw [String.intercalate_singleton, String.length_append, String.length_append] at hlen
        obtain rfl : first = "" := String.length_eq_zero_iff.1 (by omega)
        obtain rfl : next = "" := String.length_eq_zero_iff.1 (by omega)
        exact hend List.suffix_rfl
      · rw [String.intercalate_cons_cons] at hlen
        simp only [String.length_append] at hlen
        omega
    rw [String.intercalate_cons_cons, ofString_append hfirst hdot,
      ih hothers (fun hsuffix ↦ hend (hsuffix.trans (List.suffix_cons first _))) hnext hothers']

end Name

/-! ### Values on the way -/

namespace Value

/-- Whether a section over a value puts the value in front as it is, and renders its children once:
it is not empty, and behind all wrapping it is no sequence and no lambda. -/
structure EntersAsIs (v : Value) : Prop where
  full : isEmpty (some v) = false
  items? : v.items? = none
  lambda? : v.lambda? = none

variable {w v : Value} {segment next : String} {others : List String} {chain : List Value}

/-- A name with a value has one for its first segment, in which the others are looked up. -/
theorem exists_of_found_resolve (h : (resolve chain segment (next :: others)).found = .ok v) :
    ∃ w, (search segment chain).found = some w ∧ (resolve [w] next others).found = .ok v := by
  rw [found_resolve] at h
  rcases hfound : (search segment chain).found with - | w
  · rw [hfound] at h
    cases h
  · rw [hfound] at h
    exact ⟨w, rfl, h⟩

/-- Where a scope has a value for a first segment, nothing behind it is asked. -/
theorem found_resolve_cons_of_ok (h : (resolve [w] segment others).found = .ok v)
    (chain : List Value) (others' : List String) :
    (resolve (w :: chain) segment others').found = (resolve [w] segment others').found := by
  rw [found_resolve, search_cons, search_nil] at h
  rw [found_resolve, found_resolve, search_cons, search_cons, search_nil]
  simp only [Search.andThen] at h ⊢
  rcases hfound : (w.get? segment).found with - | x
  · rw [hfound] at h
    cases h
  · rfl

/-- Whether segments lead to a value, the last segment behind others whose values are entered as
they are. -/
structure LeadTo (chain : List Value) (names : List String) (last : String) (v : Value) : Prop where
  value : ∀ first others, first :: others = names ++ [last] →
    (resolve chain first others).found = .ok v
  enters : ∀ first others, first :: others <+: names → ∀ w,
    (resolve chain first others).found = .ok w → w.EntersAsIs

/-- **One segment on the way**: the segments behind it lead to the same value with its own value in
front of the chain. -/
theorem LeadTo.exists_step {name last : String} {names : List String}
    (h : LeadTo chain (name :: names) last v) :
    ∃ w, (search name chain).found = some w ∧ w.EntersAsIs ∧ LeadTo (w :: chain) names last v := by
  obtain ⟨next, others, hrest⟩ : ∃ next others, names ++ [last] = next :: others :=
    List.exists_cons_of_ne_nil (by simp)
  obtain ⟨w, hw, hvalue⟩ := exists_of_found_resolve
    (h.value name (next :: others) (congrArg (List.cons name) hrest.symm))
  refine ⟨w, hw, ?_, ?_, ?_⟩
  · refine h.enters name [] (List.prefix_append [name] names) w ?_
    rw [found_resolve, hw]
    rfl
  · intro first others' hfirst
    obtain ⟨rfl, rfl⟩ := List.cons.inj (hfirst.trans hrest)
    rw [found_resolve_cons_of_ok hvalue, hvalue]
  · rintro first others' ⟨more, hmore⟩ x hx
    obtain rfl : first = next := by
      rw [← hmore] at hrest
      exact (List.cons.inj hrest).1
    refine h.enters name (first :: others') ⟨more, congrArg (List.cons name) hmore⟩ x ?_
    rw [found_resolve, hw]
    rwa [found_resolve_cons_of_ok hvalue] at hx

theorem found_lookup_of_search {name : String} (hname : '.' ∉ name.toList)
    (h : (search name chain).found = some w) : (lookup chain name).found = .ok w := by
  rw [lookup, Name.ofString_of_isSegment (.inr hname), found_resolve, h]
  rfl

end Value

/-! ### Elements in sections -/

/-- An element inside sections, the first of which is the outermost, each with its name and line. -/
def Element.within (e : Element) : List (String × Nat) → Element
  | [] => e
  | (name, line) :: sections => .block name false line [e.within sections]

/-- A run goes on behind a quiet one as if that had not been. -/
theorem Run.text_and_outcome_of_quiet {α β : Type} {r : Run α} {a : α} (hquiet : r.Quiet)
    (h : r.outcome = .ok a) (next : α → Run β) :
    (r >>= next).text = (next a).text ∧ (r >>= next).outcome = (next a).outcome := by
  rw [text_bind, outcome_bind, text_of_quiet hquiet, h, String.empty_append]
  exact ⟨rfl, rfl⟩

namespace Compiler

variable (c : Compiler) (files : FileTree)

theorem outcome_valueOf_of_found {chain : List Value} {name : String} {v : Value}
    (h : (Value.lookup chain name).found = .ok v) :
    (c.valueOf chain name).outcome = .ok (some v) := by
  rw [outcome_valueOf, h]

/-- What is written for a name goes by its value. -/
theorem text_and_outcome_interpolation {chain chain' : List Value} {name name' : String} {v : Value}
    (h : (Value.lookup chain name).found = .ok v) (h' : (Value.lookup chain' name').found = .ok v)
    (depth : Nat) (raw : Bool) :
    let r := c.renderAt files (depth + 1) [.interpolation name raw] chain pure
    let s := c.renderAt files (depth + 1) [.interpolation name' raw] chain' pure
    r.text = s.text ∧ r.outcome = s.outcome := by
  let written : Run Unit := do
    let text ← Run.ofExcept (c.stringify v)
    .writeValue text (if raw then .raw else c.escapeMode)
  have hwritten {chain : List Value} {name : String} (h : (Value.lookup chain name).found = .ok v) :
      let r := c.renderAt files (depth + 1) [.interpolation name raw] chain pure
      r.text = written.text ∧ r.outcome = written.outcome := by
    have hrun : c.renderAt files (depth + 1) [.interpolation name raw] chain pure =
        c.interpolate chain name raw := bind_pure _
    rw [hrun]
    exact Run.text_and_outcome_of_quiet (c.quiet_valueOf chain name)
      (c.outcome_valueOf_of_found h) _
  exact ⟨(hwritten h).1.trans (hwritten h').1.symm, (hwritten h).2.trans (hwritten h').2.symm⟩

/-- **Into nested sections.** Where segments lead to a value, an element inside sections with those
in front of the last is rendered against a chain in which the last has that value. -/
theorem exists_chain_of_within (depth : Nat) (e : Element) {sections : List (String × Nat)}
    {last : String} (hdots : ∀ s ∈ sections.map Prod.fst, '.' ∉ s.toList)
    (hlast : '.' ∉ last.toList) {chain : List Value} {v : Value}
    (hlead : Value.LeadTo chain (sections.map Prod.fst) last v) :
    ∃ inner, (Value.lookup inner last).found = .ok v ∧
      let nested := c.renderAt files (depth + 1) [e.within sections] chain pure
      let r := c.renderAt files (depth + 1) [e] inner pure
      nested.text = r.text ∧ nested.outcome = r.outcome := by
  induction sections generalizing chain with
  | nil =>
    refine ⟨chain, ?_, rfl, rfl⟩
    rw [Value.lookup, Name.ofString_of_isSegment (.inr hlast)]
    exact hlead.value last [] rfl
  | cons s sections ih =>
    obtain ⟨name, line⟩ := s
    obtain ⟨hname, hdots⟩ := List.forall_mem_cons.1 hdots
    obtain ⟨w, hw, henters, hlead⟩ := hlead.exists_step
    obtain ⟨inner, hfound, htext, houtcome⟩ := ih hdots hlead
    have hvalue := c.outcome_valueOf_of_found (Value.found_lookup_of_search hname hw)
    obtain ⟨htext', houtcome'⟩ := Run.text_and_outcome_of_quiet (c.quiet_valueOf chain name) hvalue
      fun _ ↦ c.renderAt files (depth + 1) [e.within sections] (w :: chain) pure
    refine ⟨inner, hfound, ?_⟩
    rw [Element.within, (plainOnly_of_full hvalue henters.full).other henters.lambda?
      henters.items?]
    exact ⟨htext'.trans htext, houtcome'.trans houtcome⟩

end Compiler

/-- **A dotted name is nested sections.** Where a name has a value, and those of the segments in
front of the last are entered as they are, the name writes what the last segment does inside
sections with the others, and it ends the same. The last two segments may not both be empty. -/
theorem dotted_name_eq_sections (c : Compiler) (files : FileTree) (depth : Nat) (raw : Bool)
    {sections : List (String × Nat)} {last : String} {chain : List Value} {v : Value}
    (hdots : ∀ s ∈ sections.map Prod.fst ++ [last], '.' ∉ s.toList)
    (hend : ¬ ["", ""] <:+ sections.map Prod.fst ++ [last])
    (hvalue : (Value.lookup chain
      (".".intercalate (sections.map Prod.fst ++ [last]))).found = .ok v)
    (hinner : ∀ first others, first :: others <+: sections.map Prod.fst → ∀ w,
      (Value.resolve chain first others).found = .ok w → w.EntersAsIs) :
    let name := ".".intercalate (sections.map Prod.fst ++ [last])
    let dotted := c.renderAt files depth [.interpolation name raw] chain pure
    let nested :=
      c.renderAt files depth [(Element.interpolation last raw).within sections] chain pure
    dotted.text = nested.text ∧ dotted.outcome = nested.outcome := by
  intro name dotted nested
  rcases depth with - | depth
  · exact ⟨rfl, rfl⟩
  obtain ⟨hsections, hlast⟩ := List.forall_mem_append.1 hdots
  replace hlast := hlast last (List.mem_singleton.2 rfl)
  have hlead : Value.LeadTo chain (sections.map Prod.fst) last v := by
    refine ⟨fun first others hname ↦ ?_, hinner⟩
    rw [← hname] at hdots hend hvalue
    rwa [Value.lookup, Name.ofString_intercalate hdots hend] at hvalue
  obtain ⟨inner, hfound, htext, houtcome⟩ := c.exists_chain_of_within files depth
    (.interpolation last raw) hsections hlast hlead
  obtain ⟨htext', houtcome'⟩ := c.text_and_outcome_interpolation files hvalue hfound depth raw
  exact ⟨htext'.trans htext.symm, houtcome'.trans houtcome.symm⟩

/-- A wrapper around an object with a method, behind a scope that has the later names too. -/
theorem dotted_name_eq_sections_of_wrapper :
    let o : HostObject Value := { HostObject.blank .record "Obj" with
      method := fun name ↦
        if name = "b" then .ok (some (.map [("c", .text "<")])) else .ok none }
    let box : HostObject Value :=
      { HostObject.blank .wrapper "Box" with inner? := some (.object 0 o) }
    let chain : List Value :=
      [.map [("b", .text "no"), ("c", .text "no")], .map [("a", .object 1 box)]]
    let c := Compiler.standard
    let dotted := c.renderAt .empty Template.maxDepth [.interpolation "a.b.c" false] chain pure
    let nested := c.renderAt .empty Template.maxDepth
      [.block "a" false 1 [.block "b" false 2 [.interpolation "c" false]]] chain pure
    dotted.text = "&lt;" ∧ nested.text = "&lt;" ∧ nested.outcome = .ok () := by
  intro o box chain c dotted nested
  have hname : ".".intercalate ["a", "b", "c"] = "a.b.c" := by decide
  have hvalue : (Value.lookup chain (".".intercalate ["a", "b", "c"])).found =
      .ok (.text "<") := by
    rw [hname]
    with_unfolding_all rfl
  have hfirst : (Value.resolve chain "a" []).found = .ok (.object 1 box) := rfl
  have hsecond : (Value.resolve chain "a" ["b"]).found = .ok (.map [("c", .text "<")]) := rfl
  have hinner : ∀ first others, first :: others <+: ["a", "b"] → ∀ w,
      (Value.resolve chain first others).found = .ok w → w.EntersAsIs := by
    intro first others hprefix w hw
    obtain ⟨rfl, hothers⟩ := List.cons_prefix_cons.1 hprefix
    rcases List.prefix_cons_iff.1 hothers with rfl | ⟨more, rfl, hmore⟩
    · obtain rfl := Except.ok.inj (hfirst.symm.trans hw)
      exact ⟨rfl, rfl, rfl⟩
    · obtain rfl := List.prefix_nil.1 hmore
      obtain rfl := Except.ok.inj (hsecond.symm.trans hw)
      exact ⟨rfl, rfl, rfl⟩
  have hrun : dotted.text = "&lt;" ∧ dotted.outcome = .ok () := by
    decide +kernel
  have hsections := @dotted_name_eq_sections c .empty Template.maxDepth false
    [("a", 1), ("b", 2)] "c" chain (.text "<") (by decide) (by decide) hvalue hinner
  rw [show List.map Prod.fst [("a", 1), ("b", 2)] ++ ["c"] = ["a", "b", "c"] from rfl, hname]
    at hsections
  obtain ⟨htext, houtcome⟩ := hsections
  exact ⟨hrun.1, htext.symm.trans hrun.1, houtcome.symm.trans hrun.2⟩

/-- The name of two empty segments is the dot, which stands for the innermost scope, and not the
empty name inside a section with the empty name. -/
theorem dotted_name_ne_sections_of_dot :
    let chain : List Value := [.text "y", .map [("", .map [("", .text "x")])]]
    let c := Compiler.standard
    let dotted := c.renderAt .empty Template.maxDepth
      [.interpolation (".".intercalate ["", ""]) true] chain pure
    let nested := c.renderAt .empty Template.maxDepth
      [(Element.interpolation "" true).within [("", 1)]] chain pure
    (∀ s ∈ ["", ""], '.' ∉ s.toList) ∧
      (Value.lookup chain (".".intercalate ["", ""])).found = .ok (.text "y") ∧
      (∀ first others, first :: others <+: [""] → ∀ w,
        (Value.resolve chain first others).found = .ok w → w.EntersAsIs) ∧
      dotted.text = "y" ∧ nested.text = "x" := by
  intro chain c dotted nested
  have hname : ".".intercalate ["", ""] = "." := by decide
  have hfirst : (Value.resolve chain "" []).found = .ok (.map [("", .text "x")]) := rfl
  have hinner : ∀ first others, first :: others <+: [""] → ∀ w,
      (Value.resolve chain first others).found = .ok w → w.EntersAsIs := by
    intro first others hprefix w hw
    obtain ⟨rfl, hothers⟩ := List.cons_prefix_cons.1 hprefix
    obtain rfl := List.prefix_nil.1 hothers
    obtain rfl := Except.ok.inj (hfirst.symm.trans hw)
    exact ⟨rfl, rfl, rfl⟩
  refine ⟨by decide, ?_, hinner, by decide +kernel, by decide +kernel⟩
  rw [hname]
  with_unfolding_all rfl

end Mustache
