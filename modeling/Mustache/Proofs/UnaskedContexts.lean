import Mustache.Proofs.ChainsAlike

/-!
# Contexts that nobody asks

A mapping among the contexts of a rendering does not matter, wherever it stands, if no template that
takes part asks for one of its keys or for a scope itself (`unasked_context`). The templates are
those that are compiled in one of the two renderings, with the mapping or without it.

Looking for a name, a rendering gets to the mapping whenever the scopes in front of it have no
value, and an inverted section may put it in front of a chain. It has no value either
(`Value.get?_map_of_apartFrom`), so the chains answer alike for all the names that are asked for.

A layout is rendered with a mapping of this kind in front of its contexts. Its one key is `content`.
-/

namespace Mustache

/-- Whether a name is not the dot and the text in front of its first dot is none of these keys. -/
def Name.ApartFrom (keys : List String) (name : String) : Prop :=
  name ≠ "." ∧ String.ofList (name.toList.takeWhile (· != '.')) ∉ keys

instance (keys : List String) : DecidablePred (Name.ApartFrom keys) :=
  fun name ↦ inferInstanceAs
    (Decidable (name ≠ "." ∧ String.ofList (name.toList.takeWhile (· != '.')) ∉ keys))

theorem Name.ApartFrom.first {keys : List String} {name : String} (h : ApartFrom keys name) :
    (ofString name).first ≠ "." ∧ (ofString name).first ∉ keys := by
  obtain ⟨hdot, hkeys⟩ := h
  rw [first_ofString, if_neg hdot]
  refine ⟨fun heq ↦ ?_, hkeys⟩
  -- what is in front of a dot has none
  have hmem : '.' ∈ name.toList.takeWhile (· != '.') := by
    rw [← String.toList_ofList (l := name.toList.takeWhile (· != '.')), heq]
    exact List.mem_singleton_self _
  exact absurd (List.all_eq_true.1 List.all_takeWhile _ hmem) (by decide)

namespace Value

/-- A mapping has no value for a name that is apart from its keys. -/
theorem get?_map_of_apartFrom {es : List (String × Value)} {name : String}
    (h : Name.ApartFrom (es.map Prod.fst) name) :
    (map es).get? (Name.ofString name).first = .silent none := by
  obtain ⟨hdot, hkeys⟩ := h.first
  rw [get?, if_neg hdot]
  rcases hlookup : es.lookup (Name.ofString name).first with - | v
  · rfl
  · exact absurd (List.mem_map_of_mem (Entries.mem_of_lookup hlookup)) hkeys

/-- A mapping makes no difference to names that are apart from its keys. -/
theorem answerAlike_map_cons (es : List (String × Value)) (chain : List Value) :
    AnswerAlike (Name.ApartFrom (es.map Prod.fst)) (.map es :: chain) chain := by
  intro name hname
  rw [found_lookup_cons, get?_map_of_apartFrom hname]
  rfl

end Value

/-- A layout is rendered with the text of the template as its content. -/
theorem Template.text_and_outcome_runInLayout {t : Template} {files : FileTree}
    {contexts : List Value} {content : String} (h : (t.run files contexts).toText = .ok content)
    (layout : Template) :
    let inside := layout.run files (.map [("content", .text content)] :: contexts)
    (t.runInLayout layout files contexts).text = inside.text ∧
      (t.runInLayout layout files contexts).outcome = inside.outcome := by
  intro inside
  have hcaptured : (t.run files contexts).captured.outcome = .ok (.ok content) := by
    rw [Run.outcome_captured, ← Run.toText_eq, h]
    rfl
  have hquiet : (t.run files contexts).captured.text = "" :=
    Run.text_of_quiet (Run.quiet_capturedAfter "" _)
  constructor
  · rw [runInLayout, Run.text_bind, hquiet, hcaptured]
    exact String.empty_append
  · rw [runInLayout, Run.outcome_bind, hcaptured]
    rfl

/-- **Contexts that define nothing that is asked for do not matter.** A mapping may stand anywhere
among the contexts if the template and all templates that are compiled on the way, with the mapping
or without it, ask for no key of it and not for the dot. A layout that asks for no content renders,
where there is content, as it would alone. -/
theorem unasked_context :
    (∀ (t : Template) (files : FileTree) front (es : List (String × Value)) behind,
      let P := Name.ApartFrom (es.map Prod.fst)
      let without := t.run files (front ++ behind)
      let more := t.run files (front ++ .map es :: behind)
      t.tree.AsksOnly P →
        without.NotesOnly (Notice.AsksOnly P) ∨ more.NotesOnly (Notice.AsksOnly P) →
          more.text = without.text ∧ more.outcome = without.outcome) ∧
    ∀ (t layout : Template) (files : FileTree) contexts content,
      let P := Name.ApartFrom ["content"]
      let alone := layout.run files contexts
      let more := layout.run files (.map [("content", .text content)] :: contexts)
      (t.run files contexts).toText = .ok content → layout.tree.AsksOnly P →
        alone.NotesOnly (Notice.AsksOnly P) ∨ more.NotesOnly (Notice.AsksOnly P) →
          (t.runInLayout layout files contexts).text = alone.text ∧
            (t.runInLayout layout files contexts).outcome = alone.outcome := by
  have hcontexts (t : Template) (files : FileTree) (front : List Value)
      (es : List (String × Value)) (behind : List Value)
      (htree : t.tree.AsksOnly (Name.ApartFrom (es.map Prod.fst)))
      (hnotes : (t.run files (front ++ behind)).NotesOnly
          (Notice.AsksOnly (Name.ApartFrom (es.map Prod.fst))) ∨
        (t.run files (front ++ .map es :: behind)).NotesOnly
          (Notice.AsksOnly (Name.ApartFrom (es.map Prod.fst)))) :
      (t.run files (front ++ .map es :: behind)).text = (t.run files (front ++ behind)).text ∧
        (t.run files (front ++ .map es :: behind)).outcome =
          (t.run files (front ++ behind)).outcome :=
    t.compiler.text_and_outcome_of_answerAlike _ files htree
      ((Value.answerAlike_map_cons es behind).append_left front) Template.maxDepth hnotes.symm
  refine ⟨hcontexts, ?_⟩
  intro t layout files contexts content P alone more hcontent htree hnotes
  obtain ⟨htext, houtcome⟩ := Template.text_and_outcome_runInLayout hcontent layout
  obtain ⟨htext', houtcome'⟩ :=
    hcontexts layout files [] [("content", .text content)] contexts htree hnotes
  exact ⟨htext.trans htext', houtcome.trans houtcome'⟩

/-- A layout with a partial that asks for other names, around a template and with a mapping behind
its contexts. -/
theorem unasked_context_of_layout :
    let P := Name.ApartFrom ["content"]
    let text := "\x7b\x7b^y\x7d\x7d\x7b\x7bx.z\x7d\x7d\x7b\x7b/y\x7d\x7d"
    let c := Compiler.standard.withProvider (Partials.ofList [("p", text)]).provider
    let layout : Template := ⟨⟨[.text "a", .inclusion "p" "" none], .standard⟩, c⟩
    let t : Template := ⟨⟨[.text "t"], .standard⟩, c⟩
    let contexts : List Value := [.map [("x", .map [("z", .text "v")])]]
    (t.run .empty contexts).toText = .ok "t" ∧ layout.tree.AsksOnly P ∧
      (layout.run .empty contexts).NotesOnly (Notice.AsksOnly P) ∧
      ((t.runInLayout layout .empty contexts).text = "av" ∧
        (t.runInLayout layout .empty contexts).outcome = .ok ()) ∧
      (layout.run .empty (contexts ++ [.map [("content", .text "w")]])).text = "av" ∧
      (layout.run .empty (contexts ++ [.map [("content", .text "w")]])).outcome = .ok () := by
  intro P text c layout t contexts
  have hrun :
      let r := layout.run .empty contexts
      r.text = "av" ∧ r.outcome = .ok () ∧ r.NotesOnly (Notice.AsksOnly P) := by
    decide +kernel
  obtain ⟨htext, houtcome, hnotes⟩ := hrun
  have hcontent : (t.run .empty contexts).toText = .ok "t" := by
    rw [Run.toText_eq]
    rfl
  have htree : layout.tree.AsksOnly P := by decide
  obtain ⟨hcontexts, hlayout⟩ := unasked_context
  obtain ⟨hmore, hmore'⟩ :=
    hcontexts layout .empty contexts [("content", .text "w")] [] htree (.inl hnotes)
  obtain ⟨hinside, hinside'⟩ :=
    hlayout t layout .empty contexts "t" hcontent htree (.inl hnotes)
  exact ⟨hcontent, htree, hnotes, ⟨hinside.trans htext, hinside'.trans houtcome⟩,
    hmore.trans htext, hmore'.trans houtcome⟩

end Mustache
