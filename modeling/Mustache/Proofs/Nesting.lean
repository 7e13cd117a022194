import Mustache.Proofs.Descent
import Mustache.Template

/-!
# How sections nest

What a tree has to say about nesting, said without a tree. A `Walk` goes through a template token by
token with the open sections on a stack, and takes down the kind, the name and the depth of every
tag it passes. It builds nothing.

## The other sides

* `Walk.along` reads a token and looks at it before it reads the next, so it ends with the first
  defect that it meets, whichever kind that is.
* `Nested` is a grammar: what nests well is a sequence of flat tags and of sections, each around
  something that nests well. It has no stack and no order of looking at things.

A `Draft` is a walk with elements in place of headings (`Draft.walk`), and the two go in step
(`Draft.walk_take`): that is all there is to `outline_eq_along`, the descent being a draft's
(`Tree.ofText_eq_descend`). Lines up to a token and depths are those of the walk, so nothing has to
be known of the tree to come.
-/

namespace Mustache

/-- What the outline of a template shows of a tag. -/
structure Heading where
  depth : Nat
  kind : TagKind
  name : String
  line? : Option Nat
  deriving DecidableEq

namespace Heading

/-- The heading of a tag at a depth. -/
def ofTag (t : Nat × Tag) : Heading :=
  ⟨t.1, t.2.kind, t.2.name, t.2.line?⟩

/-- The heading of the open tag of a section. -/
def ofSection (depth : Nat) (name : String) (inverted : Bool) (line : Nat) : Heading :=
  ⟨depth, if inverted then .invertedBlock else .block, name, some line⟩

/-- The headings of elements that are `depth` levels down, a section before what is in it. -/
def ofElements (depth : Nat) (es : List Element) : List Heading :=
  (Tag.outlines depth (Tag.ofElements es)).map ofTag

end Heading

/-- What the outline of a tree shows, and the delimiters the template ends with. -/
def Tree.outline (tree : Tree) : List Heading × Delimiters :=
  (Heading.ofElements 0 tree.elements, tree.delimiters)

/-! ### Walks -/

/-- A walk through a template. -/
structure Walk where
  /-- The sections that are open, the innermost first, each with the line of its open tag. -/
  nest : List (String × Nat)
  /-- The tags passed, in order. The depth of a tag is the number of sections open at it. -/
  passed : List Heading

namespace Walk

/-- The walk before the first token. -/
def start : Walk :=
  ⟨[], []⟩

/-- The walk past a tag that opens and closes nothing. -/
def pass (w : Walk) (kind : TagKind) (name : String) : Walk :=
  { w with passed := w.passed ++ [⟨w.nest.length, kind, name, none⟩] }

/-- The walk past the end of the innermost section. -/
def leave (w : Walk) (name : String) (line : Nat) : Except Malformed Walk :=
  match w.nest with
  | [] => .error ⟨line, .unmatchedClose⟩
  | (innermost, _) :: outer =>
    if innermost = name then .ok { w with nest := outer }
    else .error ⟨line, .interleavedClose name⟩

/-- The walk past a token. -/
def step (w : Walk) (t : Token) : Except Malformed Walk :=
  match t.directive with
  | .enter name inverted =>
    .ok ⟨(name, t.line) :: w.nest,
      w.passed ++ [.ofSection w.nest.length name inverted t.line]⟩
  | .leave name => w.leave name t.line
  | .interpolation name _ => .ok (w.pass .interpolation name)
  | .inclusion name => .ok (w.pass .inclusion name)
  | .comment | .delimiters _ => .ok w

/-- The end of the walk: the tags passed and the delimiters in effect. -/
def finish (w : Walk) : Ending → Except Malformed (List Heading × Delimiters)
  | .defective m => .error m
  | .finished _ delimiters =>
    match w.nest with
    | [] => .ok (w.passed, delimiters)
    | (name, line) :: _ => .error ⟨line, .unclosedSection name⟩

/-- The walk from a position on. -/
def along (w : Walk) (c : Cursor) : Except Malformed (List Heading × Delimiters) :=
  match _hstep : c.step with
  | .stop e => w.finish e
  | .token t next =>
    match w.step t with
    | .error m => .error m
    | .ok w => w.along next
termination_by c.rest.length
decreasing_by exact Cursor.length_rest_lt_of_step _hstep

/-- At the end of the tokens the walk is finished. -/
theorem along_of_stop {c : Cursor} {e : Ending} (h : c.step = .stop e) (w : Walk) :
    w.along c = w.finish e := by
  rw [along]
  split
  · next hstep => rw [h] at hstep; cases hstep; rfl
  · next hstep => rw [h] at hstep; cases hstep

/-- One token is one step of the walk. -/
theorem along_of_token {c next : Cursor} {t : Token} (h : c.step = .token t next) (w : Walk) :
    w.along c = w.step t >>= fun w ↦ w.along next := by
  rw [along]
  split
  · next hstep => rw [h] at hstep; cases hstep
  · next hstep =>
    rw [h] at hstep
    cases hstep
    cases w.step t <;> rfl

/-- A walk along a text is a walk along its tokens. -/
theorem along_eq (w : Walk) (c : Cursor) :
    w.along c = c.tokens.list.foldlM step w >>= fun w ↦ w.finish c.tokens.ending := by
  match hstep : c.step with
  | .stop e =>
    rw [along_of_stop hstep, Cursor.tokens_of_stop hstep]
    rfl
  | .token t next =>
    rw [along_of_token hstep, Cursor.tokens_of_token hstep, Tokens.push, List.foldlM_cons,
      bind_assoc]
    exact congrArg _ (funext fun w ↦ along_eq w next)
termination_by c.rest.length
decreasing_by exact Cursor.length_rest_lt_of_step hstep

end Walk

/-! ### Headings of elements -/

theorem Tag.outlines_append (depth : Nat) (ts us : List Tag) :
    outlines depth (ts ++ us) = outlines depth ts ++ outlines depth us := by
  induction ts with
  | nil => rfl
  | cons t ts ih => rw [List.cons_append, outlines_cons, ih, outlines_cons, List.append_assoc]

namespace Heading

theorem ofElements_append (depth : Nat) (es fs : List Element) :
    ofElements depth (es ++ fs) = ofElements depth es ++ ofElements depth fs := by
  simp only [ofElements, Tag.ofElements_eq_filterMap, List.filterMap_append, Tag.outlines_append,
    List.map_append]

theorem ofElements_nil (depth : Nat) : ofElements depth [] = [] := rfl

theorem ofElements_text (depth : Nat) (t : String) : ofElements depth [.text t] = [] := rfl

/-- Text at the end of a level has no heading. -/
theorem ofElements_concat_text (depth : Nat) (es : List Element) (t : String) :
    ofElements depth (es ++ [.text t]) = ofElements depth es := by
  rw [ofElements_append, ofElements_text, List.append_nil]

theorem ofElements_interpolation (depth : Nat) (name : String) (raw : Bool) :
    ofElements depth [.interpolation name raw] = [⟨depth, .interpolation, name, none⟩] := rfl

theorem ofElements_inclusion (depth : Nat) (name indent : String) (lineEnd? : Option String) :
    ofElements depth [.inclusion name indent lineEnd?] = [⟨depth, .inclusion, name, none⟩] := rfl

/-- The children of a section follow its open tag, one level deeper. -/
theorem ofElements_block (depth : Nat) (name : String) (inverted : Bool) (line : Nat)
    (children : List Element) :
    ofElements depth [.block name inverted line children] =
      ofSection depth name inverted line :: ofElements (depth + 1) children := by
  have hone : Tag.ofElements [.block name inverted line children] =
      [.mk (if inverted then .invertedBlock else .block) name (some line)
        (Tag.ofElements children)] := by
    rw [Tag.ofElements_eq_filterMap]
    rfl
  rw [ofElements, hone, Tag.outlines_cons, Tag.outline_mk, Tag.outlines_nil, List.append_nil,
    List.map_cons]
  rfl

end Heading

/-! ### Drafts are walks -/

/-- The headings in front of the innermost of some open sections, its own included. -/
def OpenSection.headings : List OpenSection → List Heading
  | [] => []
  | s :: outer =>
    headings outer ++ Heading.ofElements outer.length s.before.reverse ++
      [.ofSection outer.length s.name s.inverted s.line]

namespace Draft

/-- The walk that has come as far as a draft. -/
def walk (d : Draft) : Walk :=
  ⟨d.sections.map fun s ↦ (s.name, s.line),
    OpenSection.headings d.sections ++ Heading.ofElements d.sections.length d.elements.reverse⟩

theorem walk_empty : empty.walk = .start := rfl

/-- Text is nothing to a walk. -/
theorem walk_addText (d : Draft) (t : List Char) : (d.addText t).walk = d.walk := by
  unfold addText
  split
  · rfl
  · obtain ⟨es, sections⟩ := d
    cases es with
    | nil => rfl
    | cons e es =>
      -- a text in front of it is made longer, behind any other element it is one more
      cases e <;> simp only [walk, List.reverse_cons, Heading.ofElements_concat_text]

/-- **Drafts and walks go in step**, and stop at the same defect. -/
theorem walk_take (forceRaw : Bool) (d : Draft) (t : Token) :
    (d.take forceRaw t).map walk = d.walk.step t := by
  rw [← d.walk_addText t.text]
  unfold take
  generalize d.addText t.text = d
  obtain ⟨es, sections⟩ := d
  unfold Walk.step
  cases hd : t.directive with
  | comment | delimiters => simp [Element.ofToken?, hd, Except.map]
  | interpolation name raw =>
    simp [Element.ofToken?, hd, Except.map, addElement, walk, Walk.pass,
      Heading.ofElements_append, Heading.ofElements_interpolation]
  | inclusion name =>
    cases hend : t.lineEnd? <;>
      simp [Element.ofToken?, hd, hend, Except.map, addElement, walk, Walk.pass,
        Heading.ofElements_append, Heading.ofElements_inclusion]
  | enter name inverted =>
    simp [Except.map, enter, walk, OpenSection.headings, Heading.ofElements_nil]
  | leave name =>
    cases sections with
    | nil => rfl
    | cons s outer =>
      simp only [leave, walk, Walk.leave, List.map_cons]
      split
      · simp [Except.map, walk, OpenSection.headings, Heading.ofElements_append,
          Heading.ofElements_block]
      · rfl

/-- Reading tokens is walking along them, up to the first error. -/
theorem walk_foldlM_take (forceRaw : Bool) (d : Draft) (ts : List Token) :
    (ts.foldlM (take forceRaw) d).map walk = ts.foldlM Walk.step d.walk := by
  induction ts generalizing d with
  | nil => rfl
  | cons t ts ih =>
    rw [List.foldlM_cons, List.foldlM_cons, ← walk_take forceRaw]
    cases d.take forceRaw t with
    | error m => rfl
    | ok d => exact ih d

/-- The end of a template finds the same in a draft as in a walk. -/
theorem walk_finish (d : Draft) (e : Ending) :
    (d.finish e).map Tree.outline = d.walk.finish e := by
  cases e with
  | defective m => rfl
  | finished text delimiters =>
    have htext := congrArg Walk.passed (d.walk_addText text)
    obtain ⟨es, sections⟩ := d
    cases sections with
    | cons s outer => rfl
    | nil =>
      have hnone : (addText ⟨es, []⟩ text).sections = [] := sections_addText _ text
      have hsame : Heading.ofElements 0 (addText ⟨es, []⟩ text).elements.reverse =
          Heading.ofElements 0 es.reverse := by
        simpa only [walk, hnone, OpenSection.headings, List.nil_append, List.length_nil]
          using htext
      simp only [finish, Walk.finish, walk, Except.map, Tree.outline, List.map_nil, hsame,
        OpenSection.headings, List.nil_append, List.length_nil]

end Draft

/-! ### Well-nested tags -/

/-- Whether a directive neither opens nor closes a section. -/
def Directive.IsFlat : Directive → Prop
  | .enter _ _ | .leave _ => False
  | _ => True

/-- Sequences of tags in which every section is closed, and by a tag with its name. -/
inductive Nested : List Directive → Prop
  | nil : Nested []
  | flat {d : Directive} {ds : List Directive} (hd : d.IsFlat) (hds : Nested ds) :
      Nested (d :: ds)
  | block {name : String} {inverted : Bool} {inner ds : List Directive} (hinner : Nested inner)
      (hds : Nested ds) : Nested (.enter name inverted :: (inner ++ .leave name :: ds))

/-- Sequences of tags that close sections of these names, the innermost first, and nest well
between the close tags. -/
def Closes : List String → List Directive → Prop
  | [], ds => Nested ds
  | name :: names, ds =>
    ∃ inner outer, ds = inner ++ .leave name :: outer ∧ Nested inner ∧ Closes names outer

namespace Closes

/-- A flat tag or a whole section in front changes nothing. -/
theorem append_of_nested {names : List String} {front ds : List Directive}
    (hfront : ∀ {ds}, Nested ds → Nested (front ++ ds)) (h : Closes names ds) :
    Closes names (front ++ ds) := by
  cases names with
  | nil => exact hfront h
  | cons name names =>
    obtain ⟨inner, outer, rfl, hinner, houter⟩ := h
    exact ⟨front ++ inner, outer, by simp, hfront hinner, houter⟩

theorem flat {names : List String} {d : Directive} {ds : List Directive} (hd : d.IsFlat)
    (h : Closes names ds) : Closes names (d :: ds) := by
  have hfront : ∀ {es}, Nested es → Nested ([d] ++ es) := fun hes ↦ .flat hd hes
  exact append_of_nested hfront h

/-- An open tag needs one close tag more. -/
theorem enter {names : List String} {name : String} {inverted : Bool} {ds : List Directive}
    (h : Closes (name :: names) ds) : Closes names (.enter name inverted :: ds) := by
  obtain ⟨inner, outer, rfl, hinner, houter⟩ := h
  have hfront : ∀ {es}, Nested es →
      Nested ((.enter name inverted :: (inner ++ [.leave name])) ++ es) := by
    intro es hes
    simpa using Nested.block hinner hes
  simpa using append_of_nested hfront houter

theorem leave {names : List String} {name : String} {ds : List Directive} (h : Closes names ds) :
    Closes (name :: names) (.leave name :: ds) :=
  ⟨[], ds, rfl, .nil, h⟩

end Closes

namespace Walk

theorem step_of_isFlat {t : Token} (ht : t.directive.IsFlat) (w : Walk) :
    ∃ passed, w.step t = .ok ⟨w.nest, passed⟩ := by
  unfold step
  split
  · next heq =>
    rw [heq] at ht
    exact ht.elim
  · next heq =>
    rw [heq] at ht
    exact ht.elim
  all_goals exact ⟨_, rfl⟩

/-- Tags that nest well lead a walk back to the sections it came from. -/
theorem foldlM_step_of_nested {ds : List Directive} (h : Nested ds) {ts : List Token}
    (hts : ts.map Token.directive = ds) (w : Walk) :
    ∃ passed, ts.foldlM step w = .ok ⟨w.nest, passed⟩ := by
  induction h generalizing ts w with
  | nil =>
    obtain rfl := List.map_eq_nil_iff.1 hts
    exact ⟨w.passed, rfl⟩
  | flat hd _ ih =>
    obtain ⟨t, us, rfl, rfl, hus⟩ := List.map_eq_cons_iff.1 hts
    obtain ⟨passed, hstep⟩ := step_of_isFlat hd w
    rw [List.foldlM_cons, hstep]
    exact ih hus ⟨w.nest, passed⟩
  | @block name inverted _ _ _ _ ihinner ihds =>
    obtain ⟨t, us, rfl, ht, hus⟩ := List.map_eq_cons_iff.1 hts
    obtain ⟨inside, vs, rfl, hinside, hvs⟩ := List.map_eq_append_iff.1 hus
    obtain ⟨u, after, rfl, hu, hafter⟩ := List.map_eq_cons_iff.1 hvs
    have henter : w.step t = .ok ⟨(name, t.line) :: w.nest,
        w.passed ++ [.ofSection w.nest.length name inverted t.line]⟩ := by
      simp only [step, ht]
    obtain ⟨passed, hinner⟩ := ihinner hinside ⟨(name, t.line) :: w.nest, _⟩
    have hleave : step ⟨(name, t.line) :: w.nest, passed⟩ u = .ok ⟨w.nest, passed⟩ := by
      simp only [step, hu, leave, if_true]
    obtain ⟨last, houter⟩ := ihds hafter ⟨w.nest, passed⟩
    refine ⟨last, ?_⟩
    rw [List.foldlM_cons, henter]
    show (inside ++ u :: after).foldlM step _ = _
    rw [List.foldlM_append, hinner]
    show (u :: after).foldlM step _ = _
    rw [List.foldlM_cons, hleave]
    exact houter

/-- What a step does to the open sections. -/
theorem step_cases {w w' : Walk} {t : Token} (h : w.step t = .ok w') :
    (t.directive.IsFlat ∧ w'.nest = w.nest) ∨
      (∃ name inverted, t.directive = .enter name inverted ∧
        w'.nest = (name, t.line) :: w.nest) ∨
      ∃ name line, t.directive = .leave name ∧ w.nest = (name, line) :: w'.nest := by
  cases hd : t.directive with
  | enter name inverted =>
    simp only [step, hd] at h
    cases h
    exact .inr (.inl ⟨name, inverted, rfl, rfl⟩)
  | leave name =>
    simp only [step, hd, leave] at h
    split at h
    · cases h
    · next innermost line outer hnest =>
      split at h
      · next hname =>
        cases h
        exact .inr (.inr ⟨name, line, rfl, by rw [hnest, hname]⟩)
      · cases h
  | _ =>
    have hflat : t.directive.IsFlat := by rw [hd]; trivial
    obtain ⟨passed, hstep⟩ := step_of_isFlat hflat w
    obtain rfl := Except.ok.inj (hstep.symm.trans h)
    exact .inl ⟨trivial, rfl⟩

/-- A walk that ends outside all sections has closed those it came from. -/
theorem closes_of_foldlM_step {w w' : Walk} {ts : List Token} (h : ts.foldlM step w = .ok w')
    (hend : w'.nest = []) : Closes (w.nest.map Prod.fst) (ts.map Token.directive) := by
  induction ts generalizing w with
  | nil =>
    cases h
    rw [hend]
    exact Nested.nil
  | cons t ts ih =>
    rw [List.foldlM_cons] at h
    obtain ⟨w₁, hstep, hrest⟩ := bind_eq_ok_iff.1 h
    have hcloses := ih hrest
    rw [List.map_cons]
    rcases step_cases hstep with
      ⟨hflat, hnest⟩ | ⟨name, inverted, hd, hnest⟩ | ⟨name, line, hd, hnest⟩
    · rw [hnest] at hcloses
      exact .flat hflat hcloses
    · rw [hnest] at hcloses
      rw [hd]
      exact .enter hcloses
    · rw [hnest, hd]
      exact .leave hcloses

/-- **A walk from outside all sections ends outside again exactly when the tags nest well.** -/
theorem foldlM_step_start_iff (ts : List Token) :
    (∃ passed, ts.foldlM step start = .ok ⟨[], passed⟩) ↔ Nested (ts.map Token.directive) := by
  constructor
  · rintro ⟨passed, h⟩
    exact closes_of_foldlM_step h rfl
  · intro h
    exact foldlM_step_of_nested h rfl start

/-- A walk comes to a good end where the text does, outside all sections. -/
theorem exists_finish_eq_ok_iff (w : Walk) (e : Ending) :
    (∃ r, w.finish e = .ok r) ↔ w.nest = [] ∧ ∃ text delimiters, e = .finished text delimiters := by
  constructor
  · rintro ⟨r, h⟩
    cases e with
    | defective m => cases h
    | finished text delimiters =>
      cases hnest : w.nest with
      | nil => exact ⟨rfl, text, delimiters, rfl⟩
      | cons s outer =>
        simp only [finish, hnest] at h
        cases h
  · rintro ⟨hnest, text, delimiters, rfl⟩
    refine ⟨(w.passed, delimiters), ?_⟩
    simp only [finish, hnest]

/-- Tokens are walked through to a good end exactly when nothing is wrong with them and their tags
nest well. -/
theorem exists_eq_ok_iff (ts : Tokens) :
    (∃ r, (ts.list.foldlM step start >>= fun w ↦ w.finish ts.ending) = .ok r) ↔
      (∃ text delimiters, ts.ending = .finished text delimiters) ∧
        Nested (ts.list.map Token.directive) := by
  rw [← foldlM_step_start_iff]
  constructor
  · rintro ⟨r, h⟩
    obtain ⟨w, hfold, hfinish⟩ := bind_eq_ok_iff.1 h
    obtain ⟨hnest, hending⟩ := (exists_finish_eq_ok_iff w _).1 ⟨r, hfinish⟩
    refine ⟨hending, w.passed, ?_⟩
    rw [hfold, ← hnest]
  · rintro ⟨hending, passed, hfold⟩
    rw [hfold]
    exact (exists_finish_eq_ok_iff ⟨[], passed⟩ _).2 ⟨rfl, hending⟩

end Walk

/-! ### Outlines -/

namespace Tree

/-- The outline of a tree is what a walk along its tokens passes. -/
theorem outline_ofTokens (forceRaw : Bool) (ts : Tokens) :
    (ofTokens forceRaw ts).map outline =
      ts.list.foldlM Walk.step .start >>= fun w ↦ w.finish ts.ending := by
  have hwalk := Draft.walk_foldlM_take forceRaw .empty ts.list
  rw [Draft.walk_empty] at hwalk
  rw [← hwalk, ofTokens]
  cases ts.list.foldlM (Draft.take forceRaw) .empty with
  | error m => rfl
  | ok d => exact d.walk_finish ts.ending

/-- Tokens make a tree exactly when nothing is wrong with them and their tags nest well. -/
theorem exists_ofTokens_eq_ok_iff (forceRaw : Bool) (ts : Tokens) :
    (∃ tree, ofTokens forceRaw ts = .ok tree) ↔
      (∃ text delimiters, ts.ending = .finished text delimiters) ∧
        Nested (ts.list.map Token.directive) := by
  rw [← Walk.exists_eq_ok_iff, ← outline_ofTokens forceRaw]
  constructor
  · rintro ⟨tree, h⟩
    rw [h]
    exact ⟨tree.outline, rfl⟩
  · rintro ⟨r, h⟩
    cases htree : ofTokens forceRaw ts with
    | error m =>
      rw [htree] at h
      cases h
    | ok tree => exact ⟨tree, rfl⟩

end Tree

/-- **A template is read the way a walk through it goes**: to the same tags at the same depths, or
to the same first defect. It is what reading level by level comes to, and the template is read to
its end exactly when its tags nest well. -/
theorem outline_eq_along (c : Compiler) (template : String) :
    c.parse template = Tree.descend (c.escapeMode == .raw) template ∧
      (c.parse template).map Tree.outline = Walk.start.along (.start template.toList) ∧
      ((∃ tree, c.parse template = .ok tree) ↔
        (∃ text delimiters,
          (Tokens.ofTemplate template.toList).ending = .finished text delimiters) ∧
        Nested ((Tokens.ofTemplate template.toList).list.map Token.directive)) := by
  refine ⟨Tree.ofText_eq_descend _ template, ?_, Tree.exists_ofTokens_eq_ok_iff _ _⟩
  rw [Walk.along_eq]
  exact Tree.outline_ofTokens _ _

end Mustache
