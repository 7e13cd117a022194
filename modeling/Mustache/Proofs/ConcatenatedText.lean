import Mustache.Proofs.Recast
import Mustache.Proofs.RunsInSequence
import Mustache.Proofs.Seam
import Mustache.Proofs.SourcePieces
import Mustache.Rendering.Sequence

/-!
# One text behind another

A text that compiles, ends where a line starts and leaves the delimiters that a template starts with
can be put in front of any other text (`concatenation`). The two are compiled as each is alone, but
for the lines of the second, which are further down, and for the text at the seam, which is one.
They are rendered one after the other.

Reading across the seam is `Draft.along_extended`. What is left to say is that nothing depends on
what it leaves behind:

* **not on the elements in front** (`Cursor.level_onto`): a level goes on the same on top of any
  elements, but that its first text joins theirs (`Element.onto`, the way of a level to say
  `Element.join`);
* **not on the line** (`Draft.along_below`): a template further down is the template with its lines
  changed, which is a `Recast`.
-/

namespace Mustache

/-! ### Elements behind elements -/

namespace Element

/-- Elements and others behind them. A text at the seam is one with a text next to it. -/
def join (es fs : List Element) : List Element :=
  match es.getLast?, fs with
  | some (.text t), .text u :: fs => es.dropLast ++ .text (t ++ u) :: fs
  | _, _ => es ++ fs

/-- The elements of a level behind those in front of it, the latest first in both. -/
def onto (base read : List Element) : List Element :=
  (join base.reverse read.reverse).reverse

theorem onto_nil (base : List Element) : onto base [] = base := by
  have hnil (es : List Element) : join es [] = es := by
    unfold join
    rcases es.getLast? with - | ⟨_ | _ | _ | _⟩ <;> exact List.append_nil es
  rw [onto, List.reverse_nil, hnil, List.reverse_reverse]

/-- Nothing but a text right behind the seam sees what is in front of it. -/
theorem onto_cons (base : List Element) {e : Element} {read : List Element}
    (h : read = [] → ∀ t, e ≠ .text t) : onto base (e :: read) = e :: onto base read := by
  have hsnoc (es fs : List Element) (h : fs = [] → ∀ t, e ≠ .text t) :
      join es (fs ++ [e]) = join es fs ++ [e] := by
    unfold join
    rcases es.getLast? with - | ⟨t | _ | _ | _⟩
    · exact (List.append_assoc _ _ _).symm
    · rcases fs with - | ⟨u | _ | _ | _, fs⟩
      · rcases e with u | _ | _ | _
        · exact absurd rfl (h rfl u)
        all_goals rw [List.append_nil]; rfl
      · simp
      all_goals exact (List.append_assoc _ _ _).symm
    all_goals exact (List.append_assoc _ _ _).symm
  rw [onto, List.reverse_cons, hsnoc _ _ fun hnil ↦ h (List.reverse_eq_nil_iff.1 hnil),
    List.reverse_append]
  rfl

theorem onto_cons_cons (base : List Element) (e f : Element) (read : List Element) :
    onto base (e :: f :: read) = e :: onto base (f :: read) :=
  onto_cons base fun h ↦ nomatch h

theorem onto_text (base : List Element) (u : String) :
    onto base [.text u] =
      match base with
      | .text t :: base => .text (t ++ u) :: base
      | base => .text u :: base := by
  unfold onto join
  rcases base with - | ⟨t | _ | _ | _, base⟩
  · rfl
  all_goals
    rw [List.reverse_cons, List.getLast?_concat]
    simp

/-- A text goes to the end of both. -/
theorem onto_addText (base read : List Element) (t : List Char) :
    onto base (addText read t) = addText (onto base read) t := by
  by_cases ht : t = []
  · rw [ht, addText_nil, addText_nil]
  · have hadd := addText_of_ne_nil ht
    have hother (e : Element) (he : ∀ u, e ≠ .text u) (read : List Element) :
        onto base (addText (e :: read) t) = addText (onto base (e :: read)) t := by
      have htop (read : List Element) :
          addText (e :: read) t = .text (String.ofList t) :: e :: read := by
        rw [hadd]
        rcases e with u | _ | _ | _
        · exact absurd rfl (he u)
        all_goals rfl
      rw [htop, onto_cons_cons, onto_cons base fun _ ↦ he, htop]
    rcases read with - | ⟨u | _ | _ | _, read⟩
    · rw [onto_nil, hadd, hadd]
      refine (onto_text base (String.ofList t)).trans ?_
      rcases base with - | ⟨_ | _ | _ | _, _⟩ <;> rfl
    · rcases read with - | ⟨e, read⟩
      · rw [hadd, hadd, onto_text, onto_text]
        rcases base with - | ⟨_ | _ | _ | _, _⟩
        · rfl
        · dsimp only
          rw [String.append_assoc]
        all_goals rfl
      · rw [hadd, hadd, onto_cons_cons, onto_cons_cons]
    all_goals
      refine hother _ (fun _ h ↦ ?_) read
      cases h

end Element

theorem Element.ne_text_of_ofToken? {forceRaw : Bool} {t : Token} {e : Element}
    (h : ofToken? forceRaw t = some e) (u : String) : e ≠ .text u := by
  rintro rfl
  unfold ofToken? at h
  split at h
  · cases h
  · split at h <;> cases h
  · cases h

namespace Cursor

variable (forceRaw : Bool)

/-- A level of a template behind the elements in front of it. -/
def Level.onto (base : List Element) {c : Cursor} (l : Level c) : Level c :=
  { l with elements := Element.onto base l.elements }

/-- **What is in front of the template makes no difference to what is read of it.** -/
theorem level_onto (base read : List Element) (c : Cursor) :
    c.level forceRaw none (Element.onto base read) =
      (c.level forceRaw none read).map (Level.onto base) := by
  match hstep : c.step with
  | .stop (.defective m) =>
    rw [level_of_defective forceRaw _ _ hstep, level_of_defective forceRaw _ _ hstep]
    rfl
  | .stop (.finished text d) =>
    rw [level_of_finished forceRaw _ _ hstep, level_of_finished forceRaw _ _ hstep,
      ← Element.onto_addText]
    rfl
  | .token t next =>
    have hmap {c' : Cursor} (hle : c'.rest.length ≤ c.rest.length)
        (r : Except Malformed (Level c')) :
        (r.map (Level.onto base)).map (Level.widen hle) =
          (r.map (Level.widen hle)).map (Level.onto base) := by
      rcases r <;> rfl
    -- a tag in front keeps later text from being added to what is in front of the template
    have hflat (read : List Element) :
        (Element.ofToken? forceRaw t).toList ++ Element.onto base read =
          Element.onto base ((Element.ofToken? forceRaw t).toList ++ read) := by
      rcases he : Element.ofToken? forceRaw t with - | e
      · rfl
      · exact (Element.onto_cons base fun _ ↦ Element.ne_text_of_ofToken? he).symm
    rw [level_of_token forceRaw _ _ hstep, level_of_token forceRaw _ _ hstep,
      ← Element.onto_addText]
    generalize Element.addText read t.text = read
    cases t.directive with
    | enter name inverted =>
      dsimp only
      rcases next.level forceRaw (some (name, t.line)) [] with m | inner
      · rfl
      · dsimp only
        rw [← hmap, ← level_onto, Element.onto_cons base fun _ _ h ↦ Element.noConfusion h]
    | leave name => rfl
    | _ =>
      dsimp only
      rw [← hmap, ← level_onto, hflat]
termination_by c.rest.length
decreasing_by
  all_goals
    have hlt := length_rest_lt_of_step hstep
    first
    | exact hlt
    | exact Nat.lt_of_le_of_lt inner.length_rest_le hlt

end Cursor

/-- The tree of what follows other elements. -/
theorem Draft.along_behind (forceRaw : Bool) (base : List Element) (c : Cursor) :
    along forceRaw ⟨base, []⟩ c = (along forceRaw .empty c).map fun tree ↦
      ⟨Element.join base.reverse tree.elements, tree.delimiters⟩ := by
  have hbase := c.level_onto forceRaw base []
  rw [Element.onto_nil] at hbase
  rw [empty, along_eq_level, along_eq_level, List.head?_nil, Option.map_none, hbase]
  rcases c.level forceRaw none [] with m | l
  · rfl
  · show Except.ok (Tree.mk _ l.behind.delimiters) = Except.ok (Tree.mk _ l.behind.delimiters)
    rw [Cursor.Level.onto, Element.onto, List.reverse_reverse]

/-! ### Lines further down -/

/-- A template that starts further down. -/
def Recast.below (n : Nat) : Recast :=
  ⟨true, (· + n), fun indent _ ↦ indent⟩

namespace Recast

mutual

theorem element_below_zero (e : Element) : (below 0).element e = some e := by
  match e with
  | .text t => rfl
  | .interpolation name raw => rfl
  | .inclusion name indent lineEnd? => rfl
  | .block name inverted line children =>
    rw [element, elements_below_zero children]
    rfl
termination_by structural e

theorem elements_below_zero (es : List Element) : (below 0).elements es = es := by
  match es with
  | [] => rfl
  | e :: es =>
    rw [elements, element_below_zero e, elements_below_zero es]
    rfl
termination_by structural es

end

mutual

theorem coresOf_element_below (n : Nat) (e : Element) :
    Element.coresOf ((below n).element e).toList = [e.core] := by
  match e with
  | .text t => rfl
  | .interpolation name raw => rfl
  | .inclusion name indent lineEnd? => rfl
  | .block name inverted line children =>
    show [Element.block name inverted 0 (Element.coresOf ((below n).elements children))] = _
    rw [coresOf_elements_below n children]
    rfl
termination_by structural e

/-- Only lines differ further down. -/
theorem coresOf_elements_below (n : Nat) (es : List Element) :
    Element.coresOf ((below n).elements es) = Element.coresOf es := by
  match es with
  | [] => rfl
  | e :: es =>
    have happend (es fs : List Element) :
        Element.coresOf (es ++ fs) = Element.coresOf es ++ Element.coresOf fs := by
      induction es with
      | nil => rfl
      | cons e es ih => exact congrArg (e.core :: ·) ih
    rw [elements, happend, coresOf_element_below n e, coresOf_elements_below n es]
    rfl
termination_by structural es

end

end Recast

/-- The position further down. -/
def Cursor.below (c : Cursor) (n : Nat) : Cursor :=
  { c with line := c.line + n }

/-- The token further down. -/
def Token.below (t : Token) (n : Nat) : Token :=
  { t with line := t.line + n }

namespace Cursor

theorem step_below (c : Cursor) (n : Nat) :
    (c.below n).step =
      match c.step with
      | .token t next => .token (t.below n) (next.below n)
      | .stop e => .stop ((Recast.below n).ending e) := by
  have hline (a b : Nat) : c.line + n + a + b = c.line + a + b + n := by omega
  unfold step
  dsimp only [below]
  rcases Text.cut? c.delimiters.opening c.rest with - | ⟨text, inside⟩
  · rfl
  · dsimp only
    rcases body? c.delimiters inside with - | ⟨raw, behind⟩
    · dsimp only [Recast.ending, Recast.malformed, Recast.below]
      rw [Nat.add_right_comm]
    · dsimp only
      rw [hline]
      generalize c.line + Text.lineBreaks text + Text.lineBreaks raw = line
      split
      · rfl
      · rcases Directive.ofBody? (Text.trim raw) with - | directive
        · rfl
        · dsimp only [tagStep]
          rcases takenLineEnd? (Lead.ofText c.atLineStart text) (Text.trim raw) behind with
            - | ⟨ending, rest⟩
          · rfl
          · dsimp only
            rw [Nat.add_right_comm]
            rfl

/-- A step further down finds the same further down. -/
theorem agree_step_below (forceRaw : Bool) (n : Nat) (c : Cursor) :
    (Recast.below n).AgreeUpTo (Recast.below 0) forceRaw (fun c c' ↦ c' = c.below n) c.step
      (c.below n).step := by
  rw [step_below]
  rcases c.step with ⟨t, next⟩ | e
  · refine .token ⟨rfl, rfl, rfl, ?_⟩ rfl
    unfold Element.ofToken?
    dsimp only [Token.below]
    split
    · rfl
    · split <;> rfl
    · rfl
  · refine .stop ?_
    cases e <;> rfl

end Cursor

/-- **Further down, a template has the same tree further down**, or the same defect. -/
theorem Draft.along_below (forceRaw : Bool) (n : Nat) (c : Cursor) :
    along forceRaw .empty (c.below n) =
      (Recast.below n).lift (Recast.below n).tree (along forceRaw .empty c) := by
  have hsame (r : Except Malformed Tree) : (Recast.below 0).lift (Recast.below 0).tree r = r := by
    rcases r with m | tree
    · rfl
    · rw [Recast.lift, Recast.tree, Recast.elements_below_zero]
  have hstep {c c' : Cursor} (h : c' = c.below n) :
      (Recast.below n).AgreeUpTo (Recast.below 0) forceRaw (fun c c' ↦ c' = c.below n) c.step
        c'.step := by
    rw [h]
    exact c.agree_step_below forceRaw n
  have h := (Recast.below n).lift_tokens_eq (Recast.below 0) hstep (rfl : c.below n = c.below n)
  rw [hsame, Tree.ofTokens_eq_bind, Tree.ofTokens_eq_bind] at h
  exact h.symm

/-! ### Renderings -/

namespace Run

variable {α : Type}

/-- Two texts are written as one is. -/
theorem deliver_write_append (s : Sink) (t u : String) (rest : Unit → Run α) :
    (emit (.write (t ++ u)) rest).deliver s =
      (emit (.write t) fun _ ↦ emit (.write u) rest).deliver s := by
  have hbytes : (t ++ u).toUTF8 = t.toUTF8 ++ u.toUTF8 := String.toByteArray_append
  have htake (s : Sink) (t : String) : s.take (.write t) = s.write t.toUTF8 := rfl
  rw [deliver_emit, deliver_emit, htake, htake, hbytes, Sink.write_append]
  rcases s.write t.toUTF8 with ⟨s, _ | _⟩ <;> rfl

end Run

namespace Compiler

/-- Elements behind others are rendered behind them. -/
theorem deliver_renderAt_join (c : Compiler) (files : FileTree) (depth : Nat) (es fs : List Element)
    (chain : List Value) (s : Sink) :
    (c.renderAt files (depth + 1) (Element.join es fs) chain pure).deliver s =
      (c.renderAt files (depth + 1) es chain pure >>= fun _ ↦
        c.renderAt files (depth + 1) fs chain pure).deliver s := by
  have happend := congrArg (Run.deliver s) (c.renderAt_append files depth es fs chain)
  unfold Element.join
  split
  · next t u fs hlast =>
    obtain ⟨front, rfl⟩ := List.getLast?_eq_some_iff.1 hlast
    have htext (t : String) (fs : List Element) :
        c.renderAt files (depth + 1) (.text t :: fs) chain pure =
          .emit (.write t) fun _ ↦ c.renderAt files (depth + 1) fs chain pure := rfl
    rw [List.dropLast_concat, renderAt_append, renderAt_append, htext, htext, htext, bind_assoc,
      Run.deliver_bind, Run.deliver_bind]
    rcases ((c.renderAt files (depth + 1) front chain pure).deliver s).outcome with h | ⟨⟩
    · rfl
    · exact Run.deliver_write_append _ t u _
  · exact happend

end Compiler

/-- A text behind a template that ends where a line starts, with the delimiters of the start, is
compiled as it is alone, with its lines further down. -/
theorem Compiler.parse_append (c : Compiler) {t : String} {tree : Tree}
    (ht : c.parse t = .ok tree) (hdelimiters : tree.delimiters = .standard)
    (hline : Text.EndsAtLineStart t.toList) (u : String) :
    c.parse (t ++ u) =
      ((Recast.below (Text.lineBreaks t.toList)).lift
        (Recast.below (Text.lineBreaks t.toList)).tree (c.parse u)).map fun following ↦
          ⟨Element.join tree.elements following.elements, following.delimiters⟩ := by
  have halong (t : String) :
      c.parse t = Draft.along (c.escapeMode == .raw) .empty (.start t.toList) :=
    Tree.ofTokens_eq_bind _ _
  have hstart : (Cursor.start t.toList).EndsAtLineStart := by
    rcases hline with hnil | hlast
    · rw [Cursor.EndsAtLineStart, Text.lineStartsBehind, Cursor.start, hnil]
      rfl
    · rw [Cursor.EndsAtLineStart, Text.lineStartsBehind, Cursor.start, hlast]
      rfl
  have hcursor : { (Cursor.start t.toList).atEnd u.toList with delimiters := tree.delimiters } =
      (Cursor.start u.toList).below (Text.lineBreaks t.toList) := by
    rw [hdelimiters]
    rfl
  rw [halong] at ht
  rw [halong, String.toList_append]
  show Draft.along _ _ ((Cursor.start t.toList).extended u.toList) = _
  rw [Draft.along_extended _ ht hstart, hcursor, Draft.along_behind, Draft.along_below,
    List.reverse_reverse, ← halong]

/-- **Concatenation.** A text that compiles, ends where a line starts and leaves the delimiters as
they are at the start of a template can be put in front of any other. If that compiles, so do both,
to the elements of the one and those of the other further down, and they are rendered one after the
other. If it does not, both have its defect further down. -/
theorem concatenation (c : Compiler) {t u : String} {tree : Tree} (ht : c.parse t = .ok tree)
    (hdelimiters : tree.delimiters = .standard) (hline : Text.EndsAtLineStart t.toList) :
    let n := Text.lineBreaks t.toList
    (∀ following, c.parse u = .ok following →
      ∃ whole, c.parse (t ++ u) = .ok whole ∧
        whole.elements =
          Element.join tree.elements ((Recast.below n).elements following.elements) ∧
        whole.delimiters = following.delimiters ∧
        ∀ files contexts s, ((⟨whole, c⟩ : Template).run files contexts).deliver s =
          ((⟨tree, c⟩ : Template).run files contexts >>= fun _ ↦
            (⟨following, c⟩ : Template).run files contexts).deliver s) ∧
    ∀ m, c.parse u = .error m → c.parse (t ++ u) = .error ⟨m.line + n, m.defect⟩ := by
  have hparse := c.parse_append ht hdelimiters hline u
  constructor
  · intro following hu
    rw [hu] at hparse
    refine ⟨_, hparse, rfl, rfl, fun files contexts s ↦ ?_⟩
    have halike : Element.Alike ((Recast.below (Text.lineBreaks t.toList)).tree following).elements
        following.elements :=
      Recast.coresOf_elements_below _ _
    refine (c.deliver_renderAt_join files 999999 tree.elements _ contexts s).trans ?_
    rw [c.renderAt_congr files halike]
    rfl
  · intro m hu
    rw [hu] at hparse
    exact hparse

/-- A section and a defect behind two lines. -/
theorem concatenation_of_section :
    let t := "a\n\x7b\x7bx\x7d\x7d\n"
    let u := "b\x7b\x7b#s\x7d\x7d\nc\x7b\x7b/s\x7d\x7d"
    let bad := "b\n\x7b\x7b"
    let tree : Tree := ⟨[.text "a\n", .interpolation "x" false, .text "\n"], .standard⟩
    let following : Tree := ⟨[.text "b", .block "s" false 1 [.text "\nc"]], .standard⟩
    let c := Compiler.standard
    (c.parse t = .ok tree ∧ tree.delimiters = .standard ∧ Text.EndsAtLineStart t.toList) ∧
      c.parse u = .ok following ∧ c.parse bad = .error ⟨2, .unmatchedOpen⟩ ∧
      (∃ whole, c.parse (t ++ u) = .ok whole ∧
        whole.elements = [.text "a\n", .interpolation "x" false, .text "\nb",
          .block "s" false 3 [.text "\nc"]]) ∧
      c.parse (t ++ bad) = .error ⟨4, .unmatchedOpen⟩ := by
  intro t u bad tree following c
  have ht : c.parse t = .ok tree := by
    dsimp only [c, t, tree]
    with_unfolding_all rfl
  have hu : c.parse u = .ok following := by
    dsimp only [c, u, following]
    with_unfolding_all rfl
  have hbad : c.parse bad = .error ⟨2, .unmatchedOpen⟩ := by
    dsimp only [c, bad]
    with_unfolding_all rfl
  have hline : Text.EndsAtLineStart t.toList := by decide
  obtain ⟨hfollowing, -⟩ := concatenation c (u := u) ht rfl hline
  obtain ⟨-, hdefect⟩ := concatenation c (u := bad) ht rfl hline
  obtain ⟨whole, hwhole, helements, -⟩ := hfollowing following hu
  have hbreaks : Text.lineBreaks t.toList = 2 := by decide
  rw [hbreaks] at hdefect helements
  exact ⟨⟨ht, rfl, hline⟩, hu, hbad, ⟨whole, hwhole, helements.trans rfl⟩, hdefect _ hbad⟩

end Mustache
