import Mustache.Proofs.StandingAlone
import Mustache.Tree

/-!
# Reading level by level

The tokens of a template leave its tree one after the other, with the open sections on the stack of
a `Draft`. Here is the way of reading that has no stack but its own recursion: the level inside a
section is read up to its close tag, and the level around it goes on behind that.

* **A level knows of one section only,** the one it is in. A close tag with another name is wrong,
  whatever sections are further out.
* **Positions go from level to level,** and delimiters with them. What is changed inside a section
  stays changed behind it.

`Draft.along_eq_level` is the step from one to the other: a draft on any stack of sections goes on
as its innermost level does, and behind that level with one section less.
-/

namespace Mustache

/-- The elements of a level, the latest first, with a text behind them. -/
def Element.addText (read : List Element) (t : List Char) : List Element :=
  (Draft.addText ⟨read, []⟩ t).elements

/-- Text goes to the children that are being read, and to no section around them. -/
theorem Draft.addText_mk (read : List Element) (sections : List OpenSection) (t : List Char) :
    addText ⟨read, sections⟩ t = ⟨Element.addText read t, sections⟩ := by
  -- which sections are open makes no difference to the elements
  unfold Element.addText addText
  split
  · rfl
  · rcases read with - | ⟨_ | _ | _ | _, _⟩ <;> rfl

theorem Element.addText_nil (read : List Element) : addText read [] = read := rfl

theorem Element.addText_of_ne_nil {t : List Char} (ht : t ≠ []) (read : List Element) :
    addText read t =
      match read with
      | .text u :: es => .text (u ++ String.ofList t) :: es
      | es => .text (String.ofList t) :: es := by
  unfold addText Draft.addText
  rw [if_neg ht]
  rcases read with - | ⟨_ | _ | _ | _, _⟩ <;> rfl

namespace Cursor

/-- What is read of a level from a position on. -/
structure Level (c : Cursor) where
  /-- The elements of the level, the latest first. -/
  elements : List Element
  /-- The position behind the level. -/
  behind : Cursor
  length_rest_le : behind.rest.length ≤ c.rest.length

/-- The same seen from a position in front. -/
def Level.widen {c next : Cursor} (h : next.rest.length ≤ c.rest.length) (l : Level next) :
    Level c :=
  ⟨l.elements, l.behind, Nat.le_trans l.length_rest_le h⟩

/-- Reads a level to its end, `read` being its elements so far. It ends where the template does, or
with the close tag of the section it is in. -/
def level (forceRaw : Bool) (inside? : Option (String × Nat)) (read : List Element) (c : Cursor) :
    Except Malformed (Level c) :=
  match hstep : c.step with
  | .stop (.defective m) => .error m
  | .stop (.finished text _) =>
    match inside? with
    | none => .ok ⟨Element.addText read text, c, Nat.le_refl _⟩
    | some (name, line) => .error ⟨line, .unclosedSection name⟩
  | .token t next =>
    have hlt := length_rest_lt_of_step hstep
    let read := Element.addText read t.text
    match t.directive with
    | .enter name inverted =>
      match level forceRaw (some (name, t.line)) [] next with
      | .error m => .error m
      | .ok inner =>
        have hle := Nat.lt_of_le_of_lt inner.length_rest_le hlt
        (level forceRaw inside? (.block name inverted t.line inner.elements.reverse :: read)
          inner.behind).map (Level.widen (Nat.le_of_lt hle))
    | .leave name =>
      match inside? with
      | none => .error ⟨t.line, .unmatchedClose⟩
      | some (innermost, _) =>
        if innermost = name then .ok ⟨read, next, Nat.le_of_lt hlt⟩
        else .error ⟨t.line, .interleavedClose name⟩
    | _ =>
      (level forceRaw inside? ((Element.ofToken? forceRaw t).toList ++ read) next).map
        (Level.widen (Nat.le_of_lt hlt))
termination_by c.rest.length

variable {c next : Cursor} (forceRaw : Bool) (inside? : Option (String × Nat)) (read : List Element)

/-- A malformed tag ends a level, whatever section it is in. -/
theorem level_of_defective {m : Malformed} (h : c.step = .stop (.defective m)) :
    c.level forceRaw inside? read = .error m := by
  rw [level]
  split <;> next heq => rw [h] at heq; cases heq; try rfl

/-- The end of the text ends the outermost level well, and is a defect of every other. -/
theorem level_of_finished {text : List Char} {d : Delimiters}
    (h : c.step = .stop (.finished text d)) :
    c.level forceRaw inside? read =
      match inside? with
      | none => .ok ⟨Element.addText read text, c, Nat.le_refl _⟩
      | some (name, line) => .error ⟨line, .unclosedSection name⟩ := by
  rw [level]
  split <;> next heq => rw [h] at heq; cases heq; try rfl

/-- A token of a level: the level of a section is read first and becomes one element, a close tag
has to be that of the innermost section, and any other token adds its element. -/
theorem level_of_token {t : Token} (h : c.step = .token t next) :
    c.level forceRaw inside? read =
      match t.directive with
      | .enter name inverted =>
        match next.level forceRaw (some (name, t.line)) [] with
        | .error m => .error m
        | .ok inner =>
          (inner.behind.level forceRaw inside?
            (.block name inverted t.line inner.elements.reverse ::
              Element.addText read t.text)).map
            (Level.widen (Nat.le_of_lt
              (Nat.lt_of_le_of_lt inner.length_rest_le (length_rest_lt_of_step h))))
      | .leave name =>
        match inside? with
        | none => .error ⟨t.line, .unmatchedClose⟩
        | some (innermost, _) =>
          if innermost = name then
            .ok ⟨Element.addText read t.text, next, Nat.le_of_lt (length_rest_lt_of_step h)⟩
          else .error ⟨t.line, .interleavedClose name⟩
      | _ =>
        (next.level forceRaw inside?
          ((Element.ofToken? forceRaw t).toList ++ Element.addText read t.text)).map
          (Level.widen (Nat.le_of_lt (length_rest_lt_of_step h))) := by
  rw [level]
  split <;> next heq => rw [h] at heq; cases heq; try rfl

end Cursor

/-- The tree of a template's text, read level by level. -/
def Tree.descend (forceRaw : Bool) (template : String) : Except Malformed Tree :=
  ((Cursor.start template.toList).level forceRaw none []).map fun l ↦
    ⟨l.elements.reverse, l.behind.delimiters⟩

/-! ### Drafts and levels -/

namespace Draft

variable (forceRaw : Bool)

/-- The tree of a draft that goes on from a position. -/
def along (d : Draft) (c : Cursor) : Except Malformed Tree :=
  c.tokens.list.foldlM (take forceRaw) d >>= fun d ↦ d.finish c.tokens.ending

/-- Where no token follows, the draft is finished with the way the reading ends. -/
theorem along_of_stop {c : Cursor} {e : Ending} (h : c.step = .stop e) (d : Draft) :
    d.along forceRaw c = d.finish e := by
  rw [along, Cursor.tokens_of_stop h]
  rfl

/-- One token is one step of the draft. -/
theorem along_of_token {c next : Cursor} {t : Token} (h : c.step = .token t next) (d : Draft) :
    d.along forceRaw c = d.take forceRaw t >>= fun d ↦ d.along forceRaw next := by
  rw [along, Cursor.tokens_of_token h, Tokens.push, List.foldlM_cons, bind_assoc]
  rfl

/-- How a draft goes on behind its innermost level. -/
def alongBehind (sections : List OpenSection) {c : Cursor} (l : Cursor.Level c) :
    Except Malformed Tree :=
  match sections with
  | [] => .ok ⟨l.elements.reverse, l.behind.delimiters⟩
  | s :: outer =>
    along forceRaw ⟨.block s.name s.inverted s.line l.elements.reverse :: s.before, outer⟩ l.behind

/-- A draft goes on the same behind a level from wherever it is seen. -/
theorem map_widen_bind (sections : List OpenSection) {c next : Cursor}
    (h : next.rest.length ≤ c.rest.length) (r : Except Malformed (Cursor.Level next)) :
    r.map (Cursor.Level.widen h) >>= alongBehind forceRaw sections =
      r >>= alongBehind forceRaw sections := by
  cases r <;> rfl

/-- **A draft goes on as its innermost level does**, and behind that with one section less. -/
theorem along_eq_level (sections : List OpenSection) (read : List Element) (c : Cursor) :
    along forceRaw ⟨read, sections⟩ c =
      c.level forceRaw (sections.head?.map fun s ↦ (s.name, s.line)) read >>=
        alongBehind forceRaw sections := by
  match hstep : c.step with
  | .stop (.defective m) =>
    rw [along_of_stop forceRaw hstep, Cursor.level_of_defective forceRaw _ read hstep]
    rfl
  | .stop (.finished text d) =>
    rw [along_of_stop forceRaw hstep, Cursor.level_of_finished forceRaw _ read hstep]
    cases sections with
    | nil =>
      obtain ⟨-, -, rfl⟩ := Cursor.cut?_of_step_finished hstep
      rfl
    | cons s outer => rfl
  | .token t next =>
    rw [along_of_token forceRaw hstep, Cursor.level_of_token forceRaw _ read hstep, take,
      addText_mk]
    -- a token that opens or closes nothing adds its element, and the level goes on
    have hflat (e? : Option Element) :
        along forceRaw ⟨e?.toList ++ Element.addText read t.text, sections⟩ next =
          (next.level forceRaw (sections.head?.map fun s ↦ (s.name, s.line))
            (e?.toList ++ Element.addText read t.text)).map
            (Cursor.Level.widen (Nat.le_of_lt (Cursor.length_rest_lt_of_step hstep))) >>=
          alongBehind forceRaw sections := by
      rw [map_widen_bind]
      exact along_eq_level sections _ next
    cases hd : t.directive with
    | enter name inverted =>
      -- the level inside is read to its end, and behind it the level goes on with the section
      have hinner := along_eq_level
        (⟨name, inverted, t.line, Element.addText read t.text⟩ :: sections) [] next
      refine hinner.trans ?_
      rw [List.head?_cons, Option.map_some]
      dsimp only
      rcases next.level forceRaw (some (name, t.line)) [] with m | inner
      · rfl
      · rw [map_widen_bind]
        exact along_eq_level sections _ inner.behind
    | leave name =>
      cases sections with
      | nil => rfl
      | cons s outer =>
        simp only [leave, List.head?_cons, Option.map_some]
        split <;> rfl
    | _ =>
      refine Eq.trans ?_ (hflat (Element.ofToken? forceRaw t))
      cases Element.ofToken? forceRaw t <;> rfl
termination_by c.rest.length
decreasing_by
  all_goals
    have hlt := Cursor.length_rest_lt_of_step hstep
  · omega
  · omega
  · have := inner.length_rest_le
    omega

end Draft

/-- The tree of tokens is the draft of all of them, finished. -/
theorem Tree.ofTokens_eq_bind (forceRaw : Bool) (ts : Tokens) :
    ofTokens forceRaw ts =
      ts.list.foldlM (Draft.take forceRaw) .empty >>= fun d ↦ d.finish ts.ending := by
  rw [ofTokens]
  cases ts.list.foldlM (Draft.take forceRaw) .empty <;> rfl

/-- **Reading level by level leaves the same tree, or the same defect.** -/
theorem Tree.ofText_eq_descend (forceRaw : Bool) (template : String) :
    ofText forceRaw template = descend forceRaw template := by
  have halong : ofText forceRaw template =
      Draft.along forceRaw .empty (.start template.toList) := ofTokens_eq_bind forceRaw _
  rw [halong, Draft.empty, Draft.along_eq_level, descend, List.head?_nil, Option.map_none]
  cases (Cursor.start template.toList).level forceRaw none [] <;> rfl

end Mustache
