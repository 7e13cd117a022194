import Mathlib.Data.List.Basic
import Mathlib.Data.List.Find
import Mathlib.Logic.Relation
import Mustache.Provider

/-!
# Partials that stay below their search paths

Which names a provider of partials in files accepts, and which files it looks at for them
(`partials_stay_below_search_paths`).

A name is walked through component by component before any file is asked for. The walk is a stack
machine, and two things are said of it without its stack:

* **whether it gets stuck** is a matter of counting. The height of the stack is the number of
  ordinary components less the number of `..`, so it runs out at the first start of the name that
  has more of the latter (`ClimbsAbove`, `normalize?_eq_none_iff`);
* **what it ends with** is a matter of rewriting. Each step takes one detour out of the name
  (`Shortcut`), and detours never change the count. So a name is reduced to nothing in some way
  only if it is reduced to nothing by the machine (`eq_nil_of_reduces_nil`).

What is left are components that lead down one directory each (`Plain`), also with an extension
put behind them, and a file tree that is walked along them stays below where it started.
-/

namespace Mustache

/-! ### Pieces put together again -/

namespace Text

variable {p : Char → Bool} {sep : Char}

/-- Cutting undoes joining if no part has a separator of its own. -/
theorem pieces_intercalate (hsep : p sep = true) {ts : List (List Char)} (hne : ts ≠ [])
    (hts : ∀ t ∈ ts, ∀ c ∈ t, p c = false) : pieces p ([sep].intercalate ts) = ts := by
  induction ts with
  | nil => exact absurd rfl hne
  | cons t ts ih =>
    obtain ⟨ht, hts⟩ := List.forall_mem_cons.1 hts
    match ts with
    | [] => rw [List.intercalate_singleton, pieces_of_forall ht]
    | u :: us =>
      rw [List.intercalate_cons_cons, List.append_assoc, List.singleton_append,
        pieces_append_cons hsep, pieces_of_forall ht, ih (List.cons_ne_nil u us) hts]
      rfl

/-- No piece has a separator. -/
theorem not_of_mem_pieces {t u : List Char} (ht : t ∈ pieces p u) : ∀ c ∈ t, p c = false := by
  induction u generalizing t with
  | nil =>
    rw [List.mem_singleton.1 ht]
    exact fun c hc ↦ absurd hc List.not_mem_nil
  | cons d u ih =>
    rw [pieces_cons] at ht
    split at ht
    · rcases List.mem_cons.1 ht with rfl | ht
      · exact fun c hc ↦ absurd hc List.not_mem_nil
      · exact ih ht
    · next hd =>
      have hd : p d = false := Bool.eq_false_iff.2 hd
      cases hpieces : pieces p u with
      | nil => exact absurd (length_pieces p u) (by rw [hpieces]; exact (Nat.succ_ne_zero _).symm)
      | cons first others =>
        rw [hpieces] at ht ih
        rcases List.mem_cons.1 ht with rfl | ht
        · exact List.forall_mem_cons.2 ⟨hd, ih List.mem_cons_self⟩
        · exact ih (List.mem_cons_of_mem first ht)

/-- What is put behind pieces goes behind the last of them. -/
theorem intercalate_concat_append (front : List (List Char)) (last t : List Char) :
    [sep].intercalate (front ++ [last]) ++ t = [sep].intercalate (front ++ [last ++ t]) := by
  induction front with
  | nil => simp
  | cons c front ih =>
    match front with
    | [] => simp
    | d :: front =>
      simp only [List.cons_append, List.intercalate_cons_cons, List.append_assoc] at ih ⊢
      rw [ih]

end Text

namespace FilePartials

/-! ### Components of names -/

/-- The component that leads up. -/
def dots : List Char :=
  ['.', '.']

/-- Whether a component names something. -/
def isOrdinary (c : List Char) : Bool :=
  c != [] && c != ['.'] && c != dots

/-- The components of a name. -/
def nameComponents (name : String) : List (List Char) :=
  Text.pieces isPathSeparator name.toList

/-- A component that leads down one directory on any system. -/
structure Plain (c : List Char) : Prop where
  isOrdinary : isOrdinary c = true
  not_separator : ∀ x ∈ c, isPathSeparator x = false
  not_volume : ':' ∉ c

theorem Plain.ne_nil {c : List Char} (h : Plain c) : c ≠ [] := by
  rintro rfl
  exact nomatch h.isOrdinary

/-- Whether components lead above a place at some point that is this deep. -/
def ClimbsAbove (depth : Nat) (cs : List (List Char)) : Prop :=
  ∃ front, front <+: cs ∧ depth + front.countP isOrdinary < front.count dots

/-- One detour less: without a component that stays where it is, or without one that is entered and
left again. -/
inductive Shortcut : List (List Char) → List (List Char) → Prop
  | stay (front behind : List (List Char)) {c : List Char} (hc : c = [] ∨ c = ['.']) :
      Shortcut (front ++ c :: behind) (front ++ behind)
  | back (front behind : List (List Char)) {c : List Char} (hc : isOrdinary c = true) :
      Shortcut (front ++ c :: dots :: behind) (front ++ behind)

/-- Any number of detours less. -/
abbrev Reduces : List (List Char) → List (List Char) → Prop :=
  Relation.ReflTransGen Shortcut

/-- The names that lead nowhere below a search path. -/
inductive Rejected (name : String) : Prop
  | rooted (h : name.toList.head?.any isPathSeparator = true)
  | volume (c : List Char) (hc : c ∈ nameComponents name) (h : ':' ∈ c)
  | climbs (h : ClimbsAbove 0 (nameComponents name))
  | nowhere (h : Reduces (nameComponents name) [])

/-- A path climbs above its start at one of its fronts, of which the empty one does not count. -/
theorem climbsAbove_cons {depth : Nat} {c : List Char} {cs : List (List Char)} :
    ClimbsAbove depth (c :: cs) ↔
      ∃ front, front <+: cs ∧
        depth + (c :: front).countP isOrdinary < (c :: front).count dots := by
  constructor
  · rintro ⟨front, hfront, hlt⟩
    match front with
    | [] => exact absurd hlt (Nat.not_lt_zero _)
    | d :: front =>
      obtain ⟨rfl, hbehind⟩ := List.cons_prefix_cons.1 hfront
      exact ⟨front, hbehind, hlt⟩
  · rintro ⟨front, hfront, hlt⟩
    exact ⟨c :: front, List.cons_prefix_cons.2 ⟨rfl, hfront⟩, hlt⟩

/-- Empty components and single dots do not move. -/
theorem climbsAbove_stay {depth : Nat} {c : List Char} (hc : c = [] ∨ c = ['.'])
    (cs : List (List Char)) : ClimbsAbove depth (c :: cs) ↔ ClimbsAbove depth cs := by
  have hord : isOrdinary c = false := by rcases hc with rfl | rfl <;> rfl
  have hne : c ≠ dots := by rcases hc with rfl | rfl <;> decide
  rw [climbsAbove_cons]
  simp only [List.countP_cons_of_neg (Bool.eq_false_iff.1 hord), List.count_cons_of_ne hne]
  rfl

/-- Going into a directory allows for one `..` more. -/
theorem climbsAbove_ordinary {depth : Nat} {c : List Char} (hc : isOrdinary c = true)
    (cs : List (List Char)) : ClimbsAbove depth (c :: cs) ↔ ClimbsAbove (depth + 1) cs := by
  have hne : c ≠ dots := by
    rintro rfl
    exact nomatch hc
  rw [climbsAbove_cons]
  simp only [List.countP_cons_of_pos hc, List.count_cons_of_ne hne, Nat.add_assoc, Nat.add_comm 1,
    ClimbsAbove]

theorem climbsAbove_dots_zero (cs : List (List Char)) : ClimbsAbove 0 (dots :: cs) :=
  climbsAbove_cons.2 ⟨[], List.nil_prefix, by decide⟩

/-- And a `..` takes it back. -/
theorem climbsAbove_dots_succ {depth : Nat} (cs : List (List Char)) :
    ClimbsAbove (depth + 1) (dots :: cs) ↔ ClimbsAbove depth cs := by
  have hord : ¬ isOrdinary dots = true := by decide
  rw [climbsAbove_cons]
  simp only [List.countP_cons_of_neg hord, List.count_cons_self, Nat.add_right_comm depth,
    Nat.add_lt_add_iff_right, ClimbsAbove]

/-- Detours lead down as often as up. -/
theorem Shortcut.balance {cs ds : List (List Char)} (h : Shortcut cs ds) :
    cs.countP isOrdinary + ds.count dots = ds.countP isOrdinary + cs.count dots := by
  rcases h with ⟨front, behind, hc⟩ | @⟨front, behind, c, hc⟩
  · rcases hc with rfl | rfl <;>
      simp only [List.countP_append, List.count_append, List.countP_cons, List.count_cons] <;>
      simp [isOrdinary, dots]
  · have hne : c ≠ dots := by
      rintro rfl
      exact nomatch hc
    have hord : ¬ isOrdinary dots = true := by decide
    simp only [List.countP_append, List.count_append, List.countP_cons_of_pos hc,
      List.countP_cons_of_neg hord, List.count_cons_self, List.count_cons_of_ne hne]
    omega

/-- No shortcut changes how far down a path leads in all. -/
theorem Reduces.balance {cs ds : List (List Char)} (h : Reduces cs ds) :
    cs.countP isOrdinary + ds.count dots = ds.countP isOrdinary + cs.count dots := by
  induction h with
  | refl => rfl
  | tail _ hstep ih =>
    have hbalance := hstep.balance
    omega

/-- Components that only lead down are nothing if they come from what can be reduced to nothing. -/
theorem eq_nil_of_reduces_nil {cs out : List (List Char)} (hnil : Reduces cs [])
    (hout : Reduces cs out) (hplain : ∀ c ∈ out, Plain c) : out = [] := by
  have hall : out.countP isOrdinary = out.length :=
    List.countP_eq_length.2 fun c hc ↦ (hplain c hc).isOrdinary
  have hup : out.count dots = 0 :=
    List.count_eq_zero.2 fun hmem ↦ nomatch (hplain dots hmem).isOrdinary
  have hbalance := hnil.balance
  have hbalance' := hout.balance
  refine List.length_eq_zero_iff.1 ?_
  rw [List.countP_nil, List.count_nil] at hbalance
  omega

/-! ### The walk through a name -/

/-- The three kinds of components. -/
theorem stays_or_up_or_isOrdinary (c : List Char) :
    (c = [] ∨ c = ['.']) ∨ c = dots ∨ isOrdinary c = true := by
  by_cases hstay : c = [] ∨ c = ['.']
  · exact .inl hstay
  by_cases hup : c = dots
  · exact .inr (.inl hup)
  · refine .inr (.inr ?_)
    simp only [isOrdinary, Bool.and_eq_true, bne_iff_ne]
    exact ⟨not_or.1 hstay, hup⟩

theorem normalize?_nil (taken : List (List Char)) : normalize? taken [] = some taken.reverse := rfl

theorem normalize?_stay (taken : List (List Char)) {c : List Char} (hc : c = [] ∨ c = ['.'])
    (rest : List (List Char)) : normalize? taken (c :: rest) = normalize? taken rest :=
  if_pos hc

theorem normalize?_up_nil (rest : List (List Char)) : normalize? [] (dots :: rest) = none := rfl

theorem normalize?_up_cons (d : List Char) (taken rest : List (List Char)) :
    normalize? (d :: taken) (dots :: rest) = normalize? taken rest := rfl

/-- An ordinary component is taken along, unless it has a colon, which rejects the whole name. -/
theorem normalize?_ordinary (taken : List (List Char)) {c : List Char} (hc : isOrdinary c = true)
    (rest : List (List Char)) :
    normalize? taken (c :: rest) = if ':' ∈ c then none else normalize? (c :: taken) rest := by
  simp only [isOrdinary, Bool.and_eq_true, bne_iff_ne] at hc
  exact (if_neg (not_or.2 hc.1)).trans (if_neg hc.2)

/-- What the walk gives is what it has taken and what is left, without detours. -/
theorem reduces_of_normalize? {taken cs out : List (List Char)}
    (htaken : ∀ c ∈ taken, Plain c) (hcs : ∀ c ∈ cs, ∀ x ∈ c, isPathSeparator x = false)
    (h : normalize? taken cs = some out) :
    Reduces (taken.reverse ++ cs) out ∧ ∀ c ∈ out, Plain c := by
  induction cs generalizing taken with
  | nil =>
    obtain rfl := Option.some.inj h
    rw [List.append_nil]
    exact ⟨.refl, fun c hc ↦ htaken c (List.mem_reverse.1 hc)⟩
  | cons c rest ih =>
    obtain ⟨hc, hrest⟩ := List.forall_mem_cons.1 hcs
    rcases stays_or_up_or_isOrdinary c with hstay | rfl | hord
    · rw [normalize?_stay taken hstay] at h
      obtain ⟨hreduces, hout⟩ := ih htaken hrest h
      exact ⟨.head (.stay taken.reverse rest hstay) hreduces, hout⟩
    · match taken, htaken, h with
      | d :: taken, htaken, h =>
        obtain ⟨hd, htaken⟩ := List.forall_mem_cons.1 htaken
        obtain ⟨hreduces, hout⟩ := ih htaken hrest h
        refine ⟨.head ?_ hreduces, hout⟩
        rw [List.reverse_cons, List.append_assoc, List.singleton_append]
        exact .back taken.reverse rest hd.isOrdinary
    · rw [normalize?_ordinary taken hord] at h
      split at h
      · exact nomatch h
      · next hvolume =>
        have hnext := ih (List.forall_mem_cons.2 ⟨⟨hord, hc, hvolume⟩, htaken⟩) hrest h
        rwa [List.reverse_cons, List.append_assoc, List.singleton_append] at hnext

/-- The walk gets stuck where the components climb above what it has taken, or lead into another
volume. -/
theorem normalize?_eq_none_iff {taken cs : List (List Char)} :
    normalize? taken cs = none ↔ (∃ c ∈ cs, ':' ∈ c) ∨ ClimbsAbove taken.length cs := by
  induction cs generalizing taken with
  | nil =>
    have hnot : ¬ ClimbsAbove taken.length [] := by
      rintro ⟨front, hfront, hlt⟩
      obtain rfl := List.prefix_nil.1 hfront
      exact Nat.not_lt_zero _ hlt
    simp [normalize?_nil, hnot]
  | cons c rest ih =>
    rw [List.exists_mem_cons_iff]
    rcases stays_or_up_or_isOrdinary c with hstay | rfl | hord
    · have hvolume : ':' ∉ c := by rcases hstay with rfl | rfl <;> decide
      rw [normalize?_stay taken hstay, ih, climbsAbove_stay hstay, or_iff_right hvolume]
    · have hvolume : ':' ∉ dots := by decide
      match taken with
      | [] => exact iff_of_true (normalize?_up_nil rest) (.inr (climbsAbove_dots_zero rest))
      | d :: taken =>
        rw [normalize?_up_cons, ih, List.length_cons, climbsAbove_dots_succ, or_iff_right hvolume]
    · rw [normalize?_ordinary taken hord]
      split
      · next hvolume => exact iff_of_true rfl (.inl (.inl hvolume))
      · next hvolume => rw [ih, List.length_cons, climbsAbove_ordinary hord, or_iff_right hvolume]

/-- Plain components are taken as they are. -/
theorem normalize?_of_plain {taken cs : List (List Char)} (hcs : ∀ c ∈ cs, Plain c) :
    normalize? taken cs = some (taken.reverse ++ cs) := by
  induction cs generalizing taken with
  | nil => rw [normalize?_nil, List.append_nil]
  | cons c rest ih =>
    obtain ⟨hc, hrest⟩ := List.forall_mem_cons.1 hcs
    rw [normalize?_ordinary taken hc.isOrdinary, if_neg hc.not_volume, ih hrest, List.reverse_cons,
      List.append_assoc, List.singleton_append]

/-! ### Names that are accepted -/

/-- The path of a file by its components. -/
def pathOf (cs : List (List Char)) : String :=
  String.ofList (['/'].intercalate cs)

theorem nameComponents_pathOf {cs : List (List Char)} (hne : cs ≠ []) (hcs : ∀ c ∈ cs, Plain c) :
    nameComponents (pathOf cs) = cs := by
  rw [nameComponents, pathOf, String.toList_ofList]
  exact Text.pieces_intercalate rfl hne fun c hc ↦ (hcs c hc).not_separator

/-- Names are cut at either separator, so that no component has one. -/
theorem not_separator_of_mem_nameComponents {name : String} :
    ∀ c ∈ nameComponents name, ∀ x ∈ c, isPathSeparator x = false :=
  fun _ hc ↦ Text.not_of_mem_pieces hc

/-- The walk through a name that has no separator in front gives its safe components, if any. -/
theorem safeComponents?_eq_filter {name : String}
    (h : ¬ name.toList.head?.any isPathSeparator = true) :
    safeComponents? name.toList =
      (normalize? [] (nameComponents name)).filter fun cs ↦ !cs.isEmpty := by
  rw [safeComponents?, if_neg h, nameComponents]
  match normalize? [] (Text.pieces isPathSeparator name.toList) with
  | none | some [] | some (_ :: _) => rfl

/-- A rejected name has no safe components. -/
theorem safeComponents?_of_rejected {name : String} (h : Rejected name) :
    safeComponents? name.toList = none := by
  by_cases hroot : name.toList.head?.any isPathSeparator = true
  · exact if_pos hroot
  rw [safeComponents?_eq_filter hroot]
  cases hout : normalize? [] (nameComponents name) with
  | none => rfl
  | some out =>
    obtain ⟨hreduces, hplain⟩ := reduces_of_normalize? (fun c hc ↦ absurd hc List.not_mem_nil)
      not_separator_of_mem_nameComponents hout
    have hgoes : ¬ ((∃ c ∈ nameComponents name, ':' ∈ c) ∨ ClimbsAbove 0 (nameComponents name)) :=
      fun hstuck ↦ nomatch hout ▸ normalize?_eq_none_iff.2 hstuck
    rcases h with hrooted | ⟨c, hc, hvolume⟩ | hclimbs | hnowhere
    · exact absurd hrooted hroot
    · exact absurd (.inl ⟨c, hc, hvolume⟩) hgoes
    · exact absurd (.inr hclimbs) hgoes
    · rw [eq_nil_of_reduces_nil hnowhere hreduces hplain]
      rfl

/-- Any other name has safe components, which are what it is reduced to. -/
theorem exists_safeComponents? {name : String} (h : ¬ Rejected name) :
    ∃ front last, safeComponents? name.toList = some (front ++ [last]) ∧
      Reduces (nameComponents name) (front ++ [last]) ∧ ∀ c ∈ front ++ [last], Plain c := by
  rw [safeComponents?_eq_filter fun hrooted ↦ h (.rooted hrooted)]
  cases hout : normalize? [] (nameComponents name) with
  | none =>
    rcases normalize?_eq_none_iff.1 hout with ⟨c, hc, hvolume⟩ | hclimbs
    · exact absurd (.volume c hc hvolume) h
    · exact absurd (.climbs hclimbs) h
  | some out =>
    obtain ⟨hreduces, hplain⟩ := reduces_of_normalize? (fun c hc ↦ absurd hc List.not_mem_nil)
      not_separator_of_mem_nameComponents hout
    rcases List.eq_nil_or_concat out with rfl | ⟨front, last, rfl⟩
    · exact absurd (.nowhere hreduces) h
    · rw [List.concat_eq_append] at hreduces hplain ⊢
      refine ⟨front, last, Option.filter_some_pos ?_, hreduces, hplain⟩
      simp

/-- The first character of a path of plain components is no separator. -/
theorem head?_intercalate {cs : List (List Char)} (hne : cs ≠ []) (hcs : ∀ c ∈ cs, c ≠ []) :
    ∃ c ∈ cs, (['/'].intercalate cs).head? = c.head? := by
  match cs with
  | [c] => exact ⟨c, List.mem_cons_self, by rw [List.intercalate_singleton]⟩
  | c :: d :: cs =>
    refine ⟨c, List.mem_cons_self, ?_⟩
    rw [List.intercalate_cons_cons, List.append_assoc]
    exact List.head?_append_of_ne_nil _ (hcs c List.mem_cons_self)

/-- A path of components does not start at the root. -/
theorem not_rooted_pathOf {cs : List (List Char)} (hne : cs ≠ []) (hcs : ∀ c ∈ cs, c ≠ [])
    (hsep : ∀ c ∈ cs, ∀ x ∈ c, isPathSeparator x = false) :
    ¬ (pathOf cs).toList.head?.any isPathSeparator = true := by
  obtain ⟨c, hc, hhead⟩ := head?_intercalate hne hcs
  rw [pathOf, String.toList_ofList, hhead]
  match c, hcs c hc, hsep c hc with
  | x :: _, _, hx => exact Bool.eq_false_iff.1 (hx x List.mem_cons_self)

/-- A name that is normal already is accepted as it is. -/
theorem safeComponents?_pathOf {cs : List (List Char)} (hne : cs ≠ []) (hcs : ∀ c ∈ cs, Plain c) :
    safeComponents? (pathOf cs).toList = some cs := by
  have hroot := not_rooted_pathOf hne (fun c hc ↦ (hcs c hc).ne_nil)
    fun c hc ↦ (hcs c hc).not_separator
  rw [safeComponents?_eq_filter hroot, nameComponents_pathOf hne hcs, normalize?_of_plain hcs]
  exact Option.filter_some_pos (by simpa using hne)

end FilePartials

/-! ### Walks below a place -/

namespace FileTree

open FilePartials

/-- A path is walked part by part. -/
theorem walk_append (files : FileTree) (place : List String) (node : FileNode)
    (path more : List String) :
    files.walk place node (path ++ more) =
      files.walk place node path >>= fun reached ↦ files.walk reached.1 reached.2 more := by
  induction path generalizing place node with
  | nil => rfl
  | cons c path ih =>
    rw [List.cons_append]
    match node with
    | .file _ => rfl
    | .directory =>
      simp only [walk, ih]
      split
      · rfl
      split
      · rfl
      split
      · rfl
      split <;> rfl

/-- Only a directory can be gone on from. -/
theorem eq_directory_of_walk {files : FileTree} {place : List String} {node : FileNode}
    {path : List String} {r : List String × FileNode} (hne : path ≠ [])
    (h : files.walk place node path = .ok r) : node = .directory := by
  match node, path with
  | .directory, _ => rfl
  | .file _, c :: path => exact nomatch h

/-- A walk along components that lead down stays below where it starts. -/
theorem eq_append_of_walk {files : FileTree} {base place : List String} {node next : FileNode}
    {cs : List (List Char)} (hcs : ∀ c ∈ cs, isOrdinary c = true)
    (h : files.walk base node (cs.map String.ofList) = .ok (place, next)) :
    place = base ++ cs.map String.ofList := by
  induction cs generalizing base node with
  | nil =>
    obtain ⟨rfl, -⟩ := Prod.mk.inj (Except.ok.inj h)
    rw [List.map_nil, List.append_nil]
  | cons c cs ih =>
    obtain ⟨hc, hcs⟩ := List.forall_mem_cons.1 hcs
    obtain rfl : node = .directory := eq_directory_of_walk (List.cons_ne_nil _ _) h
    simp only [isOrdinary, Bool.and_eq_true, bne_iff_ne] at hc
    have hne {s : String} (hs : c ≠ s.toList) : String.ofList c ≠ s := fun heq ↦
      hs (by rw [← heq, String.toList_ofList])
    have hstay : ¬ (String.ofList c = "" ∨ String.ofList c = ".") :=
      not_or.2 ⟨hne hc.1.1, hne hc.1.2⟩
    have hup : String.ofList c ≠ ".." := hne hc.2
    rw [List.map_cons, walk, if_neg hstay, if_neg hup] at h
    split at h
    · exact nomatch h
    split at h
    · exact nomatch h
    · rw [ih hcs h, List.map_cons, List.append_assoc, List.singleton_append]

/-- What is found is where the components of the path lead. -/
theorem follow_of_find {files : FileTree} {path : String} {r : List String × FileNode}
    (h : files.find path = .ok r) : files.follow path = .ok r := by
  rw [find] at h
  split at h
  · exact nomatch h
  split at h
  · exact nomatch h
  split at h
  · exact nomatch h
  · exact h

/-- What is put behind a path starts where the path starts. -/
theorem origin_append (files : FileTree) {directory : String} (h : directory ≠ "") (file : String) :
    files.origin (directory ++ file) = files.origin directory := by
  have hne : directory.toList ≠ [] := fun hnil ↦ h (String.toList_eq_nil_iff.1 hnil)
  rw [origin, origin, isAbsolute, isAbsolute, String.toList_append,
    List.head?_append_of_ne_nil _ hne]

/-- What is joined to a directory comes behind the components of the directory. -/
theorem components_append (directory file : String) :
    components (directory ++ "/" ++ file) = components directory ++ components file := by
  rw [components, String.toList_append, String.toList_append, List.append_assoc]
  show (Text.pieces (· == '/') (directory.toList ++ '/' :: file.toList)).map String.ofList = _
  rw [Text.pieces_append_cons rfl, List.map_append]
  rfl

/-- A path is read back as the components that it was made of. -/
theorem components_pathOf {cs : List (List Char)} (hne : cs ≠ [])
    (hcs : ∀ c ∈ cs, ∀ x ∈ c, isPathSeparator x = false) :
    components (pathOf cs) = cs.map String.ofList := by
  rw [components, pathOf, String.toList_ofList, Text.pieces_intercalate rfl hne]
  exact fun c hc x hx ↦ (Bool.or_eq_false_iff.1 (hcs c hc x hx)).1

/-- What is found below a directory is found by a walk from there. -/
theorem exists_walk_of_find_join {files : FileTree} {directory : String} {cs : List (List Char)}
    {r : List String × FileNode} (hne : cs ≠ []) (hord : ∀ c ∈ cs, c ≠ [])
    (hcs : ∀ c ∈ cs, ∀ x ∈ c, isPathSeparator x = false)
    (h : files.find (join directory (pathOf cs)) = .ok r) :
    ∃ base, files.follow directory = .ok (base, .directory) ∧
      files.walk base .directory (cs.map String.ofList) = .ok r := by
  have hmap : cs.map String.ofList ≠ [] := fun hnil ↦ hne (List.map_eq_nil_iff.1 hnil)
  have hwalk := follow_of_find h
  have hroot : isAbsolute (pathOf cs) = false := by
    refine Bool.eq_false_iff.2 fun habsolute ↦ not_rooted_pathOf hne hord hcs ?_
    rw [beq_iff_eq.1 habsolute]
    rfl
  -- a walk through a directory and further is at a directory in between
  have hthrough {place : List String} {d : String}
      (hd : files.walk place .directory (components (d ++ "/" ++ pathOf cs)) = .ok r) :
      ∃ base, files.walk place .directory (components d) = .ok (base, .directory) ∧
        files.walk base .directory (cs.map String.ofList) = .ok r := by
    rw [components_append, components_pathOf hne hcs, walk_append] at hd
    cases hbase : files.walk place .directory (components d) with
    | error e => rw [hbase] at hd; exact nomatch hd
    | ok reached =>
      rw [hbase] at hd
      obtain ⟨base, node⟩ := reached
      obtain rfl : node = .directory := eq_directory_of_walk hmap hd
      exact ⟨base, rfl, hd⟩
  rw [follow, join, hroot] at hwalk
  by_cases hempty : directory = ""
  · -- no directory is the working place
    rw [if_pos (.inr hempty), origin, hroot, components_pathOf hne hcs] at hwalk
    subst hempty
    exact ⟨files.working, rfl, hwalk⟩
  rw [if_neg (not_or.2 ⟨Bool.false_ne_true, hempty⟩)] at hwalk
  split at hwalk
  · -- no separator is put in behind one that is there already
    next hlast =>
    rw [origin_append files hempty] at hwalk
    rw [follow]
    obtain ⟨init, hinit⟩ := List.getLast?_eq_some_iff.1 hlast
    have hd : directory = String.ofList init ++ "/" := by
      rw [← String.toList_inj, hinit, String.toList_append, String.toList_ofList]
      rfl
    generalize files.origin directory = place at hwalk ⊢
    rw [hd] at hwalk ⊢
    obtain ⟨base, hbase, hrest⟩ := hthrough hwalk
    refine ⟨base, ?_, hrest⟩
    -- what stands behind the last separator is empty, so it stays in the directory
    have hcomponents :
        components (String.ofList init ++ "/") = components (String.ofList init) ++ [""] := by
      rw [← String.append_empty (s := String.ofList init ++ "/"), components_append]
      rfl
    rw [hcomponents, walk_append, hbase]
    rfl
  · rw [String.append_assoc, origin_append files hempty, ← String.append_assoc] at hwalk
    exact hthrough hwalk

end FileTree

/-! ### Files that are looked at -/

namespace FilePartials

/-- The file that is tried for these components with this extension below this directory. -/
def candidate (front : List (List Char)) (last : List Char) (directory extension : String) :
    String :=
  join directory (pathOf (front ++ [last ++ extension.toList]))

/-- Whether this directory and this extension come first among those that there is a file for, with
the search paths outermost. -/
def ComesFirst (p : FilePartials) (files : FileTree) (front : List (List Char)) (last : List Char)
    (directory extension : String) : Prop :=
  ∃ before after earlier later,
    p.paths = before ++ directory :: after ∧ p.extensions = earlier ++ extension :: later ∧
    (∀ d ∈ before, ∀ e ∈ p.extensions, files.isFile (candidate front last d e) = false) ∧
    ∀ e ∈ earlier, files.isFile (candidate front last directory e) = false

/-- What a provider does for a name with these components. -/
structure Confined (p : FilePartials) (name : String) (front : List (List Char))
    (last : List Char) : Prop where
  reduces : Reduces (nameComponents name) (front ++ [last])
  plain : ∀ c ∈ front ++ [last], Plain c
  fileName? : p.fileName? name = some (pathOf (front ++ [last]))
  /-- A name that has been accepted is accepted as it is. -/
  again : p.fileName? (pathOf (front ++ [last])) = some (pathOf (front ++ [last]))
  /-- No file but the candidates is looked at. -/
  probes : ∀ files files' : FileTree,
    (∀ d ∈ p.paths, ∀ e ∈ p.extensions,
      files.find (candidate front last d e) = files'.find (candidate front last d e)) →
    p.get files name = p.get files' name
  /-- A candidate is below its search path, wherever that leads. -/
  below : ∀ (files : FileTree), ∀ d ∈ p.paths, ∀ e ∈ p.extensions, ∀ place node,
    files.find (candidate front last d e) = .ok (place, node) →
    ∃ base, files.follow d = .ok (base, .directory) ∧
      place = base ++ (front ++ [last ++ e.toList]).map String.ofList
  first : ∀ (files : FileTree) (d e : String) place bytes, p.ComesFirst files front last d e →
    files.find (candidate front last d e) = .ok (place, .file bytes) →
    p.get files name = ⟨[.found (pathOf (front ++ [last])) (candidate front last d e)],
      match String.fromUTF8? ⟨bytes.toArray⟩ with
      | some text => .ok text
      | none => .error (.io .notUtf8)⟩
  none : ∀ files : FileTree,
    (∀ d ∈ p.paths, ∀ e ∈ p.extensions, files.isFile (candidate front last d e) = false) →
    p.get files name = .silent (.ok "")

section

variable {p : FilePartials} {name : String} {front : List (List Char)} {last : List Char}

/-- An extension goes to the last component. -/
theorem pathOf_append (front : List (List Char)) (last : List Char) (extension : String) :
    pathOf (front ++ [last]) ++ extension = pathOf (front ++ [last ++ extension.toList]) := by
  rw [pathOf, pathOf, ← Text.intercalate_concat_append, String.ofList_append, String.ofList_toList]

/-- The candidates of a name: for each search path, in order, the file with each extension. -/
theorem candidates_pathOf (p : FilePartials) (front : List (List Char)) (last : List Char) :
    p.candidates (pathOf (front ++ [last])) =
      p.paths.flatMap fun d ↦ p.extensions.map fun e ↦ candidate front last d e := by
  simp only [candidates, pathOf_append, candidate]

/-- A provider reads the first of the candidates that is a file, or has an empty text if none is. -/
theorem get_of_fileName? (h : p.fileName? name = some (pathOf (front ++ [last])))
    (files : FileTree) :
    p.get files name =
      match (p.candidates (pathOf (front ++ [last]))).find? files.isFile with
      | none => .silent (.ok "")
      | some file =>
        ⟨[.found (pathOf (front ++ [last])) file], (files.readText file).mapError .io⟩ := by
  rw [get]
  generalize p.fileName? name = fileName? at h
  subst h
  rfl

/-- An extension keeps the last component from leading anywhere else. -/
theorem Plain.isOrdinary_append {c : List Char} (h : Plain c) (t : List Char) :
    FilePartials.isOrdinary (c ++ t) = true := by
  have hord := h.isOrdinary
  match c, hord with
  | x :: rest, hord =>
    by_cases hx : x = '.'
    · subst hx
      match rest, hord with
      | y :: rest, hord =>
        by_cases hy : y = '.'
        · subst hy
          match rest, hord with
          | z :: rest, hord => simp [FilePartials.isOrdinary, dots]
        · simp [FilePartials.isOrdinary, dots, hy]
    · simp [FilePartials.isOrdinary, dots, hx]

/-- Nothing but the candidates is looked at. -/
theorem get_congr (h : p.fileName? name = some (pathOf (front ++ [last])))
    {files files' : FileTree}
    (hfind : ∀ d ∈ p.paths, ∀ e ∈ p.extensions,
      files.find (candidate front last d e) = files'.find (candidate front last d e)) :
    p.get files name = p.get files' name := by
  have hsame : ∀ file ∈ p.candidates (pathOf (front ++ [last])),
      files.find file = files'.find file := by
    rw [candidates_pathOf]
    intro file hfile
    obtain ⟨d, hd, hfile⟩ := List.mem_flatMap.1 hfile
    obtain ⟨e, he, rfl⟩ := List.mem_map.1 hfile
    exact hfind d hd e he
  have hfirst : (p.candidates (pathOf (front ++ [last]))).find? files.isFile =
      (p.candidates (pathOf (front ++ [last]))).find? files'.isFile :=
    List.find?_congr fun file hfile ↦ by rw [FileTree.isFile, FileTree.isFile, hsame file hfile]
  rw [get_of_fileName? h, get_of_fileName? h, hfirst]
  split
  · rfl
  · next file hfile =>
    rw [FileTree.readText, FileTree.readText, hsame file (List.mem_of_find?_eq_some hfile)]

/-- A name without a file is the empty partial. -/
theorem get_of_none (h : p.fileName? name = some (pathOf (front ++ [last]))) {files : FileTree}
    (hnone : ∀ d ∈ p.paths, ∀ e ∈ p.extensions,
      files.isFile (candidate front last d e) = false) :
    p.get files name = .silent (.ok "") := by
  have hfind : (p.candidates (pathOf (front ++ [last]))).find? files.isFile = none := by
    rw [candidates_pathOf, List.find?_eq_none]
    intro file hfile
    obtain ⟨d, hd, hfile⟩ := List.mem_flatMap.1 hfile
    obtain ⟨e, he, rfl⟩ := List.mem_map.1 hfile
    exact Bool.eq_false_iff.1 (hnone d hd e he)
  rw [get_of_fileName? h, hfind]

/-- The first candidate that is a file is read, and has to be UTF-8. -/
theorem get_of_comesFirst (h : p.fileName? name = some (pathOf (front ++ [last])))
    {files : FileTree} {d e : String} {place : List String} {bytes : List UInt8}
    (hfirst : p.ComesFirst files front last d e)
    (hfile : files.find (candidate front last d e) = .ok (place, .file bytes)) :
    p.get files name = ⟨[.found (pathOf (front ++ [last])) (candidate front last d e)],
      match String.fromUTF8? ⟨bytes.toArray⟩ with
      | some text => .ok text
      | none => .error (.io .notUtf8)⟩ := by
  obtain ⟨before, after, earlier, later, hpaths, hextensions, hbefore, hearlier⟩ := hfirst
  have hfind : (p.candidates (pathOf (front ++ [last]))).find? files.isFile =
      some (candidate front last d e) := by
    have hhere : (p.extensions.map fun e ↦ candidate front last d e) =
        (earlier.map fun e ↦ candidate front last d e) ++
          candidate front last d e :: later.map fun e ↦ candidate front last d e := by
      rw [hextensions, List.map_append, List.map_cons]
    rw [List.find?_eq_some_iff_append]
    refine ⟨by rw [FileTree.isFile, hfile],
      (before.flatMap fun d ↦ p.extensions.map fun e ↦ candidate front last d e) ++
        earlier.map fun e ↦ candidate front last d e,
      (later.map fun e ↦ candidate front last d e) ++
        after.flatMap fun d ↦ p.extensions.map fun e ↦ candidate front last d e, ?_, ?_⟩
    · rw [candidates_pathOf, hpaths, List.flatMap_append, List.flatMap_cons, hhere]
      simp only [List.append_assoc, List.cons_append]
    · intro file hmem
      rcases List.mem_append.1 hmem with hmem | hmem
      · obtain ⟨d', hd', hmem⟩ := List.mem_flatMap.1 hmem
        obtain ⟨e', he', rfl⟩ := List.mem_map.1 hmem
        rw [hbefore d' hd' e' he']
        rfl
      · obtain ⟨e', he', rfl⟩ := List.mem_map.1 hmem
        rw [hearlier e' he']
        rfl
  rw [get_of_fileName? h, hfind]
  simp only [FileTree.readText, hfile]
  cases String.fromUTF8? ⟨bytes.toArray⟩ <;> rfl

end

/-- **Partials in files stay below their search paths.** A rejected name is answered without a look
at any file. Any other name has components that lead down one directory each, what they are reduced
to, and the provider looks at files that these lead to, one for each search path and extension; the
first of them that there is gives its text. -/
theorem partials_stay_below_search_paths (p : FilePartials) (hsafe : p.allowsUnsafe = false)
    (hextensions : ∀ e ∈ p.extensions, ∀ x ∈ e.toList, isPathSeparator x = false) (name : String) :
    (Rejected name → ∀ files, p.get files name = .silent (.error (.unsafeName name))) ∧
      (¬ Rejected name → ∃ front last, p.Confined name front last) := by
  have hname (name : String) : p.fileName? name = (safeComponents? name.toList).map pathOf := by
    rw [fileName?, hsafe]
    rfl
  refine ⟨fun hrejected files ↦ ?_, fun haccepted ↦ ?_⟩
  · have hnone : p.fileName? name = none := by
      rw [hname, safeComponents?_of_rejected hrejected]
      rfl
    rw [get, hnone]
  obtain ⟨front, last, hsafe?, hreduces, hplain⟩ := exists_safeComponents? haccepted
  have hnonempty (last : List Char) : front ++ [last] ≠ [] := by simp
  have hfile : p.fileName? name = some (pathOf (front ++ [last])) := by
    rw [hname, hsafe?]
    rfl
  refine ⟨front, last, hreduces, hplain, hfile, ?_, fun _ _ ↦ get_congr hfile, ?_,
    fun _ _ _ _ _ ↦ get_of_comesFirst hfile, fun _ ↦ get_of_none hfile⟩
  · rw [hname, safeComponents?_pathOf (hnonempty last) hplain]
    rfl
  · intro files d _ e he place node hfind
    obtain ⟨hfront, hlast⟩ := List.forall_mem_append.1 hplain
    have hlast : Plain last := hlast last List.mem_cons_self
    have hord : ∀ c ∈ front ++ [last ++ e.toList], FilePartials.isOrdinary c = true :=
      List.forall_mem_append.2 ⟨fun c hc ↦ (hfront c hc).isOrdinary,
        List.forall_mem_singleton.2 (hlast.isOrdinary_append e.toList)⟩
    have hsep : ∀ c ∈ front ++ [last ++ e.toList], ∀ x ∈ c, isPathSeparator x = false :=
      List.forall_mem_append.2 ⟨fun c hc ↦ (hfront c hc).not_separator,
        List.forall_mem_singleton.2
          (List.forall_mem_append.2 ⟨hlast.not_separator, hextensions e he⟩)⟩
    obtain ⟨base, hbase, hwalk⟩ := FileTree.exists_walk_of_find_join (hnonempty _)
      (fun c hc hnil ↦ nomatch hnil ▸ hord c hc) hsep hfind
    exact ⟨base, hbase, FileTree.eq_append_of_walk hord hwalk⟩

/-- A name with detours of both kinds, looked for in the working place and under an absolute path,
and one that leads above its start in passing. -/
theorem partials_stay_below_search_paths_of_detours :
    let p : FilePartials := ⟨["e", "/srv/p/"], ["", ".m"], false⟩
    let files := ((FileTree.empty.makeDirectory "e/a").makeDirectory "/srv/p/a").write
      "/srv/p/a/c.m" [104, 105]
    Rejected "a/../..\\a/c" ∧ ¬ Rejected "a/./b\\..\\c" ∧
      p.get files "a/../..\\a/c" = .silent (.error (.unsafeName "a/../..\\a/c")) ∧
      p.get files "a/./b\\..\\c" = ⟨[.found "a/c" "/srv/p/a/c.m"], .ok "hi"⟩ ∧
      p.get (files.write "e/a/c" [104, 111]) "a/./b\\..\\c" = ⟨[.found "a/c" "e/a/c"], .ok "ho"⟩ := by
  intro p files
  have hrejected : Rejected "a/../..\\a/c" :=
    .climbs ⟨[['a'], dots, dots], ⟨[['a'], ['c']], by decide⟩, by decide⟩
  have haccepted : ¬ Rejected "a/./b\\..\\c" := fun h ↦
    nomatch safeComponents?_of_rejected h
  have hextensions : ∀ e ∈ p.extensions, ∀ x ∈ e.toList, isPathSeparator x = false := by
    simp [p, isPathSeparator]
  obtain ⟨hanswer, -⟩ := partials_stay_below_search_paths p rfl hextensions "a/../..\\a/c"
  obtain ⟨-, hconfined⟩ := partials_stay_below_search_paths p rfl hextensions "a/./b\\..\\c"
  obtain ⟨front, last, hfile⟩ := hconfined haccepted
  have hpath : pathOf (front ++ [last]) = "a/c" := (Option.some.inj hfile.fileName?).symm
  have hsplit : front ++ [last] = [['a']] ++ [['c']] := by
    rw [← nameComponents_pathOf (by simp) hfile.plain, hpath]
    rfl
  obtain ⟨rfl, hlast⟩ := List.append_inj' hsplit rfl
  obtain rfl := List.singleton_inj.1 hlast
  refine ⟨hrejected, haccepted, hanswer hrejected files, ?_, ?_⟩
  · have hfirst : p.ComesFirst files [['a']] ['c'] "/srv/p/" ".m" :=
      ⟨["e"], [], [""], [], rfl, rfl, by decide +kernel, by decide +kernel⟩
    rw [hfile.first files "/srv/p/" ".m" ["srv", "p", "a", "c.m"] [104, 105] hfirst
      (by decide +kernel)]
    rfl
  · have hfirst : p.ComesFirst (files.write "e/a/c" [104, 111]) [['a']] ['c'] "e" "" :=
      ⟨[], ["/srv/p/"], [], [".m"], rfl, rfl, by decide +kernel, by decide +kernel⟩
    rw [hfile.first _ "e" "" ["tmp", "work", "e", "a", "c"] [104, 111] hfirst (by decide +kernel)]
    rfl

end FilePartials

end Mustache
