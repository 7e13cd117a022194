import Mustache.Proofs.RunsInSequence
import Mustache.Proofs.ScopeByScope

/-!
# What a name stands for

The rules of name resolution, said without the recursions that carry them out, and that a lookup
goes by them (`names_resolve_by_rule`).

Three searches are nested in a lookup. The rules have them one inside the other:

* **the levels of a scope.** A scope is taken apart first: the value itself, what it wraps, what
  that wraps (`Value.levels`), and the first one that is no wrapper (`Value.core?`). A segment is
  then what the first level with an answer answers, or else the member of the innermost value
  (`Value.yielded`). The segment `.` is asked of the outermost level only, and stands for the
  scope as it is;
* **the scopes of a chain.** The first scope that yields a value counts;
* **the segments of a name.** A name is parted at its first dot, and each part is resolved by the
  same rules, the second one inside the value of the first (`Value.Resolves`).

A level whose method fails has an answer, which is that the scope yields nothing.
-/

namespace Mustache

namespace Value

/-! ### The levels of a scope -/

mutual

/-- A value and what it wraps, level by level, the outermost first. -/
def levels : Value → List Value
  | .object i o => .object i o :: if o.kind = .wrapper then levelsInside o.inner? else []
  | v => [v]
termination_by structural v => v

/-- The levels of what a wrapper holds; a null wrapper is the last level. -/
def levelsInside : Option Value → List Value
  | none => []
  | some v => v.levels
termination_by structural v => v

end

def isWrapper : Value → Bool
  | .object _ o => o.kind = .wrapper
  | _ => false

/-- The value behind all wrapping; there is none behind a null wrapper. -/
def core? (v : Value) : Option Value :=
  v.levels.find? fun level ↦ !level.isWrapper

/-- What the method of this name answers, nothing if it fails; `none` when there is no such
method. -/
def answer? (segment : String) : Value → Option (Option Value)
  | .object _ o =>
    match o.method segment with
    | .ok none => none
    | .ok (some w) => some (some w)
    | .error _ => some none
  | _ => none

/-- What is found under a name in a value that wraps nothing. -/
def member? (segment : String) : Value → Option Value
  | .map entries => entries.lookup segment
  | .record r => r.get? segment
  | .object _ o => if o.kind = .record ∨ o.kind = .map then o.member segment else none
  | _ => none

/-- The value that a scope yields for a segment. -/
def yielded (segment : String) (v : Value) : Option Value :=
  if segment = "." then (v.answer? segment).getD (some v)
  else (v.levels.findSome? (answer? segment)).getD (v.core?.bind (member? segment))

/-- The dot yields the value itself, unless the value answers it. -/
theorem yielded_dot (v : Value) : v.yielded "." = (v.answer? ".").getD (some v) :=
  if_pos rfl

theorem yielded_of_ne {segment : String} (hdot : segment ≠ ".") (v : Value) :
    v.yielded segment =
      (v.levels.findSome? (answer? segment)).getD (v.core?.bind (member? segment)) :=
  if_neg hdot

/-! ### What a scope has -/

/-- What the outermost level answers counts. -/
theorem yielded_of_answer {segment : String} {v : Value} {answer : Option Value}
    (h : v.answer? segment = some answer) : v.yielded segment = answer := by
  obtain ⟨inner, hlevels⟩ : ∃ inner, v.levels = v :: inner := by cases v <;> exact ⟨_, rfl⟩
  rw [yielded, hlevels, List.findSome?_cons, h]
  split <;> rfl

/-- A value without methods that wraps nothing yields itself or its member. -/
theorem yielded_of_levels {segment : String} {v : Value} (hlevels : v.levels = [v])
    (hwrapper : v.isWrapper = false) (h : v.answer? segment = none) :
    v.yielded segment = if segment = "." then some v else v.member? segment := by
  rw [yielded, core?, hlevels, List.findSome?_singleton, h, List.find?_singleton, hwrapper]
  split <;> rfl

/-- A level that wraps and has no answer leaves a segment to what it wraps. -/
theorem yielded_wrapper {segment : String} {i : Nat} {o : HostObject Value} (hdot : segment ≠ ".")
    (hkind : o.kind = .wrapper) (h : (Value.object i o).answer? segment = none) :
    (Value.object i o).yielded segment = o.inner?.bind (yielded segment) := by
  have hlevels : (Value.object i o).levels = .object i o :: levelsInside o.inner? := by
    rw [levels, if_pos hkind]
  have hwrapper : (Value.object i o).isWrapper = true := decide_eq_true hkind
  rw [yielded_of_ne hdot, core?, hlevels, List.findSome?_cons, h, List.find?_cons, hwrapper]
  rcases o.inner? with - | w
  · rfl
  · exact (yielded_of_ne hdot w).symm

/-- An object without an answer that wraps nothing yields itself or its member. -/
theorem yielded_object {segment : String} {i : Nat} {o : HostObject Value}
    (hkind : o.kind ≠ .wrapper) (h : (Value.object i o).answer? segment = none) :
    (Value.object i o).yielded segment =
      if segment = "." then some (.object i o) else (Value.object i o).member? segment :=
  yielded_of_levels (by rw [levels, if_neg hkind]) (decide_eq_false hkind) h

mutual

/-- A scope has for a segment what it yields. -/
theorem found_get? (segment : String) : ∀ v : Value, (v.get? segment).found = v.yielded segment
  | .object i o => by
    rw [get?]
    split
    · next w hmethod => exact (yielded_of_answer (by rw [answer?, hmethod]; rfl)).symm
    · next cause hmethod => exact (yielded_of_answer (by rw [answer?, hmethod])).symm
    · next hmethod =>
      have hanswer : (Value.object i o).answer? segment = none := by rw [answer?, hmethod]
      split
      · next hdot =>
        rw [hdot] at hanswer ⊢
        rw [yielded_dot, hanswer]
        rfl
      · next hdot =>
        split
        · next hkind =>
          rw [yielded_wrapper hdot hkind hanswer]
          exact found_getInner? segment o.inner?
        all_goals
          next hkind =>
          rw [yielded_object (by rw [hkind]; exact nofun) hanswer, if_neg hdot, member?, hkind]
          rfl
  | .null | .bool _ | .int _ | .uint _ | .float _ | .text _ | .seq _ | .map _ | .record _
  | .lambda _ => by
    rw [yielded_of_levels rfl rfl rfl]
    rfl
termination_by structural v => v

/-- The rule goes on with what a wrapper holds, if it holds anything. -/
theorem found_getInner? (segment : String) :
    ∀ v? : Option Value, (getInner? segment v?).found = v?.bind (yielded segment)
  | none => rfl
  | some v => found_get? segment v
termination_by structural v => v

end

/-- The first scope that yields a value counts. -/
theorem found_search (segment : String) (chain : List Value) :
    (search segment chain).found = chain.findSome? (yielded segment) := by
  induction chain with
  | nil => rfl
  | cons scope chain ih =>
    rw [search_cons, Search.andThen, found_get?, List.findSome?_cons]
    rcases scope.yielded segment with - | v
    · exact ih
    · rfl

end Value

/-! ### The segments of a name -/

namespace Name

/-- Whether a name has one segment: no dot is in it, or it is a dot. -/
def IsSegment (name : String) : Prop :=
  name = "." ∨ '.' ∉ name.toList

theorem pieces_of_not_mem {t : List Char} (h : '.' ∉ t) : Text.pieces (· == '.') t = [t] :=
  Text.pieces_of_forall fun _ hc ↦ beq_false_of_ne fun hdot ↦ h (hdot ▸ hc)

/-- A name without a dot is one segment. -/
theorem segments_of_not_mem {t : List Char} (h : '.' ∉ t) : segments t = [t] := by
  rw [segments, pieces_of_not_mem h]
  rcases t with - | ⟨c, t⟩ <;> rfl

theorem ofString_of_isSegment {name : String} (h : IsSegment name) :
    ofString name = ⟨name, []⟩ := by
  rcases h with rfl | h
  · rfl
  · rw [ofString, segments_of_not_mem h]
    exact congrArg (Name.mk · []) (String.ofList_toList (s := name))

/-- The segments behind the first dot are those of the text behind it. -/
theorem segments_append_cons {first rest : List Char} (hfirst : '.' ∉ first)
    (hdot : first ++ '.' :: rest ≠ ['.']) :
    segments (first ++ '.' :: rest) = first :: segments rest := by
  have hnil (hrest : Text.pieces (· == '.') rest = [[]]) : first ≠ [] := by
    rintro rfl
    exact hdot (by rw [Text.eq_nil_of_pieces hrest]; rfl)
  rw [segments, segments, Text.pieces_append_cons rfl, pieces_of_not_mem hfirst,
    List.reverse_append]
  generalize Text.pieces (· == '.') rest = ps at hnil
  -- two empty pieces at the end are behind the first dot, unless the name is that dot
  rcases hreverse : ps.reverse with - | ⟨last, - | ⟨previous, before⟩⟩
  · rcases first with - | ⟨c, first⟩ <;> rfl
  · obtain rfl : ps = [last] := by rw [← List.reverse_reverse ps, hreverse]; rfl
    rcases last with - | ⟨c, last⟩
    · obtain ⟨d, front, rfl⟩ := List.exists_cons_of_ne_nil (hnil rfl)
      rfl
    · rfl
  · rcases last with - | ⟨c, last⟩
    · rcases previous with - | ⟨d, previous⟩
      · show (before ++ [first]).reverse ++ _ = _
        rw [List.reverse_append]
        rfl
      · rfl
    · rfl

/-- The first dot cuts off the first segment, and what is behind it is a name again. -/
theorem ofString_append {first rest : String} (hfirst : '.' ∉ first.toList)
    (hdot : first ++ "." ++ rest ≠ ".") :
    ofString (first ++ "." ++ rest) =
      ⟨first, (ofString rest).first :: (ofString rest).others⟩ := by
  have htext : (first ++ "." ++ rest).toList = first.toList ++ '.' :: rest.toList := by simp
  have hsegments :
      segments (first ++ "." ++ rest).toList = first.toList :: segments rest.toList := by
    rw [htext]
    refine segments_append_cons hfirst fun heq ↦ hdot (String.toList_inj.1 ?_)
    rw [htext, heq]
    rfl
  rw [ofString, hsegments, ofString]
  rcases hrest : segments rest.toList with - | ⟨next, others⟩
  · have hhead := head?_segments rest.toList
    rw [hrest] at hhead
    cases hhead
  · exact congrArg (Name.mk · _) (String.ofList_toList (s := first))

end Name

namespace Value

/-- A name of one segment stands for what the first scope that has it yields. -/
theorem found_lookup_of_isSegment {name : String} (h : Name.IsSegment name) (chain : List Value) :
    (lookup chain name).found =
      match chain.findSome? (yielded name) with
      | some v => .ok v
      | none => .error name := by
  rw [lookup, Name.ofString_of_isSegment h, found_resolve, found_search]
  rfl

/-- The text behind the first dot is looked up in the value of what is in front of it. -/
theorem found_lookup_append {first rest : String} (hfirst : '.' ∉ first.toList)
    (hdot : first ++ "." ++ rest ≠ ".") (chain : List Value) :
    (lookup chain (first ++ "." ++ rest)).found =
      match (lookup chain first).found with
      | .ok v => (lookup [v] rest).found
      | .error segment => .error segment := by
  rw [found_lookup_of_isSegment (.inr hfirst), lookup, Name.ofString_append hfirst hdot,
    found_resolve, found_search]
  rcases chain.findSome? (yielded first) with - | v <;> rfl

/-- What a name stands for in a chain of scopes: a value, or the segment that stands for none. -/
inductive Resolves : List Value → String → Except String Value → Prop
  /-- A name of one segment stands for what the first scope that yields a value yields. -/
  | found {name : String} {before : List Value} {scope : Value} {behind : List Value} {v : Value}
      (hname : Name.IsSegment name) (hbefore : ∀ outer ∈ before, outer.yielded name = none)
      (hscope : scope.yielded name = some v) :
      Resolves (before ++ scope :: behind) name (.ok v)
  /-- No scope yields a value. -/
  | missing {name : String} {chain : List Value} (hname : Name.IsSegment name)
      (hchain : ∀ scope ∈ chain, scope.yielded name = none) : Resolves chain name (.error name)
  /-- What is behind the first dot is resolved in the value of what is in front of it, alone. -/
  | inside {first rest : String} {chain : List Value} {v : Value} {result : Except String Value}
      (hfirst : '.' ∉ first.toList) (hdot : first ++ "." ++ rest ≠ ".")
      (hvalue : Resolves chain first (.ok v)) (hresult : Resolves [v] rest result) :
      Resolves chain (first ++ "." ++ rest) result
  /-- What is in front of the first dot stands for nothing. -/
  | outside {first rest segment : String} {chain : List Value} (hfirst : '.' ∉ first.toList)
      (hdot : first ++ "." ++ rest ≠ ".") (h : Resolves chain first (.error segment)) :
      Resolves chain (first ++ "." ++ rest) (.error segment)

/-- What the rule gives is what is looked up. -/
theorem Resolves.found_lookup {chain : List Value} {name : String} {result : Except String Value}
    (h : Resolves chain name result) : (lookup chain name).found = result := by
  induction h with
  | found hname hbefore hscope =>
    rw [found_lookup_of_isSegment hname,
      List.findSome?_eq_some_iff.2 ⟨_, _, _, rfl, hscope, hbefore⟩]
  | missing hname hchain =>
    rw [found_lookup_of_isSegment hname, List.findSome?_eq_none_iff.2 hchain]
  | inside hfirst hdot hvalue hresult ihvalue ihresult =>
    rw [found_lookup_append hfirst hdot, ihvalue, ← ihresult]
  | outside hfirst hdot h ih => rw [found_lookup_append hfirst hdot, ih]

/-- And what is looked up is given by the rule: first for one segment. -/
theorem resolves_of_isSegment {name : String} (h : Name.IsSegment name) (chain : List Value) :
    Resolves chain name (lookup chain name).found := by
  rw [found_lookup_of_isSegment h]
  rcases hfound : chain.findSome? (yielded name) with - | v
  · exact .missing h (List.findSome?_eq_none_iff.1 hfound)
  · obtain ⟨before, scope, behind, rfl, hscope, hbefore⟩ := List.findSome?_eq_some_iff.1 hfound
    exact .found h hbefore hscope

/-- Every name is resolved, by induction on its length. -/
theorem resolves_found_lookup (chain : List Value) (name : String) :
    Resolves chain name (lookup chain name).found := by
  by_cases hsegment : Name.IsSegment name
  · exact resolves_of_isSegment hsegment chain
  · obtain ⟨hdot, hmem⟩ := not_or.1 hsegment
    obtain ⟨first, rest, hname, hfirst⟩ := List.eq_append_cons_of_mem (Decidable.not_not.1 hmem)
    have hlt : rest.length < name.length := by
      rw [← String.length_toList (s := name), hname]
      simp
      omega
    have happend : name = String.ofList first ++ "." ++ String.ofList rest :=
      String.toList_inj.1 (by simpa using hname)
    have hfirst : '.' ∉ (String.ofList first).toList := by simpa using hfirst
    have hvalue := resolves_of_isSegment (.inr hfirst) chain
    rw [happend] at hdot ⊢
    rw [found_lookup_append hfirst hdot]
    generalize (lookup chain (String.ofList first)).found = found at hvalue ⊢
    rcases found with segment | v
    · exact .outside hfirst hdot hvalue
    · exact .inside hfirst hdot hvalue (resolves_found_lookup [v] (String.ofList rest))
termination_by name.length

theorem resolves_iff {chain : List Value} {name : String} {result : Except String Value} :
    Resolves chain name result ↔ (lookup chain name).found = result :=
  ⟨Resolves.found_lookup, fun h ↦ h ▸ resolves_found_lookup chain name⟩

end Value

namespace Compiler

/-- What becomes of a name goes by what is found for it, and by whether the compiler is strict. -/
theorem outcome_valueOf (c : Compiler) (chain : List Value) (name : String) :
    (c.valueOf chain name).outcome =
      match (Value.lookup chain name).found with
      | .ok v => .ok (some v)
      | .error segment =>
        if c.strict then .error (.error (.missingVariable segment)) else .ok none := by
  rw [valueOf, Run.outcome_bind, Run.outcome_report, Run.sequel]
  rcases (Value.lookup chain name).found with segment | v
  · dsimp only
    split <;> rfl
  · rfl

end Compiler

/-- **A lookup goes by the rules.** They give each name exactly one result in each chain of scopes,
and that is what a rendering gets: the value, or an error that names the missing segment if the
compiler is strict, and no value if it is not. -/
theorem names_resolve_by_rule (c : Compiler) (chain : List Value) (name : String) :
    ∃ result, (∀ other, Value.Resolves chain name other ↔ other = result) ∧
      (Value.lookup chain name).found = result ∧
      (c.valueOf chain name).outcome =
        match result with
        | .ok v => .ok (some v)
        | .error segment =>
          if c.strict then .error (.error (.missingVariable segment)) else .ok none :=
  ⟨_, fun _ ↦ Value.resolves_iff.trans eq_comm, rfl, c.outcome_valueOf chain name⟩

end Mustache
