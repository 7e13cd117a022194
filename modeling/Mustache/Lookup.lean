import Mustache.Notice
import Mustache.Text.Blank
import Mustache.Text.Search
import Mustache.Value.Basic

/-!
# Looking up names

How a name in a tag finds its value among the scopes of a rendering.

## Shape decisions

* **A chain of scopes is a list of values, the innermost first.** The first one that has a value
  for a name decides.
* **A dotted name is a first segment and those behind it** (`Name`). The first is looked up in the
  whole chain, each later one only in the value of the segment before it.
* **Capabilities come first.** At every level of wrapping an object's method is asked before any
  member, so a wrapper can shadow what it wraps. A method that fails hides the rest of its scope.
* A search reports the methods that failed on its way, whether it finds a value or not.
-/

namespace Mustache

/-! ### Names -/

/-- A dotted name. -/
structure Name where
  first : String
  others : List String
  deriving DecidableEq, Repr

namespace Name

/-- The segments of a text: its pieces between dots, except that two empty pieces at the end are
one dot. A dot that is the whole text, or ends it right behind another dot, is thus a segment. -/
def segments (t : List Char) : List (List Char) :=
  let ps := Text.pieces (· == '.') t
  match ps.reverse with
  | [] :: [] :: before => before.reverse ++ [['.']]
  | _ => ps

/-- The name written as a text. -/
def ofString (s : String) : Name :=
  match segments s.toList with
  | [] => ⟨s, []⟩
  | first :: others => ⟨String.ofList first, others.map String.ofList⟩

example : ofString "a.b.c" = ⟨"a", ["b", "c"]⟩ := by decide
example : ofString "." = ⟨".", []⟩ := by decide
example : ofString "a.." = ⟨"a", ["."]⟩ := by decide
example : ofString "a." = ⟨"a", [""]⟩ := by decide

end Name

/-! ### One scope -/

/-- The result of a search: what was reported on the way, and what was found. -/
structure Search (α : Type) where
  notices : List Notice
  found : α

namespace Search

variable {α β : Type}

/-- A search without reports. -/
def silent (found : α) : Search α :=
  ⟨[], found⟩

/-- A search and, behind its reports, another one. -/
def andThen (s : Search α) (next : α → Search β) : Search β :=
  let t := next s.found
  ⟨s.notices ++ t.notices, t.found⟩

end Search

namespace Value

mutual

/-- The value that one scope has for a segment. -/
def get? (segment : String) : Value → Search (Option Value)
  | .object i o =>
    match o.method segment with
    | .ok (some v) => .silent (some v)
    | .error cause => ⟨[.methodFailed segment o.debug cause], none⟩
    | .ok none =>
      if segment = "." then .silent (some (.object i o))
      else
        match o.kind with
        | .wrapper => getInner? segment o.inner?
        | .record | .map => .silent (o.member segment)
        | .seq | .sealed => .silent none
  | .map entries =>
    .silent (if segment = "." then some (.map entries) else entries.lookup segment)
  | .record r => .silent (if segment = "." then some (.record r) else r.get? segment)
  | v => .silent (if segment = "." then some v else none)
termination_by structural v => v

/-- The value that the inside of a wrapper has for a segment; a null wrapper has none. -/
def getInner? (segment : String) : Option Value → Search (Option Value)
  | none => .silent none
  | some v => v.get? segment
termination_by structural v => v

end

/-! ### Chains of scopes -/

/-- Looks for the value of a segment from a scope on, behind the reports so far, of which the
latest is first. -/
def searchAfter (reported : List Notice) (segment : String) : List Value → Search (Option Value)
  | [] => ⟨reported.reverse, none⟩
  | scope :: chain =>
    match scope.get? segment with
    | ⟨notices, some v⟩ => ⟨reported.reverse ++ notices, some v⟩
    | ⟨notices, none⟩ => searchAfter (notices.reverse ++ reported) segment chain

/-- The value of the first scope that has one for a segment. -/
def search (segment : String) (chain : List Value) : Search (Option Value) :=
  searchAfter [] segment chain

/-- What was reported before goes in front. -/
theorem searchAfter_eq (reported : List Notice) (segment : String) (chain : List Value) :
    searchAfter reported segment chain =
      ⟨reported.reverse ++ (search segment chain).notices, (search segment chain).found⟩ := by
  induction chain generalizing reported with
  | nil => simp [search, searchAfter]
  | cons scope chain ih =>
    rw [search, searchAfter, searchAfter]
    split
    · simp
    · next notices _ => rw [ih, ih (notices.reverse ++ [])]; simp

theorem search_nil (segment : String) : search segment [] = .silent none := rfl

/-- A scope without a value leaves the search to the scopes behind it. -/
theorem search_cons (segment : String) (scope : Value) (chain : List Value) :
    search segment (scope :: chain) =
      (scope.get? segment).andThen fun found ↦
        match found with
        | some v => .silent (some v)
        | none => search segment chain := by
  rw [search, searchAfter]
  cases scope.get? segment with
  | mk notices found =>
    cases found with
    | some v => simp [Search.andThen, Search.silent]
    | none => simp [searchAfter_eq, Search.andThen]

/-- The value of a dotted name, or the segment that has none. -/
def resolve (chain : List Value) (segment : String) :
    List String → Search (Except String Value)
  | [] =>
    (search segment chain).andThen fun found ↦
      match found with
      | some v => .silent (.ok v)
      | none => .silent (.error segment)
  | next :: others =>
    (search segment chain).andThen fun found ↦
      match found with
      | some v => resolve [v] next others
      | none => .silent (.error segment)

/-- The value of a name, or the segment that has none. -/
def lookup (chain : List Value) (name : String) : Search (Except String Value) :=
  let n := Name.ofString name
  resolve chain n.first n.others

/-! ### Emptiness -/

/-- Whether a section over this value is empty: no value, a text of blanks, a sequence without
items, or the zero of another kind. A mapping or a lambda that is there never is. -/
def isEmpty (v? : Option Value) : Bool :=
  match v? with
  | none => true
  | some v =>
    match v.unwrapped with
    | .text t => t.toList.all Text.isBlank
    | .seq items => items.isEmpty
    | .map _ | .lambda _ => false
    | .object i o => if o.kind = .seq then o.items.isEmpty else (Value.object i o).isZero
    | other => other.isZero

end Value

end Mustache
