import Mustache.Text.Blank

/-!
# Delimiters

The pair of marks that open and close a tag. A template starts with two braces on either side and
may change the pair as often as it likes.

## Shape decisions

* **A pair carries the proof that both marks are usable:** not empty, and free of `=` and of the
  separators. A mark that cannot be found in the text of its own tag, and that every occurrence of
  consumes a character, is what makes reading end.
-/

namespace Mustache

/-- A mark can serve as a delimiter when it is not empty and holds neither `=` nor a separator. -/
def Usable (mark : List Char) : Prop :=
  mark ≠ [] ∧ ∀ c ∈ mark, c ≠ '=' ∧ Text.isSeparator c = false

/-- Decided by a look at each character of the mark. -/
instance (mark : List Char) : Decidable (Usable mark) :=
  @instDecidableAnd (mark ≠ []) _ inferInstance
    (List.decidableBAll (fun c ↦ c ≠ '=' ∧ Text.isSeparator c = false) mark)

/-- The marks around a tag. -/
structure Delimiters where
  opening : List Char
  closing : List Char
  opening_usable : Usable opening
  closing_usable : Usable closing
  deriving DecidableEq

namespace Delimiters

/-- The pair in effect at the start of every template. -/
def standard : Delimiters where
  opening := ['\x7b', '\x7b']
  closing := ['\x7d', '\x7d']
  opening_usable := by decide
  closing_usable := by decide

/-- The pair given by a delimiter change, whose trimmed body is two words between equals signs. -/
def ofBody? (body : List Char) : Option Delimiters :=
  match body with
  | '=' :: rest =>
    if rest.getLast? = some '=' then
      match Text.words Text.isSeparator rest.dropLast with
      | [opening, closing] =>
        if h : Usable opening ∧ Usable closing then some ⟨opening, closing, h.1, h.2⟩ else none
      | _ => none
    else none
  | _ => none

end Delimiters

end Mustache
