/-!
# Defects of a template

What can be wrong with the text of a template, where it is found, and the words for it.
-/

namespace Mustache

/-- What is wrong with the text of a template. -/
inductive Defect
  /-- A tag is opened and never closed. -/
  | unmatchedOpen
  /-- A tag holds nothing but blanks. -/
  | emptyTag
  /-- The text ends inside the section. -/
  | unclosedSection (name : String)
  /-- A close tag names another section than the innermost open one. -/
  | interleavedClose (name : String)
  /-- A close tag stands outside of every section. -/
  | unmatchedClose
  /-- A delimiter change does not give two usable delimiters. -/
  | invalidDelimiters
  deriving DecidableEq, Repr

/-- The words for a defect. -/
def Defect.message : Defect → String
  | unmatchedOpen => "unmatched open tag"
  | emptyTag => "empty tag"
  | unclosedSection name => "section " ++ name ++ " has no closing tag"
  | interleavedClose name => "interleaved closing tag: " ++ name
  | unmatchedClose => "unmatched close tag"
  | invalidDelimiters => "invalid meta tag"

/-- A defect and the line it is found on; the first line is 1. -/
structure Malformed where
  line : Nat
  defect : Defect
  deriving DecidableEq, Repr

/-- The message of a malformed template. -/
def Malformed.message (m : Malformed) : String :=
  "line " ++ toString m.line ++ ": " ++ m.defect.message

end Mustache
