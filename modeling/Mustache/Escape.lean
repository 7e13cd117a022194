/-!
# Escaping

What becomes of the text of a value before it is written into a template: nothing, entities for
the characters that mean something in markup, or the escapes of a JSON string literal. Each mode
works character by character.
-/

namespace Mustache

/-- How interpolated values are escaped. -/
inductive EscapeMode
  /-- For templates that produce markup. -/
  | html
  /-- For templates that produce JSON, inside string literals. -/
  | json
  /-- Not at all. -/
  | raw
  deriving DecidableEq, Repr, Inhabited

namespace EscapeMode

/-- The name of a mode in options. -/
def name : EscapeMode → String
  | html => "html"
  | json => "json"
  | raw => "raw"

/-- The mode of this name. -/
def ofName? (s : String) : Option EscapeMode :=
  [html, json, raw].find? fun mode ↦ mode.name == s

/-- The name of a mode where a compiler is described. -/
def title : EscapeMode → String
  | html => "Html"
  | json => "Json"
  | raw => "Raw"

/-- A character of markup text. -/
def htmlChar (c : Char) : List Char :=
  if c = '&' then "&amp;".toList
  else if c = '<' then "&lt;".toList
  else if c = '>' then "&gt;".toList
  else if c = '"' then "&quot;".toList
  else if c.toNat = 39 then "&#39;".toList
  else [c]

/-- The control characters of Unicode. -/
def isControl (c : Char) : Bool :=
  c.toNat < 32 || (127 ≤ c.toNat && c.toNat < 160)

/-- A character inside a JSON string literal. Every control character is escaped. -/
def jsonChar (c : Char) : List Char :=
  if c = '"' then ['\\', '"']
  else if c = '\\' then ['\\', '\\']
  else if c = '\n' then ['\\', 'n']
  else if c = '\x08' then ['\\', 'b']
  else if c = '\x0c' then ['\\', 'f']
  else if c = '\r' then ['\\', 'r']
  else if c = '\t' then ['\\', 't']
  else if isControl c then
    ['\\', 'u', '0', '0', Nat.digitChar (c.toNat / 16), Nat.digitChar (c.toNat % 16)]
  else [c]

/-- A character as the mode writes it. -/
def char : EscapeMode → Char → List Char
  | html => htmlChar
  | json => jsonChar
  | raw => fun c ↦ [c]

/-- A text as the mode writes it. -/
def escape (mode : EscapeMode) (t : String) : String :=
  String.ofList (t.toList.flatMap mode.char)

/-- Writing character by character is writing one character after the other. -/
theorem ofList_flatMap (f : Char → List Char) (t : List Char) :
    String.ofList (t.flatMap f) = String.join (t.map fun c ↦ String.ofList (f c)) := by
  induction t with
  | nil => rfl
  | cons c t ih =>
    rw [List.flatMap_cons, String.ofList_append, ih, List.map_cons, String.join_cons]

/-- The parts of a text are written as they are alone. -/
theorem escape_append (mode : EscapeMode) (t u : String) :
    mode.escape (t ++ u) = mode.escape t ++ mode.escape u := by
  rw [escape, escape, escape, String.toList_append, List.flatMap_append, String.ofList_append]

end EscapeMode

end Mustache
