import Mustache.Text.Blank
import Mustache.Text.Search

/-!
# Lines

Counting line breaks, recognising the rest of a line that holds nothing but spaces and tabs, and
setting a margin in front of every line.

A line break is a line feed. Where a line is looked at from inside (`lineEnd?`), a carriage return
in front of the line feed belongs to the break.
-/

namespace Mustache.Text

/-- How many line breaks a text holds. -/
def lineBreaks (t : List Char) : Nat :=
  t.count '\n'

theorem lineBreaks_append (t u : List Char) :
    lineBreaks (t ++ u) = lineBreaks t + lineBreaks u :=
  List.count_append

/-- The remainder of the line, its break included, and the text of the next lines; `none` when
the remainder holds anything but spaces and tabs. The end of the text ends a line. -/
def lineEnd? (t : List Char) : Option (List Char × List Char) :=
  let spaces := t.takeWhile isInline
  match t.dropWhile isInline with
  | [] => some (spaces, [])
  | '\n' :: rest => some (spaces ++ ['\n'], rest)
  | '\r' :: '\n' :: rest => some (spaces ++ ['\r', '\n'], rest)
  | _ => none

/-- A line end is cut off the front of the text. -/
theorem append_of_lineEnd? {t ending rest : List Char} (h : lineEnd? t = some (ending, rest)) :
    ending ++ rest = t := by
  have hsplit := List.takeWhile_append_dropWhile (p := isInline) (l := t)
  simp only [lineEnd?] at h
  split at h
  · next hrest =>
    obtain ⟨rfl, rfl⟩ := Prod.mk.inj (Option.some.inj h)
    rwa [hrest] at hsplit
  · next hrest =>
    obtain ⟨rfl, rfl⟩ := Prod.mk.inj (Option.some.inj h)
    rwa [hrest, ← List.singleton_append, ← List.append_assoc] at hsplit
  · next hrest =>
    obtain ⟨rfl, rfl⟩ := Prod.mk.inj (Option.some.inj h)
    rw [List.append_assoc]
    rwa [hrest] at hsplit
  · cases h

/-- The lines of a text, each with the break that ends it; the last may have none. -/
def lines (t : List Char) : List (List Char) :=
  t.foldr (fun c ls ↦ if c = '\n' then ['\n'] :: ls else consFirst c ls) []

/-- A line feed ends its line, and any other character goes to the front of the line behind it. -/
theorem lines_cons (c : Char) (t : List Char) :
    lines (c :: t) = if c = '\n' then ['\n'] :: lines t else consFirst c (lines t) := rfl

/-- The lines make up the text. -/
theorem flatten_lines (t : List Char) : (lines t).flatten = t := by
  induction t with
  | nil => rfl
  | cons c rest ih =>
    rw [lines_cons]
    split
    · next hc => rw [List.flatten_cons, ih, hc]; rfl
    · cases hls : lines rest with
      | nil => rw [hls, List.flatten_nil] at ih; simp [consFirst, ← ih]
      | cons line others => rw [hls, List.flatten_cons] at ih; simp [consFirst, ← ih]

/-- The text with `margin` in front of every line that is more than a line feed. -/
def indent (margin t : List Char) : List Char :=
  (lines t).flatMap fun line ↦ if line = ['\n'] then line else margin ++ line

theorem indent_nil_margin (t : List Char) : indent [] t = t := by
  simp [indent, List.flatMap_id', flatten_lines]

example : indent "  ".toList "a\n\nb\r\nc".toList = "  a\n\n  b\r\n  c".toList := by decide

end Mustache.Text
