import Mustache.Element

/-!
# Elements written back

The text of elements as a template, with the standard delimiters. This is what a lambda gets to
see of its section: remarks and delimiter changes are gone, every raw interpolation has the same
sigil, and a partial on a line of its own has its line back.

The text is built from left to right: `appendSource` puts the text of an element behind what has
been written so far.
-/

namespace Mustache.Element

mutual

/-- What has been written with the text of an element behind it. -/
def appendSource (written : String) : Element → String
  | .text t => written ++ t
  | .interpolation name raw =>
    written ++ (if raw then "\x7b\x7b&" else "\x7b\x7b") ++ name ++ "\x7d\x7d"
  | .block name inverted _ children =>
    appendSources (written ++ (if inverted then "\x7b\x7b^" else "\x7b\x7b#") ++ name ++ "\x7d\x7d")
      children ++ "\x7b\x7b/" ++ name ++ "\x7d\x7d"
  | .inclusion name indent lineEnd? =>
    match lineEnd? with
    | some ending => written ++ indent ++ "\x7b\x7b>" ++ name ++ "\x7d\x7d" ++ ending
    | none => written ++ "\x7b\x7b>" ++ name ++ "\x7d\x7d"
termination_by structural e => e

/-- What has been written with the text of elements behind it. -/
def appendSources (written : String) : List Element → String
  | [] => written
  | e :: es => appendSources (appendSource written e) es
termination_by structural es => es

end

/-- The text of an element. -/
def source (e : Element) : String :=
  appendSource "" e

/-- The text of elements one after the other. -/
def sources (es : List Element) : String :=
  appendSources "" es

mutual

/-- What is printed goes behind what has been printed before, and does not depend on it. -/
theorem appendSource_eq (written : String) (e : Element) :
    appendSource written e = written ++ e.source := by
  match e with
  | .text _ => simp [source, appendSource]
  | .interpolation _ _ => simp [source, appendSource, String.append_assoc]
  | .block name inverted line children =>
    rw [source, appendSource, appendSource, appendSources_eq _ children,
      appendSources_eq ("" ++ _ ++ _ ++ _) children]
    simp [String.append_assoc]
  | .inclusion _ _ none => simp [source, appendSource, String.append_assoc]
  | .inclusion _ _ (some _) => simp [source, appendSource, String.append_assoc]
termination_by structural e

/-- What has been written stays in front. -/
theorem appendSources_eq (written : String) (es : List Element) :
    appendSources written es = written ++ sources es := by
  match es with
  | [] => simp [sources, appendSources]
  | e :: es =>
    rw [sources, appendSources, appendSources, appendSources_eq _ es,
      appendSources_eq (appendSource "" e) es, appendSource_eq written e, String.append_assoc]
    rfl
termination_by structural es

end

theorem sources_nil : sources [] = "" := rfl

/-- Elements are printed one behind the other. -/
theorem sources_cons (e : Element) (es : List Element) :
    sources (e :: es) = e.source ++ sources es :=
  appendSources_eq e.source es

/-- A section is written as its two tags around its children. -/
theorem source_block (name : String) (inverted : Bool) (line : Nat) (children : List Element) :
    source (.block name inverted line children) =
      (if inverted then "\x7b\x7b^" else "\x7b\x7b#") ++ name ++ "\x7d\x7d" ++ sources children ++
        "\x7b\x7b/" ++ name ++ "\x7d\x7d" := by
  rw [source, appendSource, appendSources_eq, String.empty_append]

end Mustache.Element
