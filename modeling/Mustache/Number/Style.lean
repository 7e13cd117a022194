import Mustache.Number.Shortest

/-!
# Number styles

How the digits of a floating-point number are laid out: where the point goes, when an exponent is
written, and what stands for the numbers that have no digits. A format that writes numbers picks
its own `NumberStyle`.
-/

namespace Mustache

/-- How floating-point numbers are laid out. -/
structure NumberStyle where
  /-- The last digit of a number between two shortest decimals. -/
  tie : Tie
  /-- Whether a number is written without an exponent, by the decimal exponent of its first
  digit. -/
  isPlain : Int → Bool
  /-- Whether a whole number gets `.0` behind it. -/
  marksWhole : Bool
  /-- Whether an exponent that is not negative has a plus sign. -/
  signsExponent : Bool
  nan : String
  infinity : String
  negativeInfinity : String

namespace NumberStyle

/-- The digits without an exponent. -/
def plain (s : NumberStyle) (d : Decimal) : String :=
  let digits := Nat.toDigits 10 d.digits
  if 0 ≤ d.exponent then
    String.ofList (digits ++ List.replicate d.exponent.toNat '0') ++
      (if s.marksWhole then ".0" else "")
  else
    let places := (-d.exponent).toNat
    let padded := List.replicate (places + 1 - digits.length) '0' ++ digits
    String.ofList (padded.take (padded.length - places)) ++ "." ++
      String.ofList (padded.drop (padded.length - places))

/-- The digits with one of them in front of the point and an exponent. -/
def scientific (s : NumberStyle) (d : Decimal) (leading : Int) : String :=
  let exponent := (if s.signsExponent && 0 ≤ leading then "+" else "") ++ toString leading
  match Nat.toDigits 10 d.digits with
  | [] => "e" ++ exponent
  | [c] => String.ofList [c] ++ "e" ++ exponent
  | c :: rest => String.ofList (c :: '.' :: rest) ++ "e" ++ exponent

/-- The text of a positive finite number. -/
def positive (s : NumberStyle) (x : Binary64) : String :=
  let d := Decimal.shortest s.tie x
  let leading := d.exponent + (Nat.toDigits 10 d.digits).length - 1
  if s.isPlain leading then s.plain d else s.scientific d leading

/-- The text of a number. -/
def write (s : NumberStyle) (x : Binary64) : String :=
  if x.isNaN then s.nan
  else if x.isInfinite then if x.isNegative then s.negativeInfinity else s.infinity
  else
    let magnitude := if x.isAnyZero then s.plain ⟨0, 0⟩ else s.positive x
    if x.isNegative then "-" ++ magnitude else magnitude

end NumberStyle

end Mustache
