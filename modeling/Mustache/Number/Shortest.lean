import Mustache.Number.Binary64

/-!
# The fewest digits that read back

A floating-point number is written with as few decimal digits as still tell it from its
neighbours, and of several such decimals with the nearest.

## Shape decisions

* **Exact arithmetic throughout.** A decimal is compared with the two ends of the interval of
  reals that round to the number, by cross-multiplying natural numbers (`readsBack`).
* **The search is the specification as a loop.** For one digit, two digits, and so on, the two
  multiples of a power of ten next to the number are tested; the first power with a hit wins.
* **A tie between the two is a choice of the reader of the digits** (`Tie`), not of the search.
-/

namespace Mustache

/-- The number `digits · 10 ^ exponent`. -/
structure Decimal where
  digits : Nat
  exponent : Int
  deriving DecidableEq, Repr

/-- What becomes of a number exactly between two decimals. -/
inductive Tie
  /-- The decimal with an even last digit. -/
  | even
  /-- The decimal further from zero. -/
  | away
  deriving DecidableEq, Repr

namespace Decimal

/-- Compares `a · 10 ^ i` with `n · 2 ^ j`. -/
def compareScaled (a : Nat) (i : Int) (n : Nat) (j : Int) : Ordering :=
  compare (a * Nat.pow 10 i.toNat * Nat.pow 2 (-j).toNat)
    (n * Nat.pow 2 j.toNat * Nat.pow 10 (-i).toNat)

/-- Whether `d` is among the reals that round to a positive `x`. These reach half way to either
neighbour, the ends included exactly when the mantissa is even. -/
def readsBack (x : Binary64) (d : Decimal) : Bool :=
  let v := x.magnitude
  let low := 4 * v.mantissa - (if x.isNarrowBelow then 1 else 2)
  let high := 4 * v.mantissa + 2
  let fromLow := compareScaled d.digits d.exponent low (v.exponent - 2)
  let fromHigh := compareScaled d.digits d.exponent high (v.exponent - 2)
  if v.mantissa % 2 = 0 then fromLow != .lt && fromHigh != .gt
  else fromLow == .gt && fromHigh == .lt

/-- The greatest multiple of `10 ^ e` that is not above `v`. -/
def below (v : Dyadic) (e : Int) : Decimal :=
  ⟨v.mantissa * Nat.pow 2 v.exponent.toNat * Nat.pow 10 (-e).toNat /
    (Nat.pow 10 e.toNat * Nat.pow 2 (-v.exponent).toNat), e⟩

/-- The multiple of the same power of ten that comes after `d`. -/
def next (d : Decimal) : Decimal :=
  ⟨d.digits + 1, d.exponent⟩

/-- The least `k` with `v < 10 ^ k`, for a positive `v`. The binary logarithm gives it up to two
steps. -/
def scale (v : Dyadic) : Int :=
  let k := (v.mantissa.log2 + v.exponent) * 30103 / 100000
  if compareScaled 1 k v.mantissa v.exponent == .gt then k
  else if compareScaled 1 (k + 1) v.mantissa v.exponent == .gt then k + 1
  else k + 2

/-- The nearer to `v` of `d`, which is not above it, and the decimal after `d`. -/
def nearer (tie : Tie) (v : Dyadic) (d : Decimal) : Decimal :=
  -- twice `v` against the sum of the two
  match compareScaled (2 * d.digits + 1) d.exponent (2 * v.mantissa) v.exponent with
  | .lt => d.next
  | .gt => d
  | .eq =>
    match tie with
    | .away => d.next
    | .even => if d.digits % 2 = 0 then d else d.next

/-- A multiple of `10 ^ e` that reads back as `x`, if there is one. -/
def onGrid? (tie : Tie) (x : Binary64) (e : Int) : Option Decimal :=
  let d := below x.magnitude e
  match readsBack x d, readsBack x d.next with
  | true, true => some (nearer tie x.magnitude d)
  | true, false => some d
  | false, true => some d.next
  | false, false => none

/-- The number itself, without rounding. -/
def exact (v : Dyadic) : Decimal :=
  if 0 ≤ v.exponent then ⟨v.mantissa * Nat.pow 2 v.exponent.toNat, 0⟩
  else ⟨v.mantissa * Nat.pow 5 (-v.exponent).toNat, v.exponent⟩

/-- The decimal without zeros at its end. -/
def stripZeros (d : Decimal) : Decimal :=
  strip (d.digits + 1) d
where
  /-- A zero at the end makes the digits smaller, so as many steps as their value do. -/
  strip : Nat → Decimal → Decimal
    | 0, d => d
    | fuel + 1, d =>
      if d.digits ≠ 0 ∧ d.digits % 10 = 0 then strip fuel ⟨d.digits / 10, d.exponent + 1⟩ else d

/-- The shortest decimal that reads back as a positive finite `x`, and the nearest of those.
Seventeen digits always read back. -/
def shortest (tie : Tie) (x : Binary64) : Decimal :=
  let k := scale x.magnitude
  let found := (List.range 17).findSome? fun (n : Nat) ↦ onGrid? tie x (k - 1 - n)
  (found.getD (exact x.magnitude)).stripZeros

example : shortest .even ⟨0x3FB999999999999A⟩ = ⟨1, -1⟩ := by decide +kernel
example : shortest .even ⟨0x44B52D02C7E14AF6⟩ = ⟨1, 23⟩ := by decide +kernel
example : shortest .even ⟨0x0000000000000001⟩ = ⟨5, -324⟩ := by decide +kernel
example : shortest .even ⟨0x3E60000000000000⟩ = ⟨29802322387695312, -24⟩ := by decide +kernel
example : shortest .away ⟨0x3E60000000000000⟩ = ⟨29802322387695313, -24⟩ := by decide +kernel

end Decimal

end Mustache
