/-!
# Floating-point numbers

Numbers in the 64-bit binary interchange format, kept as their bits. Nothing is ever calculated
with them: they are told apart, compared, and written out.

## Shape decisions

* **The bits are the number.** Zero has two signs and there are many NaNs; the type tells all of
  them apart, and `equal` is the comparison that does not.
* **The parts are cut out by division.** The constants in hexadecimal are the powers of two at the
  borders between sign, exponent and fraction.
* **A finite magnitude is a natural number times a power of two** (`Dyadic`), which is the form
  that exact arithmetic can use.
-/

namespace Mustache

/-- A floating-point number by its 64 bits: a sign, 11 bits of exponent, 52 bits of fraction. -/
structure Binary64 where
  bits : UInt64
  deriving DecidableEq, Repr

/-- The number `mantissa · 2 ^ exponent`. -/
structure Dyadic where
  mantissa : Nat
  exponent : Int

namespace Binary64

def isNegative (x : Binary64) : Bool :=
  0x8000000000000000 ≤ x.bits.toNat

/-- The exponent as it is stored, between 0 and 2047. -/
def storedExponent (x : Binary64) : Nat :=
  x.bits.toNat / 0x10000000000000 % 0x800

/-- The fraction as it is stored. -/
def storedFraction (x : Binary64) : Nat :=
  x.bits.toNat % 0x10000000000000

def isNaN (x : Binary64) : Bool :=
  x.storedExponent == 2047 && x.storedFraction != 0

def isInfinite (x : Binary64) : Bool :=
  x.storedExponent == 2047 && x.storedFraction == 0

/-- The absolute value of a finite number. -/
def magnitude (x : Binary64) : Dyadic :=
  if x.storedExponent = 0 then ⟨x.storedFraction, -1074⟩
  else ⟨0x10000000000000 + x.storedFraction, (x.storedExponent : Int) - 1075⟩

/-- Whether the next smaller magnitude is only half as far away as the next larger one, as it is
below a power of two. -/
def isNarrowBelow (x : Binary64) : Bool :=
  x.storedFraction == 0 && 1 < x.storedExponent

/-- Either zero. -/
def isAnyZero (x : Binary64) : Bool :=
  x.storedExponent == 0 && x.storedFraction == 0

/-- Numeric equality: the zeros are equal, and a NaN equals nothing. -/
def equal (x y : Binary64) : Bool :=
  !x.isNaN && !y.isNaN && (x == y || (x.isAnyZero && y.isAnyZero))

/-- The number with this sign and these stored parts. -/
def ofParts (negative : Bool) (storedExponent storedFraction : Nat) : Binary64 :=
  ⟨.ofNat ((if negative then 0x8000000000000000 else 0) + storedExponent * 0x10000000000000 +
    storedFraction)⟩

/-- The number given in the 32-bit format, whose values are all among those of the 64-bit one. -/
def ofBinary32 (bits : UInt32) : Binary64 :=
  let negative : Bool := 0x80000000 ≤ bits.toNat
  let storedExponent := bits.toNat / 0x800000 % 0x100
  let fraction := bits.toNat % 0x800000
  if storedExponent = 255 then ofParts negative 2047 (fraction * 0x20000000)
  else if storedExponent ≠ 0 then ofParts negative (storedExponent + 896) (fraction * 0x20000000)
  else if fraction = 0 then ofParts negative 0 0
  else
    -- a magnitude `fraction · 2 ^ -149` below the normal ones of the 32-bit format
    let top := fraction.log2
    ofParts negative (top + 874) ((fraction - Nat.pow 2 top) * Nat.pow 2 (52 - top))

example : ofBinary32 0x3DCCCCCD = ⟨0x3FB99999A0000000⟩ := by decide
example : ofBinary32 0x00000001 = ⟨0x36A0000000000000⟩ := by decide +kernel

end Binary64

end Mustache
