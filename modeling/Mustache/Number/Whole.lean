/-!
# Whole numbers of documents

The integers that a document holds exactly: those that fit 64 bits, with or without a sign.
-/

namespace Mustache

/-- An integer from `-2 ^ 63` up to `2 ^ 64 - 1`. -/
structure Whole where
  val : Int
  ge : -0x8000000000000000 ≤ val
  lt : val < 0x10000000000000000
  deriving DecidableEq

namespace Whole

/-- The integer as one that a document holds, if it is in range. -/
def ofInt? (n : Int) : Option Whole :=
  if h : -0x8000000000000000 ≤ n ∧ n < 0x10000000000000000 then some ⟨n, h.1, h.2⟩ else none

def ofInt64 (n : Int64) : Whole where
  val := n.toInt
  ge := n.le_toInt
  lt := Int.lt_trans n.toInt_lt (by decide)

def ofUInt64 (n : UInt64) : Whole where
  val := n.toNat
  ge := by omega
  lt := by have := n.toNat_lt; omega

end Whole

end Mustache
