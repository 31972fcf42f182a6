/-!
# Integers as binary64 numbers

Integers of up to 53 bits have an exact double-precision form: the leading bit
is implied, the bits below it fill the fraction from the top, and the exponent
is the position of the leading bit.
-/

namespace TypeChecker
namespace Number

/-- The largest magnitude up to which every integer has an exact binary64 form. -/
def maxExactMagnitude : Nat := Nat.pow 2 53 - 1

def binary64Magnitude (n : Nat) : Nat :=
  if n = 0 then 0
  else
    let exponent := n.log2
    (exponent + 1023) * Nat.pow 2 52 + (n - Nat.pow 2 exponent) * Nat.pow 2 (52 - exponent)

/-- The bit pattern of an integer whose magnitude is at most `maxExactMagnitude`. -/
def binary64OfInt : Int -> UInt64
  | .ofNat n => UInt64.ofNat (binary64Magnitude n)
  | .negSucc n => UInt64.ofNat (Nat.pow 2 63 + binary64Magnitude (n + 1))

end Number
end TypeChecker
