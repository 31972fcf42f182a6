import TypeChecker.Number.Literal

/-!
# Decimal numbers

A coefficient scaled by a power of ten. The nearest binary64 number of a decimal
number is infinite if the decimal number reaches the midpoint between the largest
finite binary64 number and the power of two above it.
-/

namespace TypeChecker
namespace Number

/-- The number `coefficient * 10 ^ exponent`. -/
structure Decimal where
  coefficient : Nat
  exponent : Int
  deriving DecidableEq

namespace Decimal

def ofDigits? (whole fraction : List Char) (exponent : Int) : Option Decimal :=
  (readDigits? 10 0 (whole ++ fraction)).map fun coefficient =>
    { coefficient := coefficient, exponent := exponent - Int.ofNat fraction.length }

def digitCount (d : Decimal) : Nat := (Nat.toDigits 10 d.coefficient).length

def overflowBound : Nat := Nat.pow 2 1024 - Nat.pow 2 970

/-- Whether the nearest binary64 number is infinite. The number of digits before the
point decides unless it is the same as in `overflowBound`, so that no power of ten
larger than the number itself is formed. -/
def overflows (d : Decimal) : Bool :=
  d.coefficient != 0 &&
    match d.exponent with
    | .ofNat up =>
        Nat.blt 309 (d.digitCount + up) ||
          Nat.ble overflowBound (d.coefficient * Nat.pow 10 up)
    | .negSucc down =>
        Nat.blt (309 + down) d.digitCount &&
          Nat.ble (overflowBound * Nat.pow 10 (down + 1)) d.coefficient

end Decimal
end Number
end TypeChecker
