/-!
# Integer literals

A literal is an optional minus sign followed by decimal digits, or by a radix
mark (`0x`, `0o`, `0b`, in either case) and digits of that radix. Its magnitude
must fit a signed 128-bit integer.
-/

namespace TypeChecker
namespace Number

def digitValue? (radix : Nat) (c : Char) : Option Nat :=
  let code := c.toNat
  let value :=
    if Nat.ble 48 code && Nat.ble code 57 then some (code - 48)
    else if Nat.ble 97 code && Nat.ble code 102 then some (code - 87)
    else if Nat.ble 65 code && Nat.ble code 70 then some (code - 55)
    else none
  value.filter fun digit => Nat.blt digit radix

def readDigits? (radix : Nat) : Nat -> List Char -> Option Nat
  | value, [] => some value
  | value, c :: rest =>
      match digitValue? radix c with
      | none => none
      | some digit => readDigits? radix (value * radix + digit) rest

def splitRadix : List Char -> Nat × List Char
  | '0' :: 'x' :: digits => (16, digits)
  | '0' :: 'X' :: digits => (16, digits)
  | '0' :: 'o' :: digits => (8, digits)
  | '0' :: 'O' :: digits => (8, digits)
  | '0' :: 'b' :: digits => (2, digits)
  | '0' :: 'B' :: digits => (2, digits)
  | digits => (10, digits)

def maxMagnitude : Nat := Nat.pow 2 127 - 1

def readMagnitude? (text : List Char) : Option Nat :=
  let (radix, digits) := splitRadix text
  if digits.isEmpty then none
  else (readDigits? radix 0 digits).filter fun value => Nat.ble value maxMagnitude

def readLiteral? (literal : String) : Option Int :=
  match literal.toList with
  | '-' :: magnitude => (readMagnitude? magnitude).map fun value => -Int.ofNat value
  | magnitude => (readMagnitude? magnitude).map Int.ofNat

end Number
end TypeChecker
