import TypeChecker.Config.Toml.Value
import TypeChecker.Number.Decimal
import TypeChecker.Number.Width

/-!
# Scalars of TOML

Texts, numbers, truth values, dates and times. A reader takes the characters from
its start on and gives back what it read with the characters that follow.
-/

namespace TypeChecker
namespace Toml

abbrev Chars := List Char

abbrev Reading (α : Type) := Option (α × Chars)

def isSpace (c : Char) : Bool := c == ' ' || c == '\t'

def skipSpaces (text : Chars) : Chars := text.dropWhile isSpace

def isPrintable (c : Char) : Bool :=
  c == '\t' || (Nat.ble 0x20 c.toNat && c.toNat != 0x7F)

def isDigit (c : Char) : Bool := (Number.digitValue? 10 c).isSome

def isLetter (c : Char) : Bool :=
  (Nat.ble 97 c.toNat && Nat.ble c.toNat 122) || (Nat.ble 65 c.toNat && Nat.ble c.toNat 90)

def isBare (c : Char) : Bool := isLetter c || isDigit c || c == '_' || c == '-'

/-!
## Texts
-/

def scalarOf? (digits : Chars) : Option Char :=
  match Number.readDigits? 16 0 digits with
  | none => none
  | some code =>
      if Nat.blt code 0xD800 || (Nat.ble 0xE000 code && Nat.ble code 0x10FFFF) then
        some (Char.ofNat code)
      else none

def consReading (c : Char) (reading : Reading Chars) : Reading Chars :=
  reading.map fun item => (c :: item.1, item.2)

def readBasic : Chars -> Reading Chars
  | [] => none
  | '"' :: rest => some ([], rest)
  | '\\' :: 'b' :: rest => consReading '\x08' (readBasic rest)
  | '\\' :: 't' :: rest => consReading '\t' (readBasic rest)
  | '\\' :: 'n' :: rest => consReading '\n' (readBasic rest)
  | '\\' :: 'f' :: rest => consReading '\x0c' (readBasic rest)
  | '\\' :: 'r' :: rest => consReading '\r' (readBasic rest)
  | '\\' :: '"' :: rest => consReading '"' (readBasic rest)
  | '\\' :: '\\' :: rest => consReading '\\' (readBasic rest)
  | '\\' :: 'u' :: a :: b :: c :: d :: rest =>
      match scalarOf? [a, b, c, d] with
      | some scalar => consReading scalar (readBasic rest)
      | none => none
  | '\\' :: 'U' :: a :: b :: c :: d :: e :: f :: g :: h :: rest =>
      match scalarOf? [a, b, c, d, e, f, g, h] with
      | some scalar => consReading scalar (readBasic rest)
      | none => none
  | '\\' :: _ => none
  | c :: rest => if isPrintable c then consReading c (readBasic rest) else none

def readLiteralText : Chars -> Reading Chars
  | [] => none
  | '\'' :: rest => some ([], rest)
  | c :: rest => if isPrintable c then consReading c (readLiteralText rest) else none

inductive LineState where
  | within
  | escaped
  | joining
  deriving DecidableEq

def dropQuotes (quote : Char) : Chars -> Chars
  | a :: b :: rest =>
      if a == quote && b == quote then rest else if a == quote then b :: rest else a :: b :: rest
  | [a] => if a == quote then [] else [a]
  | [] => []

def skipBasicLines : LineState -> Chars -> Option Chars
  | _, [] => none
  | .escaped, '\n' :: rest => skipBasicLines .joining rest
  | .escaped, '\r' :: '\n' :: rest => skipBasicLines .joining rest
  | .escaped, c :: rest => if isSpace c then skipBasicLines .escaped rest else none
  | .joining, '\n' :: rest => skipBasicLines .joining rest
  | .joining, ' ' :: rest => skipBasicLines .joining rest
  | .joining, '\t' :: rest => skipBasicLines .joining rest
  | _, '"' :: '"' :: '"' :: rest => some (dropQuotes '"' rest)
  | _, '\\' :: 'u' :: a :: b :: c :: d :: rest =>
      if (scalarOf? [a, b, c, d]).isSome then skipBasicLines .within rest else none
  | _, '\\' :: 'U' :: a :: b :: c :: d :: e :: f :: g :: h :: rest =>
      if (scalarOf? [a, b, c, d, e, f, g, h]).isSome then skipBasicLines .within rest else none
  | _, '\\' :: c :: rest =>
      if "btnfr\"\\".toList.contains c then skipBasicLines .within rest
      else if isSpace c then skipBasicLines .escaped rest
      else if c == '\n' then skipBasicLines .joining rest
      else if c == '\r' && rest.head? == some '\n' then skipBasicLines .joining rest
      else none
  | state, '\r' :: '\n' :: rest =>
      skipBasicLines (if state == .joining then .joining else .within) rest
  | _, '\n' :: rest => skipBasicLines .within rest
  | _, c :: rest => if isPrintable c then skipBasicLines .within rest else none

def skipLiteralLines : Chars -> Option Chars
  | [] => none
  | '\'' :: '\'' :: '\'' :: rest => some (dropQuotes '\'' rest)
  | '\r' :: '\n' :: rest => skipLiteralLines rest
  | '\n' :: rest => skipLiteralLines rest
  | c :: rest => if isPrintable c then skipLiteralLines rest else none

/-!
## Numbers
-/

/-- Digits of a radix with single underscores between them, as digits alone. -/
def groupedDigits? (radix : Nat) : Chars -> Option Chars
  | [] => none
  | [c] => if (Number.digitValue? radix c).isSome then some [c] else none
  | c :: '_' :: rest =>
      if (Number.digitValue? radix c).isSome then (groupedDigits? radix rest).map (c :: ·) else none
  | c :: rest =>
      if (Number.digitValue? radix c).isSome then (groupedDigits? radix rest).map (c :: ·) else none

def decimalDigits? (text : Chars) : Option Chars :=
  match text with
  | ['0'] => some ['0']
  | '0' :: _ => none
  | _ => groupedDigits? 10 text

def splitSign : Chars -> Bool × Chars
  | '-' :: rest => (true, rest)
  | '+' :: rest => (false, rest)
  | rest => (false, rest)

def inWord? (value : Int) : Option Int :=
  if Number.Width.holds ⟨64, true⟩ value then some value else none

def integer? (text : Chars) : Option Int :=
  let radixed := fun radix digits =>
    ((groupedDigits? radix digits).bind (Number.readDigits? radix 0)).bind fun n =>
      inWord? (Int.ofNat n)
  match text with
  | '0' :: 'x' :: digits => radixed 16 digits
  | '0' :: 'o' :: digits => radixed 8 digits
  | '0' :: 'b' :: digits => radixed 2 digits
  | _ =>
      let (negative, magnitude) := splitSign text
      ((decimalDigits? magnitude).bind (Number.readDigits? 10 0)).bind fun n =>
        inWord? (if negative then -Int.ofNat n else Int.ofNat n)

def exponent? (text : Chars) : Option Int :=
  let (negative, magnitude) := splitSign text
  ((groupedDigits? 10 magnitude).bind (Number.readDigits? 10 0)).map fun n =>
    if negative then -Int.ofNat n else Int.ofNat n

def splitBefore (p : Char -> Bool) (text : Chars) : Chars × Chars :=
  (text.takeWhile fun c => !p c, text.dropWhile fun c => !p c)

def isExponentMark (c : Char) : Bool := c == 'e' || c == 'E'

/-- The decimal number a text without sign denotes: digits followed by a fraction, an
exponent, or both. -/
def decimal? (text : Chars) : Option Number.Decimal :=
  let (whole, rest) := splitBefore (fun c => c == '.' || isExponentMark c) text
  (decimalDigits? whole).bind fun whole =>
    match rest with
    | '.' :: more =>
        let (fraction, rest) := splitBefore isExponentMark more
        (groupedDigits? 10 fraction).bind fun fraction =>
          match rest with
          | [] => Number.Decimal.ofDigits? whole fraction 0
          | _ :: exponent => (exponent? exponent).bind (Number.Decimal.ofDigits? whole fraction)
    | _ :: exponent => (exponent? exponent).bind (Number.Decimal.ofDigits? whole [])
    | [] => none

/-- Whether a text denotes a float. Digits may not denote a number too large to be
finite; there is no such bound below zero. -/
def isFloat (text : Chars) : Bool :=
  let (negative, unsigned) := splitSign text
  if unsigned == "inf".toList || unsigned == "nan".toList then true
  else
    match decimal? unsigned with
    | some number => negative || !number.overflows
    | none => false

/-!
## Dates and times
-/

def twoDigits? (a b : Char) : Option Nat :=
  if isDigit a && isDigit b then Number.readDigits? 10 0 [a, b] else none

def inRange? (least most : Nat) (value : Option Nat) : Bool :=
  match value with
  | some n => Nat.ble least n && Nat.ble n most
  | none => false

def daysIn (year month : Nat) : Nat :=
  if month == 2 then
    if year % 4 == 0 && (year % 100 != 0 || year % 400 == 0) then 29 else 28
  else if [4, 6, 9, 11].contains month then 30
  else 31

def skipDate? : Chars -> Option Chars
  | a :: b :: c :: d :: '-' :: e :: f :: '-' :: g :: h :: rest =>
      match twoDigits? a b, twoDigits? c d, twoDigits? e f with
      | some century, some year, some month =>
          if inRange? 1 12 (some month) &&
              inRange? 1 (daysIn (century * 100 + year) month) (twoDigits? g h) then
            some rest
          else none
      | _, _, _ => none
  | _ => none

def skipTime? : Chars -> Option Chars
  | a :: b :: ':' :: c :: d :: ':' :: e :: f :: rest =>
      if inRange? 0 23 (twoDigits? a b) && inRange? 0 59 (twoDigits? c d) &&
          inRange? 0 60 (twoDigits? e f) then
        match rest with
        | '.' :: fraction =>
            if (fraction.head?.map isDigit).getD false then some (fraction.dropWhile isDigit)
            else none
        | _ => some rest
      else none
  | _ => none

def skipOffset? : Chars -> Option Chars
  | 'Z' :: rest => some rest
  | 'z' :: rest => some rest
  | sign :: a :: b :: ':' :: c :: d :: rest =>
      if sign == '+' || sign == '-' then
        if inRange? 0 23 (twoDigits? a b) && inRange? 0 59 (twoDigits? c d) then some rest else none
      else some (sign :: a :: b :: ':' :: c :: d :: rest)
  | rest => some rest

def skipDateTime? (text : Chars) : Option Chars :=
  match skipDate? text with
  | none => skipTime? text
  | some rest =>
      match rest with
      | mark :: tail =>
          if mark == 'T' || mark == 't' || mark == ' ' then
            match skipTime? tail with
            | some timed => skipOffset? timed
            | none => some rest
          else some rest
      | [] => some rest

/-!
## Scalars
-/

def isNumberPart (c : Char) : Bool := isBare c || c == '+' || c == '.'

def readNumber (text : Chars) : Reading Value :=
  match skipDateTime? text with
  | some rest => some (.dateTime, rest)
  | none =>
      let number := text.takeWhile isNumberPart
      let rest := text.dropWhile isNumberPart
      if isFloat number then some (.other, rest)
      else (integer? number).map fun value => (.integer value, rest)

def dropFirstBreak : Chars -> Chars
  | '\n' :: rest => rest
  | '\r' :: '\n' :: rest => rest
  | rest => rest

def readScalar : Chars -> Reading Value
  | '"' :: '"' :: '"' :: rest =>
      (skipBasicLines .within (dropFirstBreak rest)).map fun rest => (.other, rest)
  | '"' :: rest => (readBasic rest).map fun item => (.other, item.2)
  | '\'' :: '\'' :: '\'' :: rest =>
      (skipLiteralLines (dropFirstBreak rest)).map fun rest => (.other, rest)
  | '\'' :: rest => (readLiteralText rest).map fun item => (.other, item.2)
  | 't' :: 'r' :: 'u' :: 'e' :: rest => some (.other, rest)
  | 'f' :: 'a' :: 'l' :: 's' :: 'e' :: rest => some (.other, rest)
  | 'i' :: 'n' :: 'f' :: rest => some (.other, rest)
  | 'n' :: 'a' :: 'n' :: rest => some (.other, rest)
  | c :: rest =>
      if isDigit c || c == '+' || c == '-' then readNumber (c :: rest) else none
  | [] => none

end Toml
end TypeChecker
