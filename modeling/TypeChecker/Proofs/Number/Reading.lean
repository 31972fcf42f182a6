import Mathlib.Data.Nat.Digits.Defs
import TypeChecker.Number.Literal

/-!
# What integer literals denote

A literal is an optional minus sign, a radix mark or none, and at least one digit of the
radix. It denotes the number with these digits, if that is not beyond the largest
magnitude. Reading a literal gives what it denotes, and nothing if it denotes nothing.
-/

namespace TypeChecker
namespace Number

variable {radix digit n : Nat} {c : Char} {text mark chars : List Char}

/-!
## Digits
-/

def Shows (digit : Nat) (c : Char) : Prop :=
  digit < 16 ∧ (c = digit.digitChar ∨ c = digit.digitChar.toUpper)

instance : Decidable (Shows digit c) :=
  inferInstanceAs (Decidable (_ ∧ _))

theorem eq_iff_toNat {a b : Char} : a = b ↔ a.toNat = b.toNat :=
  ⟨congrArg Char.toNat, fun h => Char.ext (UInt32.toNat.inj h)⟩

theorem toNat_digitChar : forall digit, digit < 16 ->
    digit.digitChar.toNat = (if digit < 10 then 48 + digit else 87 + digit) ∧
      digit.digitChar.toUpper.toNat = if digit < 10 then 48 + digit else 55 + digit := by
  decide

theorem shows_iff : Shows digit c ↔
    digit < 10 ∧ c.toNat = 48 + digit ∨
      10 ≤ digit ∧ digit < 16 ∧ (c.toNat = 87 + digit ∨ c.toNat = 55 + digit) := by
  unfold Shows
  rw [eq_iff_toNat, eq_iff_toNat]
  constructor
  · intro h
    rcases toNat_digitChar digit h.left with ⟨hlower, hupper⟩
    rw [hlower, hupper] at h
    split at h <;> omega
  · intro h
    have hdigit : digit < 16 := by omega
    rcases toNat_digitChar digit hdigit with ⟨hlower, hupper⟩
    refine ⟨hdigit, ?_⟩
    rw [hlower, hupper]
    split <;> omega

theorem digitValue?_eq_some :
    digitValue? radix c = some digit ↔ digit < radix ∧ Shows digit c := by
  rw [shows_iff]
  simp only [digitValue?, Option.filter_eq_some_iff, Bool.and_eq_true, Nat.ble_eq, Nat.blt_eq]
  split
  · simp only [Option.some.injEq]
    omega
  · split
    · simp only [Option.some.injEq]
      omega
    · split
      · simp only [Option.some.injEq]
        omega
      · simp only [reduceCtorEq, false_and, false_iff]
        omega

def ShowDigits (radix : Nat) (digits : List Nat) (chars : List Char) : Prop :=
  List.Forall₂ (fun digit c => digit < radix ∧ Shows digit c) digits chars

theorem readDigits?_eq_some {value : Nat} :
    readDigits? radix value chars = some n ↔ exists digits, ShowDigits radix digits chars ∧
      digits.foldl (fun value digit => value * radix + digit) value = n := by
  induction chars generalizing value with
  | nil =>
      constructor
      · intro h
        exact ⟨[], .nil, Option.some.inj h⟩
      · intro h
        rcases h with ⟨digits, hdigits, hvalue⟩
        cases hdigits
        exact congrArg some hvalue
  | cons c chars ih =>
      rw [readDigits?]
      constructor
      · intro h
        split at h
        · cases h
        · rename_i digit hdigit
          rcases ih.mp h with ⟨digits, hdigits, hvalue⟩
          exact ⟨digit :: digits, .cons (digitValue?_eq_some.mp hdigit) hdigits, hvalue⟩
      · intro h
        rcases h with ⟨digits, hdigits, hvalue⟩
        cases hdigits with
        | cons hdigit hdigits =>
            rw [digitValue?_eq_some.mpr hdigit]
            exact ih.mpr ⟨_, hdigits, hvalue⟩

theorem foldl_eq_ofDigits (radix : Nat) (digits : List Nat) :
    digits.foldl (fun value digit => value * radix + digit) 0 =
      Nat.ofDigits radix digits.reverse := by
  rw [Nat.ofDigits_eq_foldr, List.foldr_reverse]
  congr 1
  funext value digit
  rw [Nat.add_comm, Nat.mul_comm]
  rfl

/-!
## Radix marks
-/

/-- How the radix of a magnitude is marked. -/
inductive Marks : Nat -> List Char -> Prop where
  | decimal : Marks 10 []
  | hexadecimal : Marks 16 ['0', 'x']
  | upperHexadecimal : Marks 16 ['0', 'X']
  | octal : Marks 8 ['0', 'o']
  | upperOctal : Marks 8 ['0', 'O']
  | binary : Marks 2 ['0', 'b']
  | upperBinary : Marks 2 ['0', 'B']

theorem marks_splitRadix (text : List Char) :
    exists mark, Marks (splitRadix text).1 mark ∧ text = mark ++ (splitRadix text).2 := by
  fun_cases splitRadix text
  · exact ⟨_, .hexadecimal, rfl⟩
  · exact ⟨_, .upperHexadecimal, rfl⟩
  · exact ⟨_, .octal, rfl⟩
  · exact ⟨_, .upperOctal, rfl⟩
  · exact ⟨_, .binary, rfl⟩
  · exact ⟨_, .upperBinary, rfl⟩
  · exact ⟨_, .decimal, rfl⟩

theorem splitRadix_decimal {digits : List Nat} (h : ShowDigits 10 digits chars) :
    splitRadix chars = (10, chars) := by
  have hsecond : forall first second rest, chars = first :: second :: rest ->
      second.toNat < 58 := by
    rintro first second rest rfl
    cases h with
    | cons _ h =>
        cases h with
        | cons hdigit _ =>
            rw [shows_iff] at hdigit
            omega
  fun_cases splitRadix chars
  case case7 => rfl
  all_goals exact absurd (hsecond _ _ _ rfl) (by decide)

theorem splitRadix_append {digits : List Nat} (hmark : Marks radix mark)
    (hdigits : ShowDigits radix digits chars) : splitRadix (mark ++ chars) = (radix, chars) := by
  cases hmark with
  | decimal => exact splitRadix_decimal hdigits
  | hexadecimal => rfl
  | upperHexadecimal => rfl
  | octal => rfl
  | upperOctal => rfl
  | binary => rfl
  | upperBinary => rfl

/-!
## Literals
-/

def Writes (text : List Char) (n : Nat) : Prop :=
  exists radix mark digits chars, Marks radix mark ∧ ShowDigits radix digits chars ∧
    digits ≠ [] ∧ text = mark ++ chars ∧ n = Nat.ofDigits radix digits.reverse

theorem readMagnitude?_eq_some :
    readMagnitude? text = some n ↔ Writes text n ∧ n ≤ maxMagnitude := by
  unfold readMagnitude? Writes
  constructor
  · intro h
    rcases marks_splitRadix text with ⟨mark, hmark, htext⟩
    generalize splitRadix text = split at h hmark htext
    rcases split with ⟨radix, chars⟩
    dsimp only at h hmark htext
    split at h
    · cases h
    · rename_i hsome
      rcases Option.filter_eq_some_iff.mp h with ⟨hread, hle⟩
      rcases readDigits?_eq_some.mp hread with ⟨digits, hdigits, hvalue⟩
      refine ⟨⟨radix, mark, digits, chars, hmark, hdigits, ?_, htext, ?_⟩, ?_⟩
      · rintro rfl
        cases hdigits
        exact hsome rfl
      · rw [<- hvalue, foldl_eq_ofDigits]
      · exact Nat.le_of_ble_eq_true hle
  · intro h
    rcases h with ⟨⟨radix, mark, digits, chars, hmark, hdigits, hsome, rfl, rfl⟩, hle⟩
    rw [splitRadix_append hmark hdigits]
    have hchars : chars.isEmpty = false := by
      cases hdigits with
      | nil => exact absurd rfl hsome
      | cons _ _ => rfl
    have hread : readDigits? radix 0 chars = some (Nat.ofDigits radix digits.reverse) :=
      readDigits?_eq_some.mpr ⟨digits, hdigits, foldl_eq_ofDigits radix digits⟩
    dsimp only
    rw [hchars, hread, if_neg Bool.false_ne_true]
    exact Option.filter_eq_some_iff.mpr ⟨rfl, Nat.ble_eq_true_of_le hle⟩

theorem not_writes_minus : ¬ Writes ('-' :: text) n := by
  intro h
  rcases h with ⟨radix, mark, digits, chars, hmark, hdigits, hsome, htext, _⟩
  cases hmark with
  | decimal =>
      cases hdigits with
      | nil => exact hsome rfl
      | @cons digit _ _ _ hdigit _ =>
          cases htext
          have hminus : forall digit, digit < 10 -> ¬ Shows digit '-' := by decide
          exact hminus digit hdigit.left hdigit.right
  | hexadecimal => cases htext
  | upperHexadecimal => cases htext
  | octal => cases htext
  | upperOctal => cases htext
  | binary => cases htext
  | upperBinary => cases htext

/-- The integer that a literal denotes: the magnitude it writes, negative after a minus
sign. -/
inductive Denotes (literal : String) : Int -> Prop where
  | plain {n : Nat} : Writes literal.toList n -> n ≤ Nat.pow 2 127 - 1 -> Denotes literal n
  | negative {n : Nat} {text : List Char} : literal.toList = '-' :: text -> Writes text n ->
      n ≤ Nat.pow 2 127 - 1 -> Denotes literal (-n)

/-- What a literal denotes is what it reads as. -/
theorem readLiteral?_eq_some {literal : String} {v : Int} :
    readLiteral? literal = some v ↔ Denotes literal v := by
  unfold readLiteral?
  constructor
  · intro h
    split at h
    · rename_i text hminus
      rcases Option.map_eq_some_iff.mp h with ⟨n, hn, rfl⟩
      rcases readMagnitude?_eq_some.mp hn with ⟨hwrites, hle⟩
      exact .negative hminus hwrites hle
    · rcases Option.map_eq_some_iff.mp h with ⟨n, hn, rfl⟩
      rcases readMagnitude?_eq_some.mp hn with ⟨hwrites, hle⟩
      exact .plain hwrites hle
  · intro h
    cases h with
    | @plain n hwrites hle =>
        split
        · rename_i text hminus
          rw [hminus] at hwrites
          exact absurd hwrites not_writes_minus
        · rw [readMagnitude?_eq_some.mpr ⟨hwrites, hle⟩]
          rfl
    | @negative n text hminus hwrites hle =>
        rw [hminus]
        show (readMagnitude? text).map _ = _
        rw [readMagnitude?_eq_some.mpr ⟨hwrites, hle⟩]
        rfl

theorem Denotes.natAbs_lt {literal : String} {v : Int} (h : Denotes literal v) :
    v.natAbs < Nat.pow 2 127 := by
  have hpos : 0 < Nat.pow 2 127 := Nat.pow_pos Nat.two_pos
  cases h with
  | plain _ hle => omega
  | negative _ _ hle => omega

end Number
end TypeChecker
