import TypeChecker.Fault.Basic

/-!
# Coverage of cases

Every case of the union a switch is over must be covered exactly once, by a branch
of its own or by the default branch; a default branch that covers nothing is
refused. A switch over several unions does the same for the combinations of their
cases.
-/

namespace TypeChecker
namespace Coverage

def missing (count : Nat) (taken : List Nat) : List Nat :=
  (List.range count).filter fun index => !taken.contains index

def requireCases (names : List String) (taken : List Nat) (default : Option Span) (span : Span) :
    Except ExprError Unit :=
  let complete := taken.length == names.length
  match default with
  | none =>
      if complete then return ()
      else
        let uncovered := (missing names.length taken).filterMap fun index => names[index]?
        throw { value := .incomplete uncovered, span }
  | some place =>
      if complete then throw { value := .superfluousDefault, span := place } else return ()

/-!
## Combinations

A row has one entry for each union: a case, or none for all cases. It stands for
combinations of case indices, one of each union.
-/

abbrev Row := List (Option Nat)

abbrev Combination := List Nat

/-- The indices that an entry stands for, where there are `count` cases. -/
def choices (count : Nat) : Option Nat -> List Nat
  | some index => [index]
  | none => List.range count

/-- The combinations that a row stands for, built up one union after the other. -/
def expand (counts : List Nat) (row : Row) : List Combination :=
  (row.zip counts).foldl
    (fun keys entry => keys.flatMap fun key =>
      (choices entry.2 entry.1).map fun index => key ++ [index])
    [[]]

/-- Add combinations to those already covered. None may be covered twice. -/
def cover (span : Span) : List Combination -> List Combination ->
    Except ExprError (List Combination)
  | covered, [] => return covered
  | covered, key :: keys =>
      if covered.contains key then throw { value := .caseTakenTwice, span }
      else cover span (key :: covered) keys

/-- The number of all combinations, counted in a machine word. -/
def combinations (counts : List Nat) : UInt64 :=
  counts.foldl (fun total count => total * UInt64.ofNat count) 1

def requireCombinations (counts : List Nat) (covered : List Combination) (default : Option Span)
    (span : Span) : Except ExprError Unit :=
  let total := combinations counts
  let reached := UInt64.ofNat covered.length
  match default with
  | none =>
      if reached == total then return ()
      else throw { value := .incompleteCombinations (total - reached).toNat, span }
  | some place =>
      if reached == total then throw { value := .superfluousDefault, span := place }
      else return ()

end Coverage
end TypeChecker
