import TypeChecker.Registry.Basic

/-!
# How a type uses parameters

The variance with which each parameter in scope occurs in a type, read off the
declared variances of the types it is an argument of.
-/

namespace TypeChecker
namespace Variance

def single (arity index : Nat) : List Variance :=
  (List.range arity).map fun i => if i = index then .covariant else .bivariant

mutual

/-- How each of `arity` parameters is used by a type. Nothing is known about the
arguments of a type that is not registered. -/
def usage (registry : Registry) (arity : Nat) : Ty -> List Variance
  | .never => List.replicate arity .bivariant
  | .any => List.replicate arity .bivariant
  | .param index _ => single arity index
  | .named name args =>
      match Table.get? registry name with
      | none => List.replicate arity .invariant
      | some d => ofComponents arity (d.params.map Param.variance) (usageList registry arity args)
  | .unit => List.replicate arity .bivariant
  | .tuple items =>
      ofComponents arity (items.map fun _ => .covariant) (usageList registry arity items)
  | .bundle fields =>
      ofComponents arity (fields.map fun _ => .covariant) (usageFields registry arity fields)
  | .func input output =>
      ofComponents arity [.contravariant, .covariant]
        [usage registry arity input, usage registry arity output]

def usageList (registry : Registry) (arity : Nat) : List Ty -> List (List Variance)
  | [] => []
  | t :: rest => usage registry arity t :: usageList registry arity rest

def usageFields (registry : Registry) (arity : Nat) :
    List (String × Field Ty) -> List (List Variance)
  | [] => []
  | (_, ⟨_, t⟩) :: rest => usage registry arity t :: usageFields registry arity rest

end

def misused (declared : List Param) (used : List Variance) : List String :=
  ((declared.zip used).filter fun item => !item.1.variance.allows item.2).map fun item =>
    item.1.name

end Variance
end TypeChecker
