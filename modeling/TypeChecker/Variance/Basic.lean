/-!
# Variance

How a parameterised type changes with one of its parameters. A declared
parameter is invariant, covariant or contravariant. Bivariance describes a
parameter that does not occur, so that nothing depends on it.
-/

namespace TypeChecker

inductive Variance where
  | invariant
  | covariant
  | contravariant
  | bivariant
  deriving DecidableEq

namespace Variance

def inverse : Variance -> Variance
  | .covariant => .contravariant
  | .contravariant => .covariant
  | v => v

/-- The variance of a parameter that occurs with variance `inner` inside a
position of variance `outer`. -/
def within (outer inner : Variance) : Variance :=
  match outer, inner with
  | _, .invariant => .invariant
  | _, .bivariant => .bivariant
  | .bivariant, v => v
  | .invariant, _ => .invariant
  | .covariant, v => v
  | .contravariant, v => v.inverse

def both : Variance -> Variance -> Variance
  | .bivariant, v => v
  | v, .bivariant => v
  | .covariant, .covariant => .covariant
  | .contravariant, .contravariant => .contravariant
  | _, _ => .invariant

/-- The variances of `arity` parameters in a composite type, from those in its
components and the variance of the position each component stands at. -/
def ofComponents (arity : Nat) (positions : List Variance) (components : List (List Variance)) :
    List Variance :=
  (List.range arity).map fun i =>
    (positions.zip components).foldl
      (fun v part => v.both (part.1.within (part.2.getD i .bivariant))) .bivariant

def allows (declared used : Variance) : Bool :=
  match declared with
  | .invariant => true
  | .covariant => used == .covariant || used == .bivariant
  | .contravariant => used == .contravariant || used == .bivariant
  | .bivariant => used == .bivariant

end Variance
end TypeChecker
