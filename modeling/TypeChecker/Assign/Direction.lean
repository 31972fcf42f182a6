import TypeChecker.Inference.Basic

/-!
# Directions of assignment
-/

namespace TypeChecker

/-- Which of the two sides of an assignment may be the bigger one. -/
inductive Direction where
  | toTarget
  | fromTarget
  | exact
  deriving DecidableEq

namespace Direction

def inverse : Direction -> Direction
  | .toTarget => .fromTarget
  | .fromTarget => .toTarget
  | .exact => .exact

/-- The direction between the arguments for a parameter of the given variance. -/
def ofVariance : Variance -> Direction
  | .covariant => .toTarget
  | .contravariant => .fromTarget
  | .invariant => .exact
  | .bivariant => .exact

def within (d : Direction) (v : Variance) : Direction :=
  match d with
  | .toTarget => ofVariance v
  | .fromTarget => (ofVariance v).inverse
  | .exact => .exact

def leeway : Direction -> Leeway
  | .toTarget => .mayGrow
  | .fromTarget => .mayShrink
  | .exact => .fixed

def adjusts (d : Direction) : Leeway -> Bool
  | .mayGrow => d == .toTarget
  | .mayShrink => d == .fromTarget
  | .fixed => false

end Direction
end TypeChecker
