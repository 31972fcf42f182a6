/-!
# Source positions

Every construct the checker reads or reports carries the stretch of source text
it was written at.
-/

namespace TypeChecker

/-- A stretch of source text, given by byte offsets. -/
structure Span where
  start : Nat := 0
  stop : Nat := 0
  deriving DecidableEq, Inhabited

structure Located (α : Type) where
  value : α
  span : Span := {}
  deriving DecidableEq, Inhabited

end TypeChecker
