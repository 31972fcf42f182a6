/-!
# Size limits

Limits that the representation of values at run time imposes on declared types.
-/

namespace TypeChecker

structure Limits where
  maxCases : Nat := 256
  maxItems : Nat := 256
  deriving DecidableEq

end TypeChecker
