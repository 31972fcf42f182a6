/-!
# Bounded runs

Following boxed types and bounds need not come to an end: a type may unbox to
ever new types. Every rule that does so takes a depth and answers only if that
depth suffices. A definite answer does not depend on the depth that gave it.
-/

namespace TypeChecker

/-- The answer of a run of bounded depth, or nothing if the depth did not suffice. -/
abbrev Bounded (α : Type) := Option α

def exhausted {α : Type} : Bounded α := none

/-- A bounded run that either accepts with a result or rejects with a reason. -/
abbrev Judge (ε : Type) : Type -> Type := ExceptT ε Option

namespace Judge

variable {ε α : Type}

def exhausted : Judge ε α := ExceptT.mk none

def ofExcept (result : Except ε α) : Judge ε α := ExceptT.mk (some result)

def outcome (run : Judge ε α) : Bounded (Except ε α) := run.run

def attempt {δ : Type} (run : Judge ε α) : Judge δ (Except ε α) :=
  ExceptT.mk (run.run.map Except.ok)

def mapError {δ : Type} (f : ε -> δ) (run : Judge ε α) : Judge δ α :=
  ExceptT.mk (run.run.map (Except.mapError f))

end Judge
end TypeChecker
