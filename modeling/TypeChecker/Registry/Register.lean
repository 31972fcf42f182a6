import TypeChecker.Registry.Build
import TypeChecker.Registry.Cycles
import TypeChecker.Registry.Validity

/-!
# Registering the types of a program

The declarations of all modules are registered together, so that modules may use
each other's types. They are collected, built, completed, freed of circles, and
validated. Problems never stop the registration.
-/

namespace TypeChecker

/-- A registry and what was wrong with the declarations behind it. -/
structure Registration where
  registry : Registry := []
  problems : ModuleProblems := []

namespace Registration

def problemsOf (r : Registration) (module : String) : List Problem :=
  (r.problems.filter fun item => item.1 == module).map Prod.snd

def validationProblems (registry : Registry) (limits : Limits) (depth : Nat) :
    List (Symbol × Declaration) -> Bounded ModuleProblems
  | [] => some []
  | (name, d) :: rest => do
      let outcome <- (d.validate registry limits depth name.module).outcome
      let others <- validationProblems registry limits depth rest
      match outcome with
      | .ok _ => return others
      | .error detail =>
          let problem := Problem.decl { value := .invalid name.text detail, span := d.span }
          return (name.module, problem) :: others

/-- The declarations of `modules`, built, completed and freed of circles. -/
def unvalidated (limits : Limits) (modules : List Source.Module) : Registration :=
  let collection := Collection.ofModules modules
  let (built, buildProblems) := Entry.buildFrom collection.entries limits 0 collection.entries
  let completed := Registry.complete built
  { registry := Registry.withoutCircles completed
    problems := collection.problems ++ buildProblems ++ Registry.circleProblems completed }

/-- Register the type declarations of `modules`. -/
def ofModules (limits : Limits) (depth : Nat) (modules : List Source.Module) :
    Bounded Registration := do
  let r := unvalidated limits modules
  let invalid <- validationProblems r.registry limits depth r.registry
  return { r with problems := r.problems ++ invalid }

end Registration
end TypeChecker
