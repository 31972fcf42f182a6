import TypeChecker.Fault.Code
import TypeChecker.Fault.Message
import TypeChecker.Text.Position

/-!
# Reports

A report shows a problem to the author of a module: its code and message, a hint
where an obvious remedy exists, and the position in the source if there is one.
-/

namespace TypeChecker

def ExprFault.help? : ExprFault -> Option String
  | .typeRequired => some "add a type annotation, or cast with `as`"
  | .typeArgsRequired => some "pass the type arguments explicitly"
  | .incomplete _ => some "add the missing branches, or a default branch"
  | .incompleteCombinations _ => some "add the missing branches, or a default branch"
  | .superfluousDefault => some "remove the default branch"
  | .ambiguousCall _ => some "cast the result with `as` to pick one"
  | .ambiguousReference _ => some "cast the result with `as` to pick one"
  | .inconsistent _ => some "this is a bug in the checker"
  | _ => none

namespace Problem

def help? : Problem -> Option String
  | .expr error => error.value.help?
  | .program (.importCycle _) => some "move the shared declarations into a module of their own"
  | _ => none

def plain (problem : Problem) : String :=
  let line := "error[" ++ problem.code ++ "]: " ++ problem.message
  match problem.help? with
  | some help => line ++ "\nhelp: " ++ help
  | none => line

end Problem

inductive Report where
  | plain (text : String)
  | placed (heading : String) (position : Text.Position) (notes : List String)

def Problem.report (problem : Problem) (source module : String) : Report :=
  if source.isEmpty then .plain problem.plain
  else
    let start := (problem.span?.map Span.start).getD 0
    let help := (problem.help?.map fun help => "Help: " ++ help).toList
    let note := if module.isEmpty then [] else ["Note: in " ++ module]
    .placed ("[" ++ problem.code ++ "] Error: " ++ problem.message)
      (Text.positionAt source (Nat.min start source.utf8ByteSize)) (help ++ note)

end TypeChecker
