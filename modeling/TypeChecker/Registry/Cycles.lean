import TypeChecker.Fault.Basic
import TypeChecker.Registry.Collect

/-!
# Circular boxed types

Opening a boxed type whose inner type is another boxed type leads on to that one.
A chain that leads back to its start could be opened forever, so its members are
taken out of the registry. Each circle is reported once, from its smallest member.
-/

namespace TypeChecker
namespace Registry

def innerName? (registry : Registry) (name : Symbol) : Option Symbol :=
  match Table.get? registry name with
  | none => none
  | some d => (d.boxed?.bind fun boxed => boxed.inner.named?).map Prod.fst

/-- Follow the chain from `current`, having come along `path` (nearest first) from
`start`, until it reaches `start` again. -/
def circleFrom (registry : Registry) (start : Symbol) :
    Nat -> List Symbol -> Symbol -> Option (List Symbol)
  | 0, _, _ => none
  | steps + 1, path, current =>
      match innerName? registry current with
      | none => none
      | some next =>
          if next = start then some (next :: path).reverse
          else if path.contains next then none
          else circleFrom registry start steps (next :: path) next

/-- The chain from a type back to itself. No chain is longer than the registry. -/
def circle? (registry : Registry) (start : Symbol) : Option (List Symbol) :=
  circleFrom registry start (registry.length + 1) [start] start

def circles (registry : Registry) : List (Symbol × List Symbol) :=
  registry.filterMap fun item => (circle? registry item.1).map fun path => (item.1, path)

def isSmallest (name : Symbol) (path : List Symbol) : Bool :=
  path.all fun other => Symbol.order other name != .lt

/-- The report of the circles of a registry. -/
def circleProblems (registry : Registry) : ModuleProblems :=
  (circles registry).filterMap fun (name, path) =>
    if isSmallest name path then
      let span := ((Table.get? registry name).map Declaration.span).getD {}
      some (name.module, .decl { value := .circular (path.map Symbol.text), span })
    else none

def withoutCircles (registry : Registry) : Registry :=
  (circles registry).foldl (fun rest item => Table.erase rest item.1) registry

end Registry
end TypeChecker
