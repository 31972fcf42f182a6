import TypeChecker.Span

/-!
# Written names
-/

namespace TypeChecker
namespace Source

structure Ident where
  name : String
  span : Span := {}
  deriving DecidableEq, Inhabited

structure RefName where
  module : Option String := none
  name : String
  span : Span := {}
  deriving DecidableEq, Inhabited

def RefName.text (ref : RefName) : String :=
  match ref.module with
  | some module => module ++ "::" ++ ref.name
  | none => ref.name

end Source
end TypeChecker
