import TypeChecker.Config.Limits
import TypeChecker.Fault.Basic
import TypeChecker.Registry.Basic
import TypeChecker.Source.TypeExpr

/-!
# Reading written types

A written type is read in a scope that knows the parameters in scope and how many
arguments each type takes. References may leave out defaulted trailing arguments;
completing a type fills them in.
-/

namespace TypeChecker

abbrev Arities := Symbol -> Option (Nat × Nat)

def Registry.arities (registry : Registry) : Arities := fun name =>
  (Table.get? registry name).map fun d => (d.minArity, d.arity)

structure TypeScope where
  module : String
  params : List String
  arities : Arities
  limits : Limits

namespace TypeScope

/-- What a written name refers to: a type of the current module, else of the core module. -/
def symbolOf (scope : TypeScope) (ref : Source.RefName) : Symbol :=
  match ref.module with
  | some module => ⟨module, ref.name⟩
  | none =>
      let own : Symbol := ⟨scope.module, ref.name⟩
      let core := Symbol.core ref.name
      if (scope.arities own).isSome then own
      else if (scope.arities core).isSome then core
      else own

end TypeScope

def requireArity (arities : Arities) (span : Span) (name : Symbol) (given : Nat) :
    Except TypeError Unit :=
  match arities name with
  | none => throw { value := .notFound name.text, span }
  | some (fewest, most) =>
      if Nat.blt given fewest || Nat.blt most given then
        throw { value := .wrongArity name.text most given, span }
      else return ()

def Limits.requireItems (limits : Limits) (span : Span) (count : Nat) : Except TypeError Unit :=
  if Nat.blt limits.maxItems count then
    throw { value := .tooManyItems count limits.maxItems, span }
  else return ()

namespace TypeScope

/-- The types that are written as a bare name without being declared. -/
def bareType? (scope : TypeScope) (ref : Source.RefName) : Option Ty :=
  match ref.module, ref.name with
  | some _, _ => none
  | none, "-" => some .unit
  | none, "never" => some .never
  | none, "any" => some .any
  | none, name => (scope.params.findIdx? (· == name)).map fun index => .param index false

mutual

def convert (scope : TypeScope) (span : Span) : Source.TypeNode -> Except TypeError Ty
  | .ref name args =>
      match (if args.isEmpty then scope.bareType? name else none) with
      | some t => return t
      | none => do
          let symbol := scope.symbolOf name
          requireArity scope.arities span symbol args.length
          return .named symbol (← convertList scope args)
  | .tuple [] => return .unit
  | .tuple [⟨item, itemSpan⟩] => convert scope itemSpan item
  | .tuple items => do
      scope.limits.requireItems span items.length
      return .tuple (← convertList scope items)
  | .bundle [] => return .unit
  | .bundle fields => do
      scope.limits.requireItems span fields.length
      return Ty.bundleOf (← convertFields scope [] fields)
  | .func ⟨input, inputSpan⟩ ⟨output, outputSpan⟩ => do
      return .func (← convert scope inputSpan input) (← convert scope outputSpan output)

def convertList (scope : TypeScope) : List (Located Source.TypeNode) -> Except TypeError (List Ty)
  | [] => return []
  | ⟨node, span⟩ :: rest => do
      let t <- convert scope span node
      return t :: (← convertList scope rest)

def convertFields (scope : TypeScope) (seen : List String) :
    List (Source.Ident × Located Source.TypeNode) -> Except TypeError (List (String × Ty))
  | [] => return []
  | (field, ⟨node, span⟩) :: rest => do
      if field.name == "_" then
        throw { value := .badFieldName field.name, span := field.span }
      if seen.contains field.name then
        throw { value := .repeatedField field.name, span := field.span }
      let t <- convert scope span node
      return (field.name, t) :: (← convertFields scope (field.name :: seen) rest)

end

def read (scope : TypeScope) (expr : Source.TypeExpr) : Except TypeError Ty :=
  scope.convert expr.span expr.value

end TypeScope

namespace Ty

mutual

/-- Fill in the arguments that references in a type leave to defaults. -/
def complete (registry : Registry) : Ty -> Ty
  | .never => .never
  | .any => .any
  | .param index inferring => .param index inferring
  | .named name args =>
      let args := completeList registry args
      match Table.get? registry name with
      | some d =>
          if Nat.blt args.length d.arity then .named name (completeArgs d.defaults d.arity args)
          else .named name args
      | none => .named name args
  | .unit => .unit
  | .tuple items => .tuple (completeList registry items)
  | .bundle fields => .bundle (completeFields registry fields)
  | .func input output => .func (complete registry input) (complete registry output)

def completeList (registry : Registry) : List Ty -> List Ty
  | [] => []
  | t :: rest => complete registry t :: completeList registry rest

def completeFields (registry : Registry) : List (String × Field Ty) -> List (String × Field Ty)
  | [] => []
  | (name, ⟨slot, t⟩) :: rest =>
      (name, ⟨slot, complete registry t⟩) :: completeFields registry rest

end

end Ty
end TypeChecker
