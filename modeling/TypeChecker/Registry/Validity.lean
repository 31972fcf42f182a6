import TypeChecker.Bounds
import TypeChecker.Resolve.Convert
import TypeChecker.Variance.Usage

/-!
# Valid declarations

A declaration is valid if its types exist at the right arity and within the size
limits, if it uses its parameters as their variance allows, if the cases of a
union agree with it in variance and bounds, and if every bound is respected.
-/

namespace TypeChecker

mutual

/-- Require every name in a type to exist with a fitting number of arguments, and
every product to be within the limits. -/
def Ty.validate (arities : Arities) (limits : Limits) (span : Span) : Ty -> Except TypeError Unit
  | .never => return ()
  | .any => return ()
  | .param _ _ => return ()
  | .named name args => do
      requireArity arities span name args.length
      Ty.validateList arities limits span args
  | .unit => return ()
  | .tuple items => do
      limits.requireItems span items.length
      Ty.validateList arities limits span items
  | .bundle fields => do
      limits.requireItems span fields.length
      Ty.validateFields arities limits span fields
  | .func input output => do
      Ty.validate arities limits span input
      Ty.validate arities limits span output

def Ty.validateList (arities : Arities) (limits : Limits) (span : Span) :
    List Ty -> Except TypeError Unit
  | [] => return ()
  | t :: rest => do
      Ty.validate arities limits span t
      Ty.validateList arities limits span rest

def Ty.validateFields (arities : Arities) (limits : Limits) (span : Span) :
    List (String × Field Ty) -> Except TypeError Unit
  | [] => return ()
  | (_, ⟨_, t⟩) :: rest => do
      Ty.validate arities limits span t
      Ty.validateFields arities limits span rest

end

namespace Declaration

def unionText (d : Declaration) : String :=
  (d.memberOf.map fun membership => membership.union.text).getD ""

def caseVarianceAgrees (union case : Declaration) (params : List Nat) : Bool :=
  params.zipIdx.all fun (target, index) =>
    case.params[index]?.map Param.variance == union.params[target]?.map Param.variance

def sameBound : Option Ty -> Option Ty -> Bool
  | none, none => true
  | some a, some b => a.alike b
  | _, _ => false

def caseBoundsAgree (union case : Declaration) (params : List Nat) : Bool :=
  params.zipIdx.all fun (target, index) =>
    sameBound (Table.get? case.bounds.lower index) (Table.get? union.bounds.lower target) &&
      sameBound (Table.get? case.bounds.upper index) (Table.get? union.bounds.upper target)

/-- Require the registered cases of a union to agree with it in some respect. -/
def requireCases (registry : Registry) (agrees : Declaration -> List Nat -> Bool)
    (fault : String -> String -> TypeFault) : List Case -> Except TypeError Unit
  | [] => return ()
  | case :: rest => do
      if let some d := Table.get? registry case.name then
        if !agrees d case.params then
          throw { value := fault case.name.text d.unionText, span := d.span }
      requireCases registry agrees fault rest

def validateDefinition (registry : Registry) (limits : Limits) (d : Declaration) :
    Except TypeError Unit :=
  match d.definition with
  | .union cases => do
      if Nat.blt limits.maxCases cases.length then
        throw { value := .tooManyCases cases.length limits.maxCases, span := d.span }
      requireCases registry d.caseVarianceAgrees .caseVariance cases
  | .boxed boxed => do
      boxed.inner.validate (Registry.arities registry) limits d.span
      match Variance.misused d.params (Variance.usage registry d.arity boxed.inner) with
      | [] => return ()
      | params => throw { value := .innerVariance params, span := d.span }
  | .native => return ()

def validateBounds (ctx : TypeContext) (limits : Limits) (depth : Nat) (span : Span) :
    TypeMap -> Judge TypeError Unit
  | [] => return ()
  | (_, bound) :: rest => do
      Judge.ofExcept (bound.validate (Registry.arities ctx.registry) limits span)
      ctx.checkBounds depth span bound
      validateBounds ctx limits depth span rest

def checkDefinitionBounds (ctx : TypeContext) (depth : Nat) (d : Declaration) :
    Judge TypeError Unit :=
  match d.definition with
  | .union cases =>
      Judge.ofExcept (requireCases ctx.registry d.caseBoundsAgree .caseBounds cases)
  | .boxed boxed => ctx.checkBounds depth d.span boxed.inner
  | .native => return ()

def validate (registry : Registry) (limits : Limits) (depth : Nat) (module : String)
    (d : Declaration) : Judge TypeError Unit := do
  let ctx : TypeContext := { module, registry, params := d.params, bounds := d.bounds }
  Judge.ofExcept (d.validateDefinition registry limits)
  validateBounds ctx limits depth d.span d.bounds.lower
  validateBounds ctx limits depth d.span d.bounds.upper
  d.checkDefinitionBounds ctx depth

end Declaration
end TypeChecker
