import TypeChecker.Fault.Basic
import TypeChecker.Unboxing

/-!
# Bounds of type parameters

An argument satisfies an upper bound if it lies within it: if the two are alike,
if the bounds of a parameter in scope lead there, or if unboxing the smaller side
does.
-/

namespace TypeChecker

def Bounds.follow (bounds : TypeMap) (met : List (Nat × Bool)) : Ty -> Option Ty × List (Nat × Bool)
  | .param index inferring =>
      if met.contains (index, inferring) then (none, met)
      else (Table.get? bounds index, (index, inferring) :: met)
  | _ => (none, met)

namespace TypeContext

/-- Whether `sub` lies within `sup`, where the parameters in `met` are not followed again. -/
def liesWithin (ctx : TypeContext) : Nat -> List (Nat × Bool) -> Ty -> Ty -> Bounded Bool
  | 0, _, _, _ => exhausted
  | depth + 1, met, sub, sup =>
      match Bounds.follow ctx.bounds.upper met sub with
      | (some upper, met) => liesWithin ctx depth met upper sup
      | (none, met) =>
          match Bounds.follow ctx.bounds.lower met sup with
          | (some lower, met) => liesWithin ctx depth met sub lower
          | (none, met) =>
              if sub.alike sup then some true
              else
                match sub.unbox ctx.module ctx.registry with
                | .inner inner => liesWithin ctx depth met inner sup
                | _ => some false

def isWithin (ctx : TypeContext) (depth : Nat) (sub sup : Ty) : Bounded Bool :=
  ctx.liesWithin depth [] sub sup

def satisfies (ctx : TypeContext) (depth : Nat) (kind : BoundKind) (arg bound : Ty) :
    Bounded Bool :=
  match kind with
  | .upper => ctx.isWithin depth arg bound
  | .lower => ctx.isWithin depth bound arg

def requireBound (ctx : TypeContext) (depth : Nat) (span : Span) (kind : BoundKind)
    (arg bound : Ty) : Judge TypeError Unit := do
  if ← ctx.satisfies depth kind arg bound then
    return ()
  else
    throw { value := .unsatisfiedBound kind (ctx.describe bound), span }

def requireBounds (ctx : TypeContext) (depth : Nat) (span : Span) (kind : BoundKind)
    (args : List Ty) (fill : Ty -> Ty) (onError : Nat -> TypeError -> TypeError) :
    TypeMap -> Judge TypeError Unit
  | [] => return ()
  | (index, bound) :: rest => do
      match args[index]? with
      | some arg =>
          Judge.mapError (onError index) (ctx.requireBound depth span kind arg (fill bound))
      | none => pure ()
      requireBounds ctx depth span kind args fill onError rest

mutual

/-- Check every instantiation inside a type against the bounds of what it
instantiates. Names that are not registered have no bounds. -/
def checkBounds (ctx : TypeContext) (depth : Nat) (span : Span) : Ty -> Judge TypeError Unit
  | .never => return ()
  | .any => return ()
  | .param _ _ => return ()
  | .named name args => do
      checkBoundsList ctx depth span args
      match Table.get? ctx.registry name with
      | none => return ()
      | some d =>
          let fill := fun bound : Ty => bound.instantiate args
          ctx.requireBounds depth span .upper args fill (fun _ e => e) d.bounds.upper
          ctx.requireBounds depth span .lower args fill (fun _ e => e) d.bounds.lower
  | .unit => return ()
  | .tuple items => checkBoundsList ctx depth span items
  | .bundle fields => checkBoundsFields ctx depth span fields
  | .func input output => do
      checkBounds ctx depth span input
      checkBounds ctx depth span output

def checkBoundsList (ctx : TypeContext) (depth : Nat) (span : Span) :
    List Ty -> Judge TypeError Unit
  | [] => return ()
  | t :: rest => do
      checkBounds ctx depth span t
      checkBoundsList ctx depth span rest

def checkBoundsFields (ctx : TypeContext) (depth : Nat) (span : Span) :
    List (String × Field Ty) -> Judge TypeError Unit
  | [] => return ()
  | (_, ⟨_, t⟩) :: rest => do
      checkBounds ctx depth span t
      checkBoundsFields ctx depth span rest

end

def checkArgs (ctx : TypeContext) (depth : Nat) (span : Span) (params : List Param)
    (defaults : TypeMap) (bounds : Bounds) (args : List Ty) : Judge TypeError Unit := do
  let fill := fun bound : Ty => bound.instantiateWith defaults args
  let onError := fun index detail =>
    let name := (params[index]?.map Param.name).getD ""
    { value := TypeFault.badArgument index name detail, span }
  ctx.requireBounds depth span .upper args fill onError bounds.upper
  ctx.requireBounds depth span .lower args fill onError bounds.lower

end TypeContext
end TypeChecker
