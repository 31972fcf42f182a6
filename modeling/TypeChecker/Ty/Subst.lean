import TypeChecker.Ty.Basic

/-!
# Replacing parameters

Instantiating a declaration replaces its parameters by arguments; starting an
inference marks them as being inferred; a finished inference replaces the marked
ones by their bindings. All of these are one traversal with different choices at
the parameters.
-/

namespace TypeChecker

abbrev TypeMap := Table Nat Ty

namespace Ty

mutual

/-- Rebuild a type, replacing the parameters for which `choose` has a type. -/
def replace (choose : Nat -> Bool -> Option Ty) : Ty -> Ty
  | .never => .never
  | .any => .any
  | .param index inferring => (choose index inferring).getD (.param index inferring)
  | .named name args => .named name (replaceList choose args)
  | .unit => .unit
  | .tuple items => .tuple (replaceList choose items)
  | .bundle fields => .bundle (replaceFields choose fields)
  | .func input output => .func (replace choose input) (replace choose output)

def replaceList (choose : Nat -> Bool -> Option Ty) : List Ty -> List Ty
  | [] => []
  | t :: rest => replace choose t :: replaceList choose rest

def replaceFields (choose : Nat -> Bool -> Option Ty) :
    List (String × Field Ty) -> List (String × Field Ty)
  | [] => []
  | (name, ⟨slot, t⟩) :: rest => (name, ⟨slot, replace choose t⟩) :: replaceFields choose rest

end

def instantiate (t : Ty) (args : List Ty) : Ty :=
  t.replace fun index _ => args[index]?

/-- Replace parameters by arguments, and those beyond the arguments by their
defaults, which may mention the arguments. -/
def instantiateWith (t : Ty) (defaults : TypeMap) (args : List Ty) : Ty :=
  t.replace fun index _ =>
    match args[index]? with
    | some arg => some arg
    | none => (Table.get? defaults index).map fun default => default.instantiate args

def toInferring (t : Ty) : Ty :=
  t.replace fun index _ => some (.param index true)

def appendDefaults (defaults : TypeMap) : Nat -> List Ty -> List Ty
  | 0, args => args
  | missing + 1, args =>
      let next := ((Table.get? defaults args.length).map fun t => t.instantiate args).getD .any
      appendDefaults defaults missing (args ++ [next])

/-- Bring an argument list to length `arity` with declared defaults. -/
def completeArgs (defaults : TypeMap) (arity : Nat) (given : List Ty) : List Ty :=
  appendDefaults defaults (arity - given.length) (given.take arity)

mutual

def anyParam (p : Nat -> Bool -> Bool) : Ty -> Bool
  | .never => false
  | .any => false
  | .param index inferring => p index inferring
  | .named _ args => anyParamList p args
  | .unit => false
  | .tuple items => anyParamList p items
  | .bundle fields => anyParamFields p fields
  | .func input output => anyParam p input || anyParam p output

def anyParamList (p : Nat -> Bool -> Bool) : List Ty -> Bool
  | [] => false
  | t :: rest => anyParam p t || anyParamList p rest

def anyParamFields (p : Nat -> Bool -> Bool) : List (String × Field Ty) -> Bool
  | [] => false
  | (_, ⟨_, t⟩) :: rest => anyParam p t || anyParamFields p rest

end

def hasInferring (t : Ty) : Bool :=
  t.anyParam fun _ inferring => inferring

end Ty
end TypeChecker
