import TypeChecker.Span
import TypeChecker.Ty.Printer
import TypeChecker.Variance.Basic

/-!
# Declared types

The registry holds the type declarations of a program under their qualified
names. A declaration defines a union of case types, a boxed type around an inner
type, or a native type of the host.
-/

namespace TypeChecker

structure Param where
  name : String
  variance : Variance
  deriving DecidableEq

/-- Bounds by parameter index: an argument must be above its lower bound and below
its upper bound. -/
structure Bounds where
  lower : TypeMap := []
  upper : TypeMap := []

def Bounds.isEmpty (bounds : Bounds) : Bool :=
  bounds.lower.isEmpty && bounds.upper.isEmpty

/-- A case of a union. The `i`-th parameter of the case stands for the union
parameter `params[i]`. -/
structure Case where
  name : Symbol
  params : List Nat
  deriving DecidableEq

/-- A boxed type and the modifiers it was declared with. -/
structure Boxed where
  inner : Ty
  implicit : Bool := false
  /-- Names bound to a value see through the box. -/
  weak : Bool := false
  /-- Only the declaring module may box values. -/
  guarded : Bool := false
  /-- Only the declaring module may unbox values. -/
  hidden : Bool := false

inductive Definition where
  | union (cases : List Case)
  | boxed (boxed : Boxed)
  | native

structure Membership where
  union : Symbol
  arity : Nat
  variance : List Variance
  index : Nat
  params : List Nat

structure DataId where
  name : String
  version : String
  deriving DecidableEq

structure Declaration where
  doc : String := ""
  data : Option DataId := none
  params : List Param := []
  bounds : Bounds := {}
  defaults : TypeMap := []
  definition : Definition
  memberOf : Option Membership := none
  span : Span := {}

namespace Declaration

def arity (d : Declaration) : Nat := d.params.length

/-- The length of the run of defaulted parameters that ends before index `n`. -/
def defaultedBefore (defaults : TypeMap) : Nat -> Nat
  | 0 => 0
  | n + 1 => if Table.contains defaults n then defaultedBefore defaults n + 1 else 0

/-- The fewest arguments a reference may give; defaults supply the rest. -/
def minArity (d : Declaration) : Nat :=
  d.arity - defaultedBefore d.defaults d.arity

def paramNames (d : Declaration) : List String := d.params.map Param.name

def boxed? (d : Declaration) : Option Boxed :=
  match d.definition with
  | .boxed boxed => some boxed
  | _ => none

def cases? (d : Declaration) : Option (List Case) :=
  match d.definition with
  | .union cases => some cases
  | _ => none

end Declaration

abbrev Registry := Table Symbol Declaration

/-- Where a type is looked at: the current module, the declarations it may use,
and the parameters and bounds of the enclosing declaration. -/
structure TypeContext where
  module : String
  registry : Registry
  params : List Param := []
  bounds : Bounds := {}

namespace TypeContext

def describe (ctx : TypeContext) (t : Ty) : String :=
  t.describe ctx.module (ctx.params.map Param.name)

end TypeContext
end TypeChecker
