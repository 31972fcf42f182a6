import TypeChecker.Source.Expr

/-!
# Written declarations and modules
-/

namespace TypeChecker
namespace Source

inductive BoundSide where
  | below
  | above
  deriving DecidableEq

/-- A declared type parameter. A leading `+` or `-` in its name is its variance. -/
structure ParamDecl where
  name : Ident
  bound : Option (BoundSide × TypeExpr) := none
  default : Option TypeExpr := none

structure Tag where
  text : String
  span : Span := {}
  deriving DecidableEq

structure TypeHead where
  name : Ident
  params : List ParamDecl := []
  doc : String := ""
  tags : List Tag := []
  span : Span := {}
  deriving Inhabited

structure BoxedDecl where
  /-- Without an inner type the box holds unit. -/
  inner : Option TypeExpr := none
  guarded : Bool := false
  hidden : Bool := false
  weak : Bool := false
  implicit : Bool := false

inductive TypeDecl where
  | union (head : TypeHead) (cases : List TypeDecl)
  | boxed (head : TypeHead) (decl : BoxedDecl)
  | native (head : TypeHead)
  deriving Inhabited

def TypeDecl.head : TypeDecl -> TypeHead
  | .union head _ => head
  | .boxed head _ => head
  | .native head => head

inductive Body (α : Type) where
  | written (value : α)
  | native (id : String)

structure FunctionDecl where
  name : Ident
  isPublic : Bool := true
  doc : String := ""
  params : List ParamDecl := []
  input : TypeExpr
  output : TypeExpr
  body : Body Lambda
  span : Span := {}

structure ConstantDecl where
  name : Ident
  isPublic : Bool := true
  doc : String := ""
  type : TypeExpr
  value : Body Expr
  span : Span := {}

structure Module where
  name : String
  imports : List Ident := []
  types : List TypeDecl := []
  functions : List FunctionDecl := []
  constants : List ConstantDecl := []
  effects : List Expr := []

end Source
end TypeChecker
