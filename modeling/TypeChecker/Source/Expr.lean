import TypeChecker.Source.TypeExpr

/-!
# Written expressions and patterns
-/

namespace TypeChecker
namespace Source

inductive PatternNode where
  | name (name : Ident)
  | tuple (names : List Ident)
  | bundle (fields : List (Ident × Ident))
  deriving Inhabited

abbrev Pattern := Located PatternNode

structure InlineRef where
  name : RefName
  typeArgs : List TypeExpr := []
  deriving Inhabited

structure LambdaOf (ε : Type) where
  input : Pattern
  output : ε
  span : Span := {}
  deriving Inhabited

structure BindingOf (ε : Type) where
  pattern : Pattern
  type : Option TypeExpr := none
  value : ε
  recursive : Bool := false
  span : Span := {}
  deriving Inhabited

/-- A branch of a switch; without case types it is the default branch. -/
structure BranchOf (ε : Type) where
  types : List InlineRef
  pattern : Option Pattern := none
  value : ε
  span : Span := {}
  deriving Inhabited

/-- A branch of a multi-switch, one case type for each argument; without a list it
is the default branch. -/
structure MultiBranchOf (ε : Type) where
  types : Option (List InlineRef)
  pattern : Option Pattern := none
  value : ε
  span : Span := {}
  deriving Inhabited

structure ElseIfOf (ε : Type) where
  condition : ε
  yes : ε
  span : Span := {}
  deriving Inhabited

inductive ExprNode where
  | ref (ref : InlineRef)
  | call (callee arg : Located ExprNode)
  | operator (op left right : Located ExprNode)
  | cast (value : Located ExprNode) (target : TypeExpr)
  | get (base : Located ExprNode) (field : Ident)
  | lambda (lambda : LambdaOf (Located ExprNode))
  | tuple (items : List (Located ExprNode))
  /-- A field without a value takes the value of the same name. -/
  | bundle (fields : List (Ident × Option (Located ExprNode)))
  | update (base : Located ExprNode) (fields : List (Ident × Option (Located ExprNode)))
  | array (items : List (Located ExprNode))
  | block (bindings : List (BindingOf (Located ExprNode))) (result : Located ExprNode)
  | switch (arg : Located ExprNode) (branches : List (BranchOf (Located ExprNode)))
  | multiSwitch (args : List (Located ExprNode))
      (branches : List (MultiBranchOf (Located ExprNode)))
  | conditional (condition yes : Located ExprNode) (elseIfs : List (ElseIfOf (Located ExprNode)))
      (no : Located ExprNode)
  | int (literal : String)
  | float (bits : UInt64)
  | text (value : String)
  | char (value : Char)
  deriving Inhabited

abbrev Expr := Located ExprNode
abbrev Lambda := LambdaOf Expr
abbrev Binding := BindingOf Expr
abbrev Branch := BranchOf Expr
abbrev MultiBranch := MultiBranchOf Expr
abbrev ElseIf := ElseIfOf Expr

end Source
end TypeChecker
