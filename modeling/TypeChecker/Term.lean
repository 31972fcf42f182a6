import TypeChecker.Registry.Basic

/-!
# Checked expressions

A term is an expression every part of which has a type.
-/

namespace TypeChecker

structure Typed (α : Type) where
  type : Ty
  node : α
  span : Span := {}

structure BoundItem where
  name : String
  index : Nat
  type : Ty
  span : Span := {}

inductive BoundNames where
  | whole (name : String) (type : Ty)
  | tuple (items : List BoundItem)
  | bundle (items : List BoundItem)

abbrev BoundPattern := Located BoundNames

def BoundNames.bindings : BoundNames -> List (String × Ty)
  | .whole name type => [(name, type)]
  | .tuple items => items.map fun item => (item.name, item.type)
  | .bundle items => items.map fun item => (item.name, item.type)

structure CaseBranch (ε : Type) where
  case : Option Nat
  pattern : Option BoundPattern
  value : ε

/-- A branch of a multi-switch. The default branch has no cases; a position without
a case covers all cases there. -/
structure CasesBranch (ε : Type) where
  cases : Option (List (Option Nat))
  pattern : Option BoundPattern
  value : ε

structure BoundValue (ε : Type) where
  pattern : BoundPattern
  value : ε
  recursive : Bool

inductive Node where
  | unit
  /-- Tuple elements, or bundle fields in slot order. -/
  | product (items : List (Typed Node))
  | get (product : Typed Node) (index : Nat)
  | set (product : Typed Node) (index : Nat) (value : Typed Node)
  | sum (value : Typed Node) (index : Nat)
  | switch (arg : Typed Node) (branches : List (CaseBranch (Typed Node))) (reactive : Bool)
  | multiSwitch (args : List (Typed Node)) (branches : List (CasesBranch (Typed Node)))
  | lambda (input : BoundPattern) (output : Typed Node)
  | block (bindings : List (BoundValue (Typed Node))) (result : Typed Node)
  | call (callee arg : Typed Node)
  | function (name : Symbol) (index : Nat) (typeArgs : List Ty)
  | constant (name : Symbol)
  | localName (name : String)
  | array (items : List (Typed Node))
  | int (value : Int)
  | float (bits : UInt64)
  | text (value : String)
  | char (value : Char)

abbrev Term := Typed Node

namespace Term

def unit (span : Span) : Term := { type := .unit, node := .unit, span }

def retype (term : Term) (type : Ty) : Term := { term with type }

def isBundleLiteral (term : Term) : Bool :=
  match term.node, term.type with
  | .product _, .bundle _ => true
  | _, _ => false

def isLambda (term : Term) : Bool :=
  match term.node with
  | .lambda _ _ => true
  | _ => false

end Term

/-!
## Lifting

A value of a case type may be lifted into the union of the case. Parameters of the
union that the case does not take are filled so that the lifted type is as small
as their variance allows.
-/

namespace Membership

/-- What stands for a union parameter that the case does not take. -/
def filler : Option Variance -> Ty
  | some .covariant => .never
  | some .contravariant => .any
  | _ => .unit

/-- The arguments of the union for a case with the given arguments. -/
def unionArgs (m : Membership) (args : List Ty) : List Ty :=
  let fillers := (List.range m.arity).map fun index => filler m.variance[index]?
  (m.params.zip args).foldl (fun result pair => result.set pair.1 pair.2) fillers

end Membership

namespace Registry

def memberOf? (registry : Registry) (type : Ty) : Option Membership :=
  match type with
  | .named name _ => (Table.get? registry name).bind Declaration.memberOf
  | _ => none

/-- Lift a value of a case type into its union; other values stay as they are. -/
def lift (registry : Registry) (term : Term) : Term :=
  match term.type with
  | .named name args =>
      match (Table.get? registry name).bind Declaration.memberOf with
      | some m =>
          { type := .named m.union (m.unionArgs args)
            node := .sum term m.index
            span := term.span }
      | none => term
  | _ => term

end Registry
end TypeChecker
