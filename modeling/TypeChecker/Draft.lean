import TypeChecker.Scope
import TypeChecker.Source.Expr
import TypeChecker.Term

/-!
# Drafts

Checking goes both ways. An expression is first drafted on its own; the draft is a
term if the expression has a type of its own, and otherwise keeps what is known
until the place where it is used supplies an expected type. A lambda, an integer
literal, an overloaded call, or a tuple of such things all wait in this way.
-/

namespace TypeChecker

abbrev Locals := List (String × Ty)

structure TypeUse where
  name : Symbol
  exact : Bool
  deriving DecidableEq

/-- The functions a name may stand for. -/
structure Overloads where
  name : String
  functions : List Signature
  /-- A type of the same name, tried when no function accepts a call. -/
  fallback : Option TypeUse

/-- What a name that has no type of its own refers to. -/
inductive RefTarget where
  | type (use : TypeUse)
  | functions (functions : Overloads)
  | functionsOrLocal (functions : Overloads) (value : Term)

structure CallOption where
  term : Term
  description : String

inductive DraftNode where
  | typed (term : Term)
  | lambda (lambda : Source.Lambda) (locals : Locals)
  | integer (value : Int)
  | reference (target : RefTarget) (typeArgs : List Ty)
  | undecided (name : String) (options : List CallOption)
  | tuple (items : List (Located DraftNode))
  | bundle (fields : List (Source.Ident × Located DraftNode))
  | array (items : List (Located DraftNode))
  /-- The bindings are typed; the result waits. -/
  | block (bindings : List (BoundValue Term)) (result : Located DraftNode)
  | switch (arg : Term) (branches : List (CaseBranch (Located DraftNode))) (reactive : Bool)
  | multiSwitch (args : List Term) (branches : List (CasesBranch (Located DraftNode)))

abbrev Draft := Located DraftNode

namespace Draft

def ofTerm (term : Term) : Draft := { value := .typed term, span := term.span }

def term? (draft : Draft) : Option Term :=
  match draft.value with
  | .typed term => some term
  | _ => none

end Draft
end TypeChecker
