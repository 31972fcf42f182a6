import TypeChecker.Assign.Basic
import TypeChecker.Checking.Context

/-!
# Checkers

The rules for single constructs live in modules of their own. Each is written
against a checker for the parts of the construct; the depth such a checker may
still use is one less than that of the whole.
-/

namespace TypeChecker

/-- How parts of an expression are checked. -/
structure Checker where
  depth : Nat
  draft : Context -> Source.Expr -> Judge ExprError Draft
  settle : Context -> Option Ty -> Draft -> Inferring ExprError Term

namespace Checker

def settleTo (c : Checker) (ctx : Context) (expected : Ty) (draft : Draft) : Judge ExprError Term :=
  (c.settle ctx (some expected) draft).withoutInference

def settleAlone (c : Checker) (ctx : Context) (draft : Draft) : Judge ExprError Term :=
  (c.settle ctx none draft).withoutInference

def check (c : Checker) (ctx : Context) (expected : Option Ty) (expr : Source.Expr) :
    Judge ExprError Term := do
  let draft <- c.draft ctx expr
  (c.settle ctx expected draft).withoutInference

def draftAll (c : Checker) (ctx : Context) : List Source.Expr -> Judge ExprError (List Draft)
  | [] => return []
  | expr :: rest => do
      let draft <- c.draft ctx expr
      return draft :: (← draftAll c ctx rest)

def settleEach (c : Checker) (ctx : Context) :
    List (Option Ty × Draft) -> Inferring ExprError (List Term)
  | [] => return []
  | (expected, draft) :: rest => do
      let term <- c.settle ctx expected draft
      return term :: (← settleEach c ctx rest)

def settleAllAlone (c : Checker) (ctx : Context) : List Draft -> Judge ExprError (List Term)
  | [] => return []
  | draft :: rest => do
      let term <- c.settleAlone ctx draft
      return term :: (← settleAllAlone c ctx rest)

end Checker

namespace Context

/-- Assign a term to the expected type, if there is one; it takes the assigned type. -/
def fit (ctx : Context) (depth : Nat) (expected : Option Ty) (term : Term) :
    Inferring ExprError Term := do
  match expected with
  | none => return term
  | some expected =>
      match ← (assign ctx.toTypeContext depth .toTarget expected term.type).attempt with
      | .ok type => return term.retype type
      | .error _ =>
          let i <- Inferring.state
          throw {
            value := .notAssignable (ctx.describe term.type) (ctx.describeInferred i expected)
            span := term.span }

def fits (ctx : Context) (depth : Nat) (expected given : Ty) : Bounded Bool :=
  TypeChecker.fits ctx.toTypeContext depth expected given

def requireArgs (ctx : Context) (depth : Nat) (span : Span) (params : List Param)
    (defaults : TypeMap) (bounds : Bounds) (args : List Ty) : Judge ExprError Unit :=
  (ctx.checkArgs depth span params defaults bounds args).mapError TypeError.inExpr

end Context

def requireType (expected : Option Ty) (span : Span) : Except ExprError Ty :=
  match expected with
  | some type => return type
  | none => throw { value := .typeRequired, span }

def requireCertain (t : Ty) (span : Span) : Inferring ExprError Ty := do
  match (← Inferring.state).certain? t with
  | some certain => return certain
  | none => throw { value := .typeRequired, span }

end TypeChecker
