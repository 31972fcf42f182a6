import TypeChecker.Checking.Settle

/-!
# Bodies of functions and constants

Bodies are checked against signatures that have been collected before.
-/

namespace TypeChecker

structure CheckedFunction where
  signature : Signature
  body : Source.Body Term

structure CheckedConstant where
  signature : ConstantSignature
  value : Source.Body Term

structure BodyContext where
  registry : Registry
  scope : Scope
  limits : Limits
  depth : Nat

namespace BodyContext

def context (b : BodyContext) (params : List Param) (bounds : Bounds) : Context where
  module := b.scope.module
  registry := b.registry
  params := params
  bounds := bounds
  scope := b.scope
  limits := b.limits

def checker (b : BodyContext) : Checker := checkerAt b.depth

def checkFunction (b : BodyContext) (decl : Source.FunctionDecl) (s : Signature) :
    Judge ExprError CheckedFunction := do
  match decl.body with
  | .native id => return { signature := s, body := .native id }
  | .written lambda =>
      let ctx := b.context s.params s.bounds
      let draft : Draft := { value := .lambda lambda ctx.locals, span := lambda.span }
      let term <- b.checker.settleTo ctx s.type draft
      return { signature := s, body := .written term }

def checkConstant (b : BodyContext) (decl : Source.ConstantDecl) (s : ConstantSignature) :
    Judge ExprError CheckedConstant := do
  match decl.value with
  | .native id => return { signature := s, value := .native id }
  | .written expr =>
      let term <- b.checker.check (b.context [] {}) (some s.type) expr
      return { signature := s, value := .written term }

/-- Check an effect of a module: it has no result. -/
def checkEffect (b : BodyContext) (expr : Source.Expr) : Judge ExprError Term :=
  b.checker.check (b.context [] {}) (some (Core.effectOf .unit)) expr

def checkEach {α β : Type} (check : α -> Judge ExprError β) :
    List α -> Bounded (List β × List Problem)
  | [] => return ([], [])
  | item :: rest => do
      match ← (check item).outcome with
      | .ok checked =>
          let (accepted, problems) <- checkEach check rest
          return (checked :: accepted, problems)
      | .error error =>
          let (accepted, problems) <- checkEach check rest
          return (accepted, .expr error :: problems)

def signedFunctions (b : BodyContext) (module : Source.Module) :
    List (Source.FunctionDecl × Signature) :=
  (Scope.numbered module).filterMap fun item =>
    (b.scope.own? item.2.name.name item.1).map fun s => (item.2, s)

def signedConstants (b : BodyContext) (module : Source.Module) :
    List (Source.ConstantDecl × ConstantSignature) :=
  module.constants.filterMap fun decl =>
    (Table.get? b.scope.constants ⟨module.name, decl.name.name⟩).map fun s => (decl, s)

end BodyContext
end TypeChecker
