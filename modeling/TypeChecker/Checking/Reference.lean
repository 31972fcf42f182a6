import TypeChecker.Checking.Binding
import TypeChecker.Checking.Candidates
import TypeChecker.Checking.Inject

/-!
# References and calls

Locals and constants have a type at once. A type or a set of functions waits for
an argument or an expected type: a type boxes the argument, or unit where the name
stands alone.
-/

namespace TypeChecker
namespace Checker

def requireNoTypeArgs (typeArgs : List Ty) (span : Span) : Except ExprError Unit :=
  if typeArgs.isEmpty then return () else throw { value := .superfluousTypeArgs, span }

def resolveAll (c : Checker) (ctx : Context) : List Source.TypeExpr -> Judge ExprError (List Ty)
  | [] => return []
  | expr :: rest => do
      let type <- ctx.resolve c.depth expr
      return type :: (← resolveAll c ctx rest)

def draftMeaning (name : String) (typeArgs : List Ty) (span : Span) :
    Meaning -> Except ExprError Draft
  | .localValue type => do
      requireNoTypeArgs typeArgs span
      return .ofTerm { type, node := .localName name, span }
  | .constant symbol type => do
      requireNoTypeArgs typeArgs span
      return .ofTerm { type, node := .constant symbol, span }
  | .typeParam _ => throw { value := .paramAsValue name, span }
  | .type use => return { value := .reference (.type use) typeArgs, span }
  | .functions functions => return { value := .reference (.functions functions) typeArgs, span }
  | .localOrFunctions type functions =>
      if typeArgs.isEmpty then
        let value : Term := { type, node := .localName name, span }
        return { value := .reference (.functionsOrLocal functions value) typeArgs, span }
      else return { value := .reference (.functions functions) typeArgs, span }

def draftRef (c : Checker) (ctx : Context) (ref : Source.InlineRef) (span : Span) :
    Judge ExprError Draft := do
  match ctx.lookup ref.name with
  | none => throw { value := .unknownName ref.name.text, span }
  | some meaning =>
      let typeArgs <- c.resolveAll ctx ref.typeArgs
      draftMeaning ref.name.name typeArgs span meaning

/-!
## Settling
-/

def typeAsValue (c : Checker) (ctx : Context) (use : TypeUse) (typeArgs : List Ty) (span : Span) :
    Inferring ExprError Term :=
  (c.inject ctx (.ofTerm (.unit span)) use.name typeArgs use.exact span).mapError fun error =>
    if error.value.isInternal then error
    else { value := .typeAsValue use.name.text, span }

/-- Settle a reference. A local is preferred to functions of its name; if neither
fits, the reason is that of the local. -/
def settleRef (c : Checker) (ctx : Context) (expected : Option Ty) (target : RefTarget)
    (typeArgs : List Ty) (span : Span) : Inferring ExprError Term := do
  match target with
  | .type use =>
      let boxed <- c.typeAsValue ctx use typeArgs span
      ctx.fit c.depth expected boxed
  | .functions f => c.referOverloaded ctx expected f.functions typeArgs span
  | .functionsOrLocal f value =>
      match ← (ctx.fit c.depth expected value).restoring.attempt with
      | .ok term => return term
      | .error error =>
          (c.referOverloaded ctx expected f.functions [] span).restoring.mapError fun _ => error

/-!
## Calls
-/

def callValue (c : Checker) (ctx : Context) (f : Term) (arg : Draft) (span : Span) :
    Judge ExprError Term := do
  match ← funcBehind ctx.module ctx.registry c.depth f.type with
  | .found (input, output) _ =>
      let arg <- c.settleTo ctx input arg
      return { type := output, node := .call f arg, span }
  | _ => throw { value := .typeNotCallable (ctx.describe f.type), span := f.span }

def callType (c : Checker) (ctx : Context) (use : TypeUse) (typeArgs : List Ty) (arg : Draft)
    (span : Span) : Judge ExprError Draft := do
  return .ofTerm (← (c.inject ctx arg use.name typeArgs use.exact span).withoutInference)

/-- Call a set of functions. If none accepts, a type of their name may box the
argument; if that fails too, the reason is that of the functions. -/
def callFunctions (c : Checker) (ctx : Context) (f : Overloads) (typeArgs : List Ty) (arg : Draft)
    (calleeSpan span : Span) : Judge ExprError Draft := do
  let called := c.callOverloaded ctx f.name f.functions typeArgs arg calleeSpan span
  match ← called.withoutInference.attempt with
  | .ok draft => return draft
  | .error error =>
      if error.value.isInternal then throw error
      match f.fallback with
      | none => throw error
      | some use => (c.callType ctx use typeArgs arg span).mapError fun _ => error

def callRef (c : Checker) (ctx : Context) (target : RefTarget) (typeArgs : List Ty) (arg : Draft)
    (calleeSpan span : Span) : Judge ExprError Draft := do
  match target with
  | .type use => c.callType ctx use typeArgs arg span
  | .functions f => c.callFunctions ctx f typeArgs arg calleeSpan span
  | .functionsOrLocal f value =>
      match ← funcBehind ctx.module ctx.registry c.depth value.type with
      | .found _ _ => return .ofTerm (← c.callValue ctx value arg span)
      | _ => c.callFunctions ctx f [] arg calleeSpan span

def callDraft (c : Checker) (ctx : Context) (callee arg : Draft) (span : Span) :
    Judge ExprError Draft := do
  match callee.value with
  | .typed f => return .ofTerm (← c.callValue ctx f arg span)
  | .lambda lambda locals =>
      return .ofTerm (← c.callLambda ctx lambda locals arg callee.span span)
  | .reference target typeArgs => c.callRef ctx target typeArgs arg callee.span span
  | .switch _ _ _ => throw { value := .typeRequired, span := callee.span }
  | .multiSwitch _ _ => throw { value := .typeRequired, span := callee.span }
  | .block _ _ => throw { value := .typeRequired, span := callee.span }
  | _ => throw { value := .notCallable, span := callee.span }

def draftCall (c : Checker) (ctx : Context) (callee arg : Source.Expr) (span : Span) :
    Judge ExprError Draft := do
  let callee <- c.draft ctx callee
  let arg <- c.draft ctx arg
  c.callDraft ctx callee arg span

def draftOperator (c : Checker) (ctx : Context) (op left right : Source.Expr) (span : Span) :
    Judge ExprError Draft := do
  let callee <- c.draft ctx op
  let left <- c.draft ctx left
  let right <- c.draft ctx right
  c.callDraft ctx callee { value := .tuple [left, right], span } span

def draftCast (c : Checker) (ctx : Context) (value : Source.Expr) (target : Source.TypeExpr)
    (span : Span) : Judge ExprError Draft := do
  let target <- ctx.resolve c.depth target
  let draft <- c.draft ctx value
  let term <- c.settleTo ctx target draft
  return .ofTerm { term with span }

end Checker
end TypeChecker
