import TypeChecker.Checking.Checker
import TypeChecker.Checking.Destructure

/-!
# Lambdas and blocks

A lambda takes the type of its input from the function type it is settled to, or
from the argument it is called with on the spot. Its body sees the locals in scope
where it was written.

Each binding of a block sees those before it. A recursive one also sees itself;
it must be a lambda of a type written out.
-/

namespace TypeChecker
namespace Checker

def bodyContext (ctx : Context) (locals : Locals) (pattern : BoundPattern) : Context :=
  { ctx with locals }.withPattern pattern

def settleLambdaAt (c : Checker) (ctx : Context) (input output : Ty) (lambda : Source.Lambda)
    (locals : Locals) (span : Span) : Inferring ExprError Term := do
  let input <- requireCertain input span
  let pattern <- ctx.destructure c.depth lambda.input input
  let inner := bodyContext ctx locals pattern
  let body <- c.draft inner lambda.output
  let body <- c.settle inner (some output) body
  match (← Inferring.state).certain? output with
  | none =>
      throw { value := .inconsistent "lambda output type still undetermined after its body", span }
  | some output =>
      if !(← inner.fits c.depth output body.type) then
        throw { value := .inconsistent "lambda body does not fit its own output type", span }
      return { type := .func input output, node := .lambda pattern body, span }

def settleLambda (c : Checker) (ctx : Context) (expected : Option Ty) (lambda : Source.Lambda)
    (locals : Locals) (span : Span) : Inferring ExprError Term := do
  match ← requireType expected span with
  | .func input output => c.settleLambdaAt ctx input output lambda locals span
  | other =>
      let i <- Inferring.state
      throw { value := .lambdaForNonFunction (ctx.describeInferred i other), span }

def termOf (c : Checker) (ctx : Context) (draft : Draft) : Judge ExprError Term :=
  match draft.term? with
  | some term => return term
  | none => c.settleAlone ctx draft

def callLambda (c : Checker) (ctx : Context) (lambda : Source.Lambda) (locals : Locals)
    (arg : Draft) (lambdaSpan span : Span) : Judge ExprError Term := do
  let arg <- (c.termOf ctx arg).mapError fun _ => { value := .typeRequired, span := lambdaSpan }
  let pattern <- ctx.destructure c.depth lambda.input arg.type
  let inner := bodyContext ctx locals pattern
  let body <- c.termOf inner (← c.draft inner lambda.output)
  let callee : Term :=
    { type := .func arg.type body.type, node := .lambda pattern body, span := lambdaSpan }
  return { type := body.type, node := .call callee arg, span }

/-!
## Blocks
-/

def checkRecursive (c : Checker) (ctx : Context) (declared : Ty) (binding : Source.Binding) :
    Judge ExprError (BoundValue Term) := do
  let pattern <- ctx.destructure c.depth binding.pattern declared
  let value <- c.check (ctx.withPattern pattern) (some declared) binding.value
  if !value.isLambda then
    throw { value := .recursiveNonLambda, span := binding.value.span }
  return { pattern, value, recursive := true }

def annotation? (c : Checker) (ctx : Context) (binding : Source.Binding) :
    Judge ExprError (Option Ty) :=
  match binding.type with
  | some written => do return some (← ctx.resolve c.depth written)
  | none => return none

def checkBinding (c : Checker) (ctx : Context) (binding : Source.Binding) :
    Judge ExprError (BoundValue Term) := do
  let annotation <- c.annotation? ctx binding
  if binding.recursive then
    match annotation with
    | none => throw { value := .typeRequired, span := binding.span }
    | some declared => c.checkRecursive ctx declared binding
  else
    let value <- c.check ctx annotation binding.value
    let pattern <- ctx.destructure c.depth binding.pattern value.type
    return { pattern, value, recursive := false }

def checkBindings (c : Checker) :
    Context -> List Source.Binding -> Judge ExprError (List (BoundValue Term) × Context)
  | ctx, [] => return ([], ctx)
  | ctx, binding :: rest => do
      let bound <- c.checkBinding ctx binding
      let (more, last) <- checkBindings c (ctx.withPattern bound.pattern) rest
      return (bound :: more, last)

def blockTerm (bindings : List (BoundValue Term)) (result : Term) (span : Span) : Term :=
  { type := result.type, node := .block bindings result, span }

def draftBlock (c : Checker) (ctx : Context) (bindings : List Source.Binding)
    (result : Source.Expr) (span : Span) : Judge ExprError Draft := do
  let (bindings, inner) <- c.checkBindings ctx bindings
  let result <- c.draft inner result
  match result.term? with
  | some term => return .ofTerm (blockTerm bindings term span)
  | none => return { value := .block bindings result, span }

def settleBlock (c : Checker) (ctx : Context) (expected : Option Ty)
    (bindings : List (BoundValue Term)) (result : Draft) (span : Span) :
    Inferring ExprError Term := do
  let inner := bindings.foldl (fun inner binding => inner.withPattern binding.pattern) ctx
  let result <- c.settle inner expected result
  return blockTerm bindings result span

end Checker
end TypeChecker
