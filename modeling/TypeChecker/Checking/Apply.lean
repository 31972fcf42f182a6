import TypeChecker.Checking.Checker
import TypeChecker.Variance.Usage

/-!
# Using generic functions

Type arguments of a function are written out in full or inferred: a call infers
them from its argument, a reference from the type it is assigned to. A parameter
that the argument of a call leaves unbound becomes `never` or `any`, whichever
makes the result smaller.
-/

namespace TypeChecker
namespace Checker

def functionRef (c : Checker) (ctx : Context) (f : Signature) (typeArgs : List Ty) (span : Span) :
    Judge ExprError Node := do
  ctx.requireArgs c.depth span f.params [] f.bounds typeArgs
  return .function f.symbol f.index typeArgs

def callTerm (input output : Ty) (callee : Node) (calleeSpan : Span) (arg : Term) (span : Span) :
    Term :=
  { type := output
    node := .call { type := .func input output, node := callee, span := calleeSpan } arg
    span }

def wrongTypeArgs (f : Signature) (given : Nat) (span : Span) : ExprError :=
  { value := .wrongTypeArgCount f.symbol.name given f.arity, span }

/-- The smallest choice for an unbound parameter that occurs in the result with the
given variance. -/
def smallestChoice? : Option Variance -> Option Ty
  | some .covariant => some .never
  | some .contravariant => some .any
  | _ => none

def calledWith? (i : Inference) (output : List Variance) : Nat -> Option (List Ty)
  | 0 => some []
  | n + 1 => do
      let earlier <- calledWith? i output n
      let arg <-
        match i.slot? n with
        | some slot => some slot.type
        | none => smallestChoice? output[n]?
      return earlier ++ [arg]

def callWithArgs (c : Checker) (ctx : Context) (f : Signature) (typeArgs : List Ty) (arg : Draft)
    (calleeSpan span : Span) : Inferring ExprError Term := do
  let input := f.input.instantiate typeArgs
  let output := f.output.instantiate typeArgs
  let arg <- c.settle ctx (some input) arg
  let callee <- c.functionRef ctx f typeArgs calleeSpan
  return callTerm input output callee calleeSpan arg span

def callInferring (c : Checker) (ctx : Context) (f : Signature) (arg : Draft)
    (calleeSpan span : Span) : Judge ExprError Term := do
  let (arg, i) <- Inferring.runWith (.start f.params f.bounds)
    (c.settle ctx (some f.input.toInferring) arg)
  match calledWith? i (Variance.usage ctx.registry f.arity f.output) f.arity with
  | none => throw { value := .typeArgsRequired, span := calleeSpan }
  | some typeArgs =>
      let input := f.input.instantiate typeArgs
      if !(← ctx.fits c.depth input arg.type) then
        throw {
          value := .inconsistent
            ("argument does not fit the inferred input of " ++ f.symbol.text)
          span := arg.span }
      let callee <- c.functionRef ctx f typeArgs calleeSpan
      return callTerm input (f.output.instantiate typeArgs) callee calleeSpan arg span

def call (c : Checker) (ctx : Context) (f : Signature) (typeArgs : List Ty) (arg : Draft)
    (calleeSpan span : Span) : Inferring ExprError Term :=
  if typeArgs.length = f.arity then c.callWithArgs ctx f typeArgs arg calleeSpan span
  else if typeArgs.isEmpty then c.callInferring ctx f arg calleeSpan span
  else throw (wrongTypeArgs f typeArgs.length calleeSpan)

/-!
## Functions as values
-/

def referWithArgs (c : Checker) (ctx : Context) (expected : Option Ty) (f : Signature)
    (typeArgs : List Ty) (span : Span) : Inferring ExprError Term := do
  let node <- c.functionRef ctx f typeArgs span
  ctx.fit c.depth expected { type := f.type.instantiate typeArgs, node, span }

def referInferring (c : Checker) (ctx : Context) (expected : Ty) (f : Signature) (span : Span) :
    Judge ExprError Term := do
  let marked := f.type.toInferring
  let (result, i) <- (assign ctx.toTypeContext c.depth .fromTarget marked expected).outcome
    (.start f.params f.bounds)
  if let .error _ := result then
    throw {
      value := .notAssignable (ctx.describeInferred i marked) (ctx.describe expected)
      span }
  match i.bindings? with
  | none => throw { value := .typeArgsRequired, span }
  | some typeArgs =>
      let type := f.type.instantiate typeArgs
      if !(← ctx.fits c.depth expected type) then
        throw {
          value := .inconsistent
            ("reference to " ++ f.symbol.text ++ " does not fit the type it was inferred from")
          span }
      let node <- c.functionRef ctx f typeArgs span
      return { type := type, node := node, span := span }

def referPlainly (c : Checker) (ctx : Context) (expected : Option Ty) (f : Signature)
    (typeArgs : List Ty) (span : Span) : Inferring ExprError Term := do
  if typeArgs.length = f.arity then c.referWithArgs ctx expected f typeArgs span
  else if typeArgs.isEmpty then
    let expected <- requireType expected span
    let certain <- requireCertain expected span
    c.referInferring ctx certain f span
  else throw (wrongTypeArgs f typeArgs.length span)

/-- Call a function that takes unit where its name is used as a value. -/
def callOnUnit (c : Checker) (ctx : Context) (expected : Option Ty) (f : Signature)
    (typeArgs : List Ty) (span : Span) : Inferring ExprError Term := do
  let called <- c.call ctx f typeArgs (.ofTerm (.unit span)) span span
  ctx.fit c.depth expected called

/-- Use a function as a value. One that takes unit stands for its result where that
fits, and otherwise for itself. -/
def refer (c : Checker) (ctx : Context) (expected : Option Ty) (f : Signature)
    (typeArgs : List Ty) (span : Span) : Inferring ExprError Term := do
  if f.input.alike .unit then
    if let .ok term := ← (c.callOnUnit ctx expected f typeArgs span).restoring.attempt then
      return term
  c.referPlainly ctx expected f typeArgs span

end Checker
end TypeChecker
