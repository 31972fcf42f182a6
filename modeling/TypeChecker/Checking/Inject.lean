import TypeChecker.Checking.Checker

/-!
# Boxing

A value is boxed into a declared type by assigning it to the inner type. The type
arguments are given, or inferred from the value. A boxed case is then lifted into
its union, unless the use asks for the case itself.
-/

namespace TypeChecker
namespace Checker

def requireBoxable (ctx : Context) (name : Symbol) (boxed : Boxed) (span : Span) :
    Except ExprError Unit :=
  if name.module = ctx.module then return ()
  else if boxed.guarded then throw { value := .boxIntoGuarded name.text, span }
  else if boxed.hidden then throw { value := .boxIntoHidden name.text, span }
  else return ()

def isCaseOf (ctx : Context) (type : Ty) (union : Symbol) : Bool :=
  match Registry.memberOf? ctx.registry type with
  | some m => m.union == union
  | none => false

/-- A value under the name of a union: it must be a value of one of the cases. -/
def injectIntoUnion (ctx : Context) (value : Draft) (union : Symbol) : Except ExprError Term :=
  match value.term? with
  | none => throw { value := .typeRequired, span := value.span }
  | some term =>
      if isCaseOf ctx term.type union then return Registry.lift ctx.registry term
      else throw { value := .notCase (ctx.describe term.type) union.text, span := value.span }

def boxedTerm (ctx : Context) (exact : Bool) (type : Ty) (value : Term) (span : Span) : Term :=
  let boxed : Term := { type, node := value.node, span }
  if exact then boxed else Registry.lift ctx.registry boxed

def boxWithArgs (c : Checker) (ctx : Context) (value : Draft) (name : Symbol) (d : Declaration)
    (inner : Ty) (args : List Ty) (exact : Bool) (span : Span) : Inferring ExprError Term := do
  let term <- c.settle ctx (some (inner.instantiateWith d.defaults args)) value
  let i <- Inferring.state
  let args := Ty.completeArgs d.defaults d.arity (args.map i.substitute)
  ctx.requireArgs c.depth span d.params d.defaults d.bounds args
  return boxedTerm ctx exact (.named name args) term span

def boxInferring (c : Checker) (ctx : Context) (value : Draft) (name : Symbol) (d : Declaration)
    (inner : Ty) (exact : Bool) (span : Span) : Judge ExprError Term := do
  let (term, i) <- Inferring.runWith (.start d.params d.bounds)
    (c.settle ctx (some inner.toInferring) value)
  match i.bindings? with
  | none => throw { value := .typeArgsRequired, span }
  | some args =>
      if !(← ctx.fits c.depth (inner.instantiate args) term.type) then
        throw {
          value := .inconsistent
            ("boxed value does not fit the inferred inner type of " ++ name.text)
          span := value.span }
      ctx.requireArgs c.depth span d.params d.defaults d.bounds args
      return boxedTerm ctx exact (.named name args) term span

/-- Put a value under a type name. Without `args` they are inferred, unless all of
them have defaults. -/
def inject (c : Checker) (ctx : Context) (value : Draft) (name : Symbol) (args : List Ty)
    (exact : Bool) (span : Span) : Inferring ExprError Term := do
  match Table.get? ctx.registry name with
  | none => throw (TypeError.inExpr { value := .notFound name.text, span })
  | some d =>
      match d.definition with
      | .union _ => injectIntoUnion ctx value name
      | .native => throw { value := .boxIntoUnboxed name.text, span }
      | .boxed boxed =>
          requireBoxable ctx name boxed span
          if Nat.ble d.minArity args.length && Nat.ble args.length d.arity then
            c.boxWithArgs ctx value name d boxed.inner args exact span
          else if args.isEmpty then
            c.boxInferring ctx value name d boxed.inner exact span
          else
            throw (TypeError.inExpr
              { value := .wrongArity name.text d.arity args.length, span })

end Checker
end TypeChecker
