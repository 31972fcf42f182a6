import TypeChecker.Bounds
import TypeChecker.Resolve.Convert

/-!
# Types written in signatures and expressions

Such a type is read against the finished registry, completed, and checked against
the bounds of everything it instantiates.
-/

namespace TypeChecker
namespace TypeContext

def scope (ctx : TypeContext) (limits : Limits) : TypeScope where
  module := ctx.module
  params := ctx.params.map Param.name
  arities := Registry.arities ctx.registry
  limits := limits

def resolve (ctx : TypeContext) (limits : Limits) (depth : Nat) (expr : Source.TypeExpr) :
    Judge TypeError Ty := do
  let written <- Judge.ofExcept ((ctx.scope limits).read expr)
  let t := written.complete ctx.registry
  ctx.checkBounds depth expr.span t
  return t

end TypeContext
end TypeChecker
