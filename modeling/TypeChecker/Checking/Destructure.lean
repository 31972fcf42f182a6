import TypeChecker.Checking.Context
import TypeChecker.Unboxing

/-!
# Taking values apart

A pattern binds names to a value or to parts of it. Tuple and bundle patterns see
through boxed types, as far as the current module may.
-/

namespace TypeChecker
namespace Destructure

def ignored : String := "_"

def requireNew (bound : List String) (name : Source.Ident) : Except ExprError Unit :=
  if bound.contains name.name then
    throw { value := .repeatedBinding name.name, span := name.span }
  else return ()

def elements : Nat -> List String -> List Source.Ident -> List Ty ->
    Except ExprError (List BoundItem)
  | index, bound, name :: names, type :: types =>
      if name.name = ignored then elements (index + 1) bound names types
      else do
        requireNew bound name
        let rest <- elements (index + 1) (name.name :: bound) names types
        return { name := name.name, index, type, span := name.span } :: rest
  | _, _, _, _ => return []

def fields (ctx : Context) (input : Ty) (declared : Table String (Field Ty)) :
    List String -> List (Source.Ident × Source.Ident) -> Except ExprError (List BoundItem)
  | _, [] => return []
  | bound, (field, name) :: rest => do
      match Table.get? declared field.name with
      | none =>
          throw { value := .noSuchField field.name (ctx.describe input), span := field.span }
      | some found =>
          requireNew bound name
          let items <- fields ctx input declared (name.name :: bound) rest
          let item :=
            { name := name.name, index := found.slot, type := found.type, span := name.span }
          return item :: items

end Destructure

namespace Context

def bindWhole (ctx : Context) (depth : Nat) (name : Source.Ident) (input : Ty) :
    Judge ExprError BoundNames := do
  return .whole name.name (← input.stripWeak ctx.registry depth)

def bindTuple (ctx : Context) (depth : Nat) (names : List Source.Ident) (input : Ty)
    (span : Span) : Judge ExprError BoundNames := do
  match ← tupleBehind ctx.module ctx.registry depth false input with
  | .absent => throw { value := .matchNonTuple, span }
  | .hidden => throw { value := .matchHiddenTuple, span }
  | .found types _ =>
      if types.length ≠ names.length then
        throw { value := .tupleSize names.length types.length (ctx.describe input), span }
      let items <- Judge.ofExcept (Destructure.elements 0 [] names types)
      if items.isEmpty then
        throw { value := .allIgnored, span }
      return .tuple items

def bindBundle (ctx : Context) (depth : Nat) (fields : List (Source.Ident × Source.Ident))
    (input : Ty) (span : Span) : Judge ExprError BoundNames := do
  match ← bundleBehind ctx.module ctx.registry depth false input with
  | .absent => throw { value := .matchNonBundle, span }
  | .hidden => throw { value := .matchHiddenBundle, span }
  | .found declared _ =>
      return .bundle (← Judge.ofExcept (Destructure.fields ctx input declared [] fields))

/-- Check a pattern against a value of type `input`. A tuple pattern with one name
binds the whole value. -/
def destructure (ctx : Context) (depth : Nat) (pattern : Source.Pattern) (input : Ty) :
    Judge ExprError BoundPattern := do
  let names <-
    match pattern.value with
    | .name name => ctx.bindWhole depth name input
    | .tuple [name] => ctx.bindWhole depth name input
    | .tuple names => ctx.bindTuple depth names input pattern.span
    | .bundle fields => ctx.bindBundle depth fields input pattern.span
  return { value := names, span := pattern.span }

def destructure? (ctx : Context) (depth : Nat) (pattern : Option Source.Pattern) (input : Ty) :
    Judge ExprError (Option BoundPattern) :=
  match pattern with
  | some pattern => do return some (← ctx.destructure depth pattern input)
  | none => return none

end Context
end TypeChecker
