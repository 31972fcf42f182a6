import TypeChecker.Checking.Checker
import TypeChecker.Core

/-!
# Tuples, bundles and arrays
-/

namespace TypeChecker
namespace Checker

/-- Draft a tuple. Without items it is unit; with one it is that item. -/
def draftTuple (c : Checker) (ctx : Context) (items : List Source.Expr) (span : Span) :
    Judge ExprError Draft := do
  match items with
  | [] => return .ofTerm (.unit span)
  | [item] => c.draft ctx item
  | _ => return { value := .tuple (← c.draftAll ctx items), span }

def fieldValue (name : Source.Ident) (value : Option Source.Expr) : Source.Expr :=
  match value with
  | some value => value
  | none =>
      { value := .ref { name := { name := name.name, span := name.span } }, span := name.span }

def requireNewField (given : List String) (name : Source.Ident) : Except ExprError Unit :=
  if given.contains name.name then
    throw { value := .repeatedField name.name, span := name.span }
  else return ()

def draftFields (c : Checker) (ctx : Context) :
    List String -> List (Source.Ident × Option Source.Expr) ->
      Judge ExprError (List (Source.Ident × Draft))
  | _, [] => return []
  | given, (name, value) :: rest => do
      requireNewField given name
      let draft <- c.draft ctx (fieldValue name value)
      return (name, draft) :: (← draftFields c ctx (name.name :: given) rest)

def draftBundle (c : Checker) (ctx : Context) (fields : List (Source.Ident × Option Source.Expr))
    (span : Span) : Judge ExprError Draft := do
  return { value := .bundle (← c.draftFields ctx [] fields), span }

def draftArray (c : Checker) (ctx : Context) (items : List Source.Expr) (span : Span) :
    Judge ExprError Draft := do
  return { value := .array (← c.draftAll ctx items), span }

/-!
## Access and update
-/

def getFromTerm (c : Checker) (ctx : Context) (base : Term) (baseSpan : Span)
    (field : Source.Ident) (span : Span) : Judge ExprError Draft := do
  if base.isBundleLiteral then
    throw { value := .getFromLiteral, span := baseSpan }
  match ← bundleBehind ctx.module ctx.registry c.depth false base.type with
  | .hidden => throw { value := .getFromHidden, span := baseSpan }
  | .absent => throw { value := .getFromNonBundle, span := baseSpan }
  | .found fields _ =>
      match Table.get? fields field.name with
      | none =>
          throw { value := .noSuchField field.name (ctx.describe (.bundle fields))
                  span := field.span }
      | some found =>
          return .ofTerm { type := found.type, node := .get base found.slot, span }

def draftGet (c : Checker) (ctx : Context) (base : Source.Expr) (field : Source.Ident)
    (span : Span) : Judge ExprError Draft := do
  let base <- c.draft ctx base
  match base.value with
  | .typed term => c.getFromTerm ctx term base.span field span
  | .reference _ _ =>
      let term <- (c.settleAlone ctx base).mapError fun _ =>
        { value := .typeRequired, span := base.span }
      c.getFromTerm ctx term term.span field span
  | .bundle _ => throw { value := .getFromLiteral, span := base.span }
  | _ => throw { value := .getFromNonBundle, span := base.span }

def updateBase (base : Draft) : Except ExprError Term :=
  match base.value with
  | .typed term =>
      if term.isBundleLiteral then throw { value := .updateOfLiteral, span := base.span }
      else return term
  | .bundle _ => throw { value := .updateOfLiteral, span := base.span }
  | _ => throw { value := .updateOfNonBundle, span := base.span }

def updateFields (c : Checker) (ctx : Context) (type : Ty) (declared : Table String (Field Ty))
    (span : Span) :
    List String -> Term -> List (Source.Ident × Option Source.Expr) -> Judge ExprError Term
  | _, current, [] => return current
  | given, current, (name, value) :: rest => do
      match Table.get? declared name.name with
      | none =>
          throw { value := .noSuchField name.name (ctx.describe type), span := name.span }
      | some target =>
          requireNewField given name
          let draft <- c.draft ctx (fieldValue name value)
          let value <- c.settleTo ctx target.type draft
          let next : Term := { type, node := .set current target.slot value, span }
          updateFields c ctx type declared span (name.name :: given) next rest

def draftUpdate (c : Checker) (ctx : Context) (base : Source.Expr)
    (fields : List (Source.Ident × Option Source.Expr)) (span : Span) :
    Judge ExprError Draft := do
  let draft <- c.draft ctx base
  let base <- updateBase draft
  match ← bundleBehind ctx.module ctx.registry c.depth false base.type with
  | .hidden => throw { value := .updateOfHidden, span := draft.span }
  | .absent => throw { value := .updateOfNonBundle, span := draft.span }
  | .found declared _ =>
      return .ofTerm (← c.updateFields ctx base.type declared span [] base fields)

/-!
## Settling
-/

def tupleTerm (items : List Term) (span : Span) : Term :=
  { type := .tuple (items.map Typed.type), node := .product items, span }

def settleTuple (c : Checker) (ctx : Context) (expected : Option Ty) (items : List Draft)
    (span : Span) : Inferring ExprError Term := do
  match expected with
  | some (.tuple required) =>
      if required.length ≠ items.length then
        let i <- Inferring.state
        throw {
          value := .tupleSize required.length items.length
            (ctx.describeInferred i (.tuple required))
          span }
      let terms <- c.settleEach ctx ((required.map some).zip items)
      return tupleTerm terms span
  | _ =>
      match expected.filter Ty.isStructural with
      | some other =>
          let i <- Inferring.state
          throw { value := .tupleForNonTuple (ctx.describeInferred i other), span }
      | none =>
          let terms <- c.settleAllAlone ctx items
          ctx.fit c.depth expected (tupleTerm terms span)

def takeField? (name : String) (fields : List (Source.Ident × Draft)) :
    Option (Draft × List (Source.Ident × Draft)) :=
  (fields.find? fun field => field.1.name == name).map fun field =>
    (field.2, fields.filter fun other => other.1.name != name)

def firstWritten : List (Source.Ident × Draft) -> Option Source.Ident
  | [] => none
  | (name, _) :: rest =>
      match firstWritten rest with
      | none => some name
      | some other => some (if Nat.ble name.span.start other.span.start then name else other)

def settleFields (c : Checker) (ctx : Context) (span : Span) :
    List (String × Field Ty) -> List (Source.Ident × Draft) ->
      Inferring ExprError (List (String × Term) × List (Source.Ident × Draft))
  | [], given => return ([], given)
  | (name, field) :: rest, given => do
      match takeField? name given with
      | none =>
          let i <- Inferring.state
          throw { value := .missingField name (ctx.describeInferred i field.type), span }
      | some (draft, others) =>
          let term <- c.settle ctx (some field.type) draft
          let (terms, unused) <- settleFields c ctx span rest others
          return ((name, term) :: terms, unused)

def settleBundleAt (c : Checker) (ctx : Context) (declared : List (String × Field Ty))
    (fields : List (Source.Ident × Draft)) (span : Span) : Inferring ExprError Term := do
  let (terms, unused) <- c.settleFields ctx span (Ty.inSlotOrder declared) fields
  match firstWritten unused with
  | some extra =>
      let i <- Inferring.state
      throw {
        value := .superfluousField extra.name (ctx.describeInferred i (.bundle declared))
        span := extra.span }
  | none =>
      return {
        type := Ty.bundleOf (terms.map fun item => (item.1, item.2.type))
        node := .product (terms.map Prod.snd)
        span }

/-- Settle a bundle. Without fields it may be unit. -/
def settleBundle (c : Checker) (ctx : Context) (expected : Option Ty)
    (fields : List (Source.Ident × Draft)) (span : Span) : Inferring ExprError Term := do
  let expected <- requireType expected span
  match expected with
  | .bundle declared => c.settleBundleAt ctx declared fields span
  | _ =>
      if expected.isUnit && fields.isEmpty then return .unit span
      let i <- Inferring.state
      throw { value := .bundleForNonBundle (ctx.describeInferred i expected), span }

def settleArrayAlone (c : Checker) (ctx : Context) (items : List Draft) (span : Span) :
    Judge ExprError Term := do
  match items with
  | [] => throw { value := .typeRequired, span }
  | first :: rest =>
      let first <- c.settleAlone ctx first
      let others <- (c.settleEach ctx (rest.map fun item => (some first.type, item))
        ).withoutInference
      return { type := Core.arrayOf first.type, node := .array (first :: others), span }

def arrayElement? : Ty -> Option Ty
  | .named name [element] => if name = Symbol.core "Array" then some element else none
  | _ => none

/-- Whether an array might fit into a type other than an array type. -/
def mayHoldArray : Ty -> Bool
  | .named _ _ | .param _ _ | .any => true
  | _ => false

def settleArray (c : Checker) (ctx : Context) (expected : Option Ty) (items : List Draft)
    (span : Span) : Inferring ExprError Term := do
  match expected with
  | none => c.settleArrayAlone ctx items span
  | some type =>
      match arrayElement? type with
      | some element =>
          let terms <- c.settleEach ctx (items.map fun item => (some element, item))
          let element <- requireCertain element span
          return { type := Core.arrayOf element, node := .array terms, span }
      | none =>
          if mayHoldArray type then
            let array <- c.settleArrayAlone ctx items span
            ctx.fit c.depth expected array
          else
            let i <- Inferring.state
            throw { value := .arrayForNonArray (ctx.describeInferred i type), span }

end Checker
end TypeChecker
