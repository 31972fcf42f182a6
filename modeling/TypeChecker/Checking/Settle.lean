import TypeChecker.Checking.Aggregate
import TypeChecker.Checking.Branching
import TypeChecker.Checking.Number
import TypeChecker.Checking.Reference

/-!
# Checking expressions

Drafting and settling by kind of construct. When a draft does not fit the expected
type, it may still be boxed into it, or lifted into it if it is a case of a union.
-/

namespace TypeChecker

/-- The last resort when a draft does not fit the expected type. -/
inductive Resort where
  | box (name : Symbol) (args : List Ty)
  | lift (union : Symbol)

namespace Checker

def draftStep (c : Checker) (ctx : Context) (expr : Source.Expr) : Judge ExprError Draft :=
  let span := expr.span
  match expr.value with
  | .ref ref => c.draftRef ctx ref span
  | .call callee arg => c.draftCall ctx callee arg span
  | .operator op left right => c.draftOperator ctx op left right span
  | .cast value target => c.draftCast ctx value target span
  | .get base field => c.draftGet ctx base field span
  | .lambda lambda => return { value := .lambda lambda ctx.locals, span }
  | .tuple items => c.draftTuple ctx items span
  | .bundle fields => c.draftBundle ctx fields span
  | .update base fields => c.draftUpdate ctx base fields span
  | .array items => c.draftArray ctx items span
  | .block bindings result => c.draftBlock ctx bindings result span
  | .switch arg branches => c.draftSwitch ctx arg branches span
  | .multiSwitch args branches => c.draftMultiSwitch ctx args branches span
  | .conditional condition yes elseIfs no =>
      c.draftConditional ctx condition yes elseIfs no span
  | .int literal => draftInteger literal span
  | .float bits => return .ofTerm { type := Ty.core "Float", node := .float bits, span }
  | .text value => return .ofTerm { type := Ty.core "String", node := .text value, span }
  | .char value => return .ofTerm { type := Ty.core "Char", node := .char value, span }

def settleDirectly (c : Checker) (ctx : Context) (expected : Option Ty) (draft : Draft) :
    Inferring ExprError Term :=
  let span := draft.span
  match draft.value with
  | .typed term => ctx.fit c.depth expected term
  | .lambda lambda locals => c.settleLambda ctx expected lambda locals span
  | .integer value => settleInteger ctx expected value span
  | .reference target typeArgs => c.settleRef ctx expected target typeArgs span
  | .undecided _ options => c.settleUndecided ctx expected options span
  | .tuple items => c.settleTuple ctx expected items span
  | .bundle fields => c.settleBundle ctx expected fields span
  | .array items => c.settleArray ctx expected items span
  | .block bindings result => c.settleBlock ctx expected bindings result span
  | .switch arg branches reactive => c.settleSwitch ctx expected arg branches reactive span
  | .multiSwitch args branches => c.settleMultiSwitch ctx expected args branches span

def resortTarget? (i : Inference) : Ty -> Option (Symbol × List Ty)
  | .named name args => some (name, args)
  | t => (i.certain? t).bind Ty.named?

/-- The last resort for a draft at an expected type. Boxes that restrict who may use
them are not filled unasked. -/
def resort? (ctx : Context) (i : Inference) (expected : Ty) (draft : Draft) : Option Resort := do
  let (name, args) <- resortTarget? i expected
  let d <- Table.get? ctx.registry name
  match d.definition with
  | .boxed boxed => if boxed.guarded || boxed.hidden then none else some (.box name args)
  | .union _ =>
      let term <- draft.term?
      if isCaseOf ctx term.type name then some (.lift name) else none
  | .native => none

def settleLifted (c : Checker) (ctx : Context) (expected : Option Ty) (draft : Draft)
    (union : Symbol) (error : ExprError) : Inferring ExprError Term := do
  match draft.term? with
  | none => throw error
  | some term =>
      let lifted := Registry.lift ctx.registry term
      if (lifted.type.named?.map Prod.fst) == some union then ctx.fit c.depth expected lifted
      else throw error

def settleStep (c : Checker) (ctx : Context) (expected : Option Ty) (draft : Draft) :
    Inferring ExprError Term := do
  let i <- Inferring.state
  match ← (c.settleDirectly ctx expected draft).restoring.attempt with
  | .ok term => return term
  | .error error =>
      if error.value.isInternal then throw error
      match expected.bind fun type => resort? ctx i type draft with
      | none => throw error
      | some (.box name args) => c.inject ctx draft name args true draft.span
      | some (.lift union) => c.settleLifted ctx expected draft union error

end Checker

mutual

/-- Check an expression as far as it can be checked without an expected type. -/
def draftExpr : Nat -> Context -> Source.Expr -> Judge ExprError Draft
  | 0, _, _ => Judge.exhausted
  | depth + 1, ctx, expr =>
      Checker.draftStep ⟨depth, draftExpr depth, settleDraft depth⟩ ctx expr

/-- Give a draft a type, the expected one if there is one. -/
def settleDraft : Nat -> Context -> Option Ty -> Draft -> Inferring ExprError Term
  | 0, _, _, _ => Inferring.exhausted
  | depth + 1, ctx, expected, draft =>
      Checker.settleStep ⟨depth, draftExpr depth, settleDraft depth⟩ ctx expected draft

end

/-- The checker for expressions up to a depth. -/
def checkerAt (depth : Nat) : Checker where
  depth := depth
  draft := draftExpr depth
  settle := settleDraft depth

end TypeChecker
