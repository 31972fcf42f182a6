import TypeChecker.Checking.Coverage
import TypeChecker.Checking.Destructure
import TypeChecker.Checking.Checker
import TypeChecker.Core

/-!
# Switches and conditionals

A switch is over the union behind the type of its argument. A conditional is a
switch over truth values with a branch for `Yes` and a default branch.
-/

namespace TypeChecker

/-- A union found behind a type. -/
structure UnionView where
  name : Symbol
  args : List Ty
  cases : List Case
  reactive : Bool := false

structure CaseView where
  index : Nat
  type : Ty

namespace Context

/-- The union behind a type, through boxed types and, with `cross`, one reactive layer. -/
def unionBehind (ctx : Context) : Nat -> Bool -> Ty -> Bounded (Option UnionView)
  | 0, _, _ => exhausted
  | depth + 1, cross, t =>
      match (if cross then t.reactiveArg? else none) with
      | some arg => do
          return (← unionBehind ctx depth false arg).map fun view => { view with reactive := true }
      | none =>
          match t with
          | .named name args =>
              match (Table.get? ctx.registry name).map Declaration.definition with
              | some (.union cases) => return some { name := name, args := args, cases := cases }
              | some (.boxed _) =>
                  match t.unbox ctx.module ctx.registry with
                  | .inner inner => unionBehind ctx depth cross inner
                  | _ => return none
              | _ => return none
          | _ => return none

def caseSymbol (ctx : Context) (ref : Source.RefName) : Symbol :=
  match ref.module with
  | some module => ⟨module, ref.name⟩
  | none =>
      if Table.contains ctx.registry ⟨ctx.module, ref.name⟩ then ⟨ctx.module, ref.name⟩
      else Symbol.core ref.name

def caseNamed (ctx : Context) (union : UnionView) (symbol : Symbol) (span : Span) :
    Except ExprError CaseView :=
  if Table.contains ctx.registry symbol then
    match union.cases.zipIdx.find? fun item => item.1.name == symbol with
    | some (found, index) =>
        return { index, type := .named symbol (found.params.filterMap fun i => union.args[i]?) }
    | none =>
        throw {
          value := .notCaseOfUnion (ctx.describe (.named union.name union.args))
            (symbol.seenFrom ctx.module)
          span }
  else throw (TypeError.inExpr { value := .notFound symbol.text, span })

def caseOf (ctx : Context) (union : UnionView) (ref : Source.InlineRef) :
    Except ExprError CaseView :=
  if ref.typeArgs.isEmpty then
    ctx.caseNamed union (ctx.caseSymbol ref.name) ref.name.span
  else throw { value := .typeArgsOnCase, span := ref.name.span }

def isWildcard (ref : Source.InlineRef) : Bool :=
  ref.typeArgs.isEmpty && ref.name.module.isNone && ref.name.name == "_"

/-- The cases a row of references names, with wildcards. -/
def rowOf (ctx : Context) :
    List Source.InlineRef -> List UnionView -> Except ExprError (List (Option CaseView))
  | ref :: refs, union :: unions => do
      let entry <- if isWildcard ref then pure none else some <$> ctx.caseOf union ref
      return entry :: (← rowOf ctx refs unions)
  | _, _ => return []

end Context

namespace Checker

def switchArg (c : Checker) (ctx : Context) (cross : Bool) (arg : Source.Expr) :
    Judge ExprError (Term × UnionView) := do
  let arg <- c.settleAlone ctx (← c.draft ctx arg)
  match ← ctx.unionBehind c.depth cross arg.type with
  | some union => return (arg, union)
  | none => throw { value := .switchOverNonUnion (ctx.describe arg.type), span := arg.span }

/-!
## Switches over one union
-/

def draftCases (c : Checker) (ctx : Context) (union : UnionView) (branch : Source.Branch) :
    List Nat -> List Source.InlineRef -> Judge ExprError (List (CaseBranch Draft) × List Nat)
  | taken, [] => return ([], taken)
  | taken, ref :: rest => do
      let case <- ctx.caseOf union ref
      if taken.contains case.index then
        throw { value := .caseTakenTwice, span := branch.span }
      let type := if union.reactive then .named reactive [case.type] else case.type
      let pattern <- ctx.destructure? c.depth branch.pattern type
      let value <- c.draft (ctx.withPattern? pattern) branch.value
      let (more, taken) <- draftCases c ctx union branch (case.index :: taken) rest
      return ({ case := some case.index, pattern, value } :: more, taken)

/-- The branches of a switch, the cases they take, and where the default branch is. -/
structure Branches where
  branches : List (CaseBranch Draft)
  taken : List Nat
  default : Option Span

def draftBranches (c : Checker) (ctx : Context) (union : UnionView) :
    List Nat -> Option Span -> List Source.Branch -> Judge ExprError Branches
  | taken, default, [] => return { branches := [], taken, default }
  | taken, default, branch :: rest => do
      if branch.types.isEmpty then
        if default.isSome then
          throw { value := .secondDefault, span := branch.span }
        let value <- c.draft ctx branch.value
        let drafted <- draftBranches c ctx union taken (some branch.span) rest
        return { drafted with
          branches := { case := none, pattern := none, value } :: drafted.branches }
      else
        let (own, taken) <- c.draftCases ctx union branch taken branch.types
        let drafted <- draftBranches c ctx union taken default rest
        return { drafted with branches := own ++ drafted.branches }

def draftSwitch (c : Checker) (ctx : Context) (arg : Source.Expr) (branches : List Source.Branch)
    (span : Span) : Judge ExprError Draft := do
  let (arg, union) <- c.switchArg ctx true arg
  let drafted <- c.draftBranches ctx union [] none branches
  let names := union.cases.map fun case => case.name.seenFrom ctx.module
  Coverage.requireCases names drafted.taken drafted.default span
  return { value := .switch arg drafted.branches union.reactive, span }

def settleBranches (c : Checker) (ctx : Context) (expected : Ty) :
    List (CaseBranch Draft) -> Inferring ExprError (List (CaseBranch Term))
  | [] => return []
  | branch :: rest => do
      let value <- c.settle ctx (some expected) branch.value
      let more <- settleBranches c ctx expected rest
      return { case := branch.case, pattern := branch.pattern, value } :: more

def settleSwitch (c : Checker) (ctx : Context) (expected : Option Ty) (arg : Term)
    (branches : List (CaseBranch Draft)) (reactive : Bool) (span : Span) :
    Inferring ExprError Term := do
  let expected <- requireType expected span
  let branches <- c.settleBranches ctx expected branches
  let type <- requireCertain expected span
  return { type, node := .switch arg branches reactive, span }

/-!
## Switches over several unions
-/

def switchArgs (c : Checker) (ctx : Context) :
    List Source.Expr -> Judge ExprError (List (Term × UnionView))
  | [] => return []
  | arg :: rest => do
      let first <- c.switchArg ctx false arg
      return first :: (← switchArgs c ctx rest)

/-- The branches of a multi-switch, the combinations they cover, and where the default is. -/
structure Rows where
  branches : List (CasesBranch Draft)
  covered : List Coverage.Combination
  default : Option Span

/-- Draft a branch of a multi-switch with one reference for each union, after branches that
cover the given combinations. -/
def draftRow (c : Checker) (ctx : Context) (unions : List UnionView)
    (covered : List Coverage.Combination) (branch : Source.MultiBranch)
    (refs : List Source.InlineRef) :
    Judge ExprError (CasesBranch Draft × List Coverage.Combination) := do
  if refs.length ≠ unions.length then
    throw { value := .wrongCaseCount unions.length refs.length, span := branch.span }
  let entries <- ctx.rowOf refs unions
  let row := entries.map fun entry => entry.map CaseView.index
  if row.all Option.isNone then
    throw { value := .onlyWildcards, span := branch.span }
  let counts := unions.map fun union => union.cases.length
  let covered <- Coverage.cover branch.span covered (Coverage.expand counts row)
  let types := entries.map fun entry => (entry.map CaseView.type).getD .unit
  let pattern <- ctx.destructure? c.depth branch.pattern (.tuple types)
  let value <- c.draft (ctx.withPattern? pattern) branch.value
  return ({ cases := some row, pattern, value }, covered)

def draftRows (c : Checker) (ctx : Context) (unions : List UnionView) :
    List Coverage.Combination -> Option Span -> List Source.MultiBranch -> Judge ExprError Rows
  | covered, default, [] => return { branches := [], covered, default }
  | covered, default, branch :: rest => do
      match branch.types with
      | none =>
          if default.isSome then
            throw { value := .secondDefault, span := branch.span }
          let value <- c.draft ctx branch.value
          let drafted <- draftRows c ctx unions covered (some branch.span) rest
          return { drafted with
            branches := { cases := none, pattern := none, value } :: drafted.branches }
      | some refs =>
          let (own, covered) <- c.draftRow ctx unions covered branch refs
          let drafted <- draftRows c ctx unions covered default rest
          return { drafted with branches := own :: drafted.branches }

def draftMultiSwitch (c : Checker) (ctx : Context) (args : List Source.Expr)
    (branches : List Source.MultiBranch) (span : Span) : Judge ExprError Draft := do
  let args <- c.switchArgs ctx args
  let unions := args.map Prod.snd
  let drafted <- c.draftRows ctx unions [] none branches
  let counts := unions.map fun union => union.cases.length
  Coverage.requireCombinations counts drafted.covered drafted.default span
  return { value := .multiSwitch (args.map Prod.fst) drafted.branches, span }

def settleRows (c : Checker) (ctx : Context) (expected : Ty) :
    List (CasesBranch Draft) -> Inferring ExprError (List (CasesBranch Term))
  | [] => return []
  | branch :: rest => do
      let value <- c.settle ctx (some expected) branch.value
      let more <- settleRows c ctx expected rest
      return { cases := branch.cases, pattern := branch.pattern, value } :: more

def settleMultiSwitch (c : Checker) (ctx : Context) (expected : Option Ty) (args : List Term)
    (branches : List (CasesBranch Draft)) (span : Span) : Inferring ExprError Term := do
  let expected <- requireType expected span
  let branches <- c.settleRows ctx expected branches
  let type <- requireCertain expected span
  return { type, node := .multiSwitch args branches, span }

/-!
## Conditionals
-/

def elsePart (no : Source.Expr) (elseIfs : List Source.ElseIf) : Source.Expr :=
  elseIfs.foldr
    (fun item no => { value := .conditional item.condition item.yes [] no, span := item.span }) no

def yesIndex (ctx : Context) : Nat :=
  match (Table.get? ctx.registry (Symbol.core "Bool")).bind Declaration.cases? with
  | some cases => (cases.findIdx? fun case => case.name == Symbol.core "Yes").getD 0
  | none => 0

/-- Settle a condition as a truth value, or as one that changes over time. -/
def settleCondition (c : Checker) (ctx : Context) (condition : Draft) :
    Judge ExprError (Term × Bool) := do
  match ← (c.settleTo ctx Core.bool condition).attempt with
  | .ok term => return (term, false)
  | .error error =>
      if error.value.isInternal then throw error
      let term <- (c.settleTo ctx (.named reactive [Core.bool]) condition).mapError fun _ => error
      return (term, true)

def draftConditional (c : Checker) (ctx : Context) (condition yes : Source.Expr)
    (elseIfs : List Source.ElseIf) (no : Source.Expr) (span : Span) : Judge ExprError Draft := do
  let (condition, reactive) <- c.settleCondition ctx (← c.draft ctx condition)
  let yes <- c.draft ctx yes
  let no <- c.draft ctx (elsePart no elseIfs)
  return {
    value := .switch condition
      [{ case := some (yesIndex ctx), pattern := none, value := yes },
        { case := none, pattern := none, value := no }]
      reactive
    span }

end Checker
end TypeChecker
