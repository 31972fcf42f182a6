import TypeChecker.Registry.Collect
import TypeChecker.Registry.Tags
import TypeChecker.Resolve.Convert

/-!
# Building declarations

Each listed declaration is turned into a registry entry: tags, bounds, defaults
and the definition are read, with the types of all listed declarations known.
-/

namespace TypeChecker
namespace Entry

def trailingDefaults (params : List Source.ParamDecl) : Nat :=
  (params.reverse.takeWhile fun param => param.default.isSome).length

def arityRange (entry : Entry) : Nat × Nat :=
  (entry.params.length - trailingDefaults entry.decl.head.params, entry.params.length)

def arities (entries : List Entry) : Arities := fun name =>
  (entries.find? fun entry => entry.symbol = name).map arityRange

def casesOf (entries : List Entry) (index : Nat) : List Case :=
  entries.filterMap fun entry =>
    match entry.owner with
    | some owner =>
        if owner.index = index then some { name := entry.symbol, params := owner.mapping } else none
    | none => none

def membership? (entries : List Entry) (entry : Entry) : Option Membership :=
  match entry.owner with
  | none => none
  | some owner =>
      (entries[owner.index]?).map fun union =>
        { union := union.symbol
          arity := union.params.length
          variance := union.params.map Param.variance
          index := ((casesOf entries owner.index).findIdx? fun c => c.name = entry.symbol).getD 0
          params := owner.mapping }

def invalid (entry : Entry) (detail : TypeError) : Problem :=
  .decl { value := .invalid entry.symbol.text detail, span := entry.decl.head.span }

structure ParamTypes where
  bounds : Bounds := {}
  defaults : TypeMap := []

/-- Read the bound of the parameter at `index`. A bound may not itself be a parameter. -/
def readBound (scope : TypeScope) (index : Nat) (bounds : Bounds) :
    Option (Source.BoundSide × Source.TypeExpr) -> Except TypeError Bounds
  | none => return bounds
  | some (side, written) => do
      let t <- scope.read written
      if let .param _ _ := t then
        let fault := .parameterAsBound (t.describe scope.module scope.params)
        throw { value := fault, span := written.span }
      match side with
      | .above => return { bounds with lower := Table.put index t bounds.lower }
      | .below => return { bounds with upper := Table.put index t bounds.upper }

def readParamTypes (scope : TypeScope) :
    Nat -> ParamTypes -> List Source.ParamDecl -> Except TypeError ParamTypes
  | _, sofar, [] => return sofar
  | index, sofar, param :: rest => do
      let bounds <- readBound scope index sofar.bounds param.bound
      let defaults <-
        match param.default with
        | none => pure sofar.defaults
        | some written => do pure (Table.put index (← scope.read written) sofar.defaults)
      readParamTypes scope (index + 1) { bounds := bounds, defaults := defaults } rest

def readDefinition (scope : TypeScope) (entries : List Entry) (index : Nat) :
    Source.TypeDecl -> Except TypeError Definition
  | .union _ _ => return .union (casesOf entries index)
  | .boxed _ decl => do
      let inner <-
        match decl.inner with
        | none => pure .unit
        | some written => scope.read written
      return .boxed
        { inner
          implicit := decl.implicit
          weak := decl.weak
          guarded := decl.guarded
          hidden := decl.hidden }
  | .native _ => return .native

/-- The registry entry of the declaration at position `index` of the list. -/
def build (entries : List Entry) (limits : Limits) (index : Nat) (entry : Entry) :
    Except Problem Declaration := do
  let head := entry.decl.head
  let scope : TypeScope :=
    { module := entry.symbol.module
      params := entry.params.map Param.name
      arities := arities entries
      limits := limits }
  let data <- (DataId.ofTags head.tags).mapError Problem.decl
  let types <- (readParamTypes scope 0 {} head.params).mapError entry.invalid
  let definition <- (readDefinition scope entries index entry.decl).mapError entry.invalid
  return {
    doc := head.doc
    data := data
    params := entry.params
    bounds := types.bounds
    defaults := types.defaults
    definition := definition
    memberOf := membership? entries entry
    span := head.span }

def buildFrom (entries : List Entry) (limits : Limits) :
    Nat -> List Entry -> Registry × ModuleProblems
  | _, [] => ([], [])
  | index, entry :: rest =>
      let (registry, problems) := buildFrom entries limits (index + 1) rest
      match build entries limits index entry with
      | .ok d => (Table.put entry.symbol d registry, problems)
      | .error problem => (registry, (entry.symbol.module, problem) :: problems)

end Entry

def Declaration.complete (registry : Registry) (d : Declaration) : Declaration :=
  let completeMap := fun map : TypeMap => map.map fun item => (item.1, item.2.complete registry)
  { d with
    bounds := { lower := completeMap d.bounds.lower, upper := completeMap d.bounds.upper }
    defaults := completeMap d.defaults
    definition :=
      match d.definition with
      | .boxed boxed => .boxed { boxed with inner := boxed.inner.complete registry }
      | other => other }

/-- Fill in omitted arguments everywhere in a registry. -/
def Registry.complete (registry : Registry) : Registry :=
  registry.map fun item => (item.1, item.2.complete registry)

end TypeChecker
