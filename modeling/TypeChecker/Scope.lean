import TypeChecker.Names
import TypeChecker.Registry.Params
import TypeChecker.Resolve.Written

/-!
# Signatures in scope

Before any body is checked, the signatures a module can see are collected: its own
functions and constants, then the public ones of the modules it imports. Functions
of one name form an overload set, in which no two may look the same.
-/

namespace TypeChecker

structure Signature where
  symbol : Symbol
  /-- The position among the functions of this name in the declaring module. -/
  index : Nat
  isPublic : Bool
  doc : String
  params : List Param
  bounds : Bounds
  input : Ty
  output : Ty
  span : Span

namespace Signature

def type (s : Signature) : Ty := .func s.input s.output

def arity (s : Signature) : Nat := s.params.length

def describe (s : Signature) (module : String) : String :=
  let names := s.params.map Param.name
  s.symbol.name ++ "[" ++ ", ".intercalate names ++ "]: " ++ s.type.describe module names

def listedBefore (a b : Signature) : Bool :=
  match a.symbol.order b.symbol with
  | .lt => true
  | .gt => false
  | .eq => Nat.ble a.index b.index

/-- Whether two overloads could not be told apart. -/
def clashes (existing added : Signature) : Bool :=
  existing.arity == added.arity && existing.type.alike added.type

end Signature

structure ConstantSignature where
  symbol : Symbol
  type : Ty
  isPublic : Bool
  doc : String
  span : Span

structure Scope where
  module : String
  functions : List Signature := []
  constants : Table Symbol ConstantSignature := []

namespace Scope

def overloads (scope : Scope) (name : String) : List Signature :=
  scope.functions.filter fun f => f.symbol.name == name

def listing (scope : Scope) : List Signature :=
  scope.functions.mergeSort Signature.listedBefore

def own? (scope : Scope) (name : String) (index : Nat) : Option Signature :=
  (scope.overloads name).find? fun f => f.symbol.module == scope.module && f.index == index

/-!
## Reading signatures
-/

def badType (error : TypeError) : SignatureError :=
  { value := .badType error, span := error.span }

def paramError (name : String) (error : DeclError) : SignatureError :=
  match error.value with
  | .repeatedParam param => { value := .repeatedParam param, span := error.span }
  | .badName param => { value := .badName param, span := error.span }
  | _ => { value := .badName name, span := error.span }

/-- Read the bounds of parameters, the first of which has the given index. A bound
may mention the parameters, but not be one. -/
def readBounds (ctx : TypeContext) (limits : Limits) (depth : Nat) :
    Nat -> Bounds -> List Source.ParamDecl -> Judge TypeError Bounds
  | _, bounds, [] => return bounds
  | index, bounds, param :: rest => do
      match param.bound with
      | none => readBounds ctx limits depth (index + 1) bounds rest
      | some (side, written) => do
          let t <- ctx.resolve limits depth written
          if let .param _ _ := t then
            throw { value := .parameterAsBound (ctx.describe t), span := written.span }
          let bounds :=
            match side with
            | .above => { bounds with lower := Table.put index t bounds.lower }
            | .below => { bounds with upper := Table.put index t bounds.upper }
          readBounds ctx limits depth (index + 1) bounds rest

def readFunction (registry : Registry) (limits : Limits) (depth : Nat) (module : String)
    (index : Nat) (decl : Source.FunctionDecl) : Judge SignatureError Signature := do
  let name := decl.name.name
  if !isValueName name then
    throw { value := .badName name, span := decl.name.span }
  let params <- Judge.ofExcept ((Param.read decl.params).mapError (paramError name))
  let bare : TypeContext := { module := module, registry := registry, params := params }
  let bounds <- (readBounds bare limits depth 0 {} decl.params).mapError badType
  let ctx : TypeContext := { bare with bounds }
  let input <- (ctx.resolve limits depth decl.input).mapError badType
  let output <- (ctx.resolve limits depth decl.output).mapError badType
  return {
    symbol := ⟨module, name⟩
    index
    isPublic := decl.isPublic
    doc := decl.doc
    params
    bounds
    input
    output
    span := decl.span }

def readConstant (registry : Registry) (limits : Limits) (depth : Nat) (module : String)
    (decl : Source.ConstantDecl) : Judge SignatureError ConstantSignature := do
  let name := decl.name.name
  if !isValueName name then
    throw { value := .badName name, span := decl.name.span }
  let ctx : TypeContext := { module := module, registry := registry }
  let type <- (ctx.resolve limits depth decl.type).mapError badType
  return {
    symbol := ⟨module, name⟩
    type
    isPublic := decl.isPublic
    doc := decl.doc
    span := decl.span }

/-- Number functions among those of their name, in declaration order; `earlier` holds
the names already met. -/
def numberFrom (earlier : List String) :
    List Source.FunctionDecl -> List (Nat × Source.FunctionDecl)
  | [] => []
  | decl :: rest =>
      (earlier.count decl.name.name, decl) :: numberFrom (decl.name.name :: earlier) rest

def numbered (module : Source.Module) : List (Nat × Source.FunctionDecl) :=
  numberFrom [] module.functions

/-!
## Collecting
-/

structure Collected where
  scope : Scope
  problems : List Problem := []

namespace Collected

def report (c : Collected) (error : SignatureError) : Collected :=
  { c with problems := c.problems ++ [.signature error] }

/-- Add an overload unless it clashes with one already there. Only clashes of the
module's own functions are reported. -/
def addFunction (c : Collected) (s : Signature) : Collected :=
  match (c.scope.overloads s.symbol.name).find? fun existing => existing.clashes s with
  | none => { c with scope := { c.scope with functions := c.scope.functions ++ [s] } }
  | some existing =>
      if s.symbol.module = c.scope.module then
        c.report
          { value := .overloadClash s.symbol.name existing.symbol.module, span := s.span }
      else c

def addConstant (c : Collected) (s : ConstantSignature) : Collected :=
  { c with scope := { c.scope with constants := Table.put s.symbol s c.scope.constants } }

def ownFunction (registry : Registry) (limits : Limits) (depth : Nat) (c : Collected)
    (item : Nat × Source.FunctionDecl) : Bounded Collected := do
  match ← (readFunction registry limits depth c.scope.module item.1 item.2).outcome with
  | .ok s => return c.addFunction s
  | .error e => return c.report e

def ownConstant (registry : Registry) (limits : Limits) (depth : Nat) (c : Collected)
    (decl : Source.ConstantDecl) : Bounded Collected := do
  match ← (readConstant registry limits depth c.scope.module decl).outcome with
  | .ok s =>
      if Table.contains c.scope.constants s.symbol then
        return c.report { value := .repeatedConstant s.symbol.name, span := decl.name.span }
      else return c.addConstant s
  | .error e => return c.report e

/-- Add a public function of another module; one without a valid signature is left out. -/
def importFunction (registry : Registry) (limits : Limits) (depth : Nat) (module : String)
    (c : Collected) (item : Nat × Source.FunctionDecl) : Bounded Collected := do
  if !item.2.isPublic then
    return c
  match ← (readFunction registry limits depth module item.1 item.2).outcome with
  | .ok s => return c.addFunction s
  | .error _ => return c

/-- Add a public constant of another module; the first of a name counts. -/
def importConstant (registry : Registry) (limits : Limits) (depth : Nat) (module : String)
    (c : Collected) (decl : Source.ConstantDecl) : Bounded Collected := do
  if !decl.isPublic then
    return c
  match ← (readConstant registry limits depth module decl).outcome with
  | .ok s => if Table.contains c.scope.constants s.symbol then return c else return c.addConstant s
  | .error _ => return c

def importModule (registry : Registry) (limits : Limits) (depth : Nat) (c : Collected)
    (other : Source.Module) : Bounded Collected := do
  let c <- (numbered other).foldlM (importFunction registry limits depth other.name) c
  other.constants.foldlM (importConstant registry limits depth other.name) c

end Collected

/-- Collect the signatures visible in a module. -/
def collect (registry : Registry) (limits : Limits) (depth : Nat) (module : Source.Module)
    (imported : List Source.Module) : Bounded Collected := do
  let c : Collected := { scope := { module := module.name } }
  let c <- (numbered module).foldlM (Collected.ownFunction registry limits depth) c
  let c <- module.constants.foldlM (Collected.ownConstant registry limits depth) c
  imported.foldlM (Collected.importModule registry limits depth) c

end Scope
end TypeChecker
