import TypeChecker.Fault.Report
import TypeChecker.Program.Body
import TypeChecker.Program.ImportGraph
import TypeChecker.Schema

/-!
# Checking programs

The types of all modules are registered together. Signatures, bodies and effects
are checked module by module, each module after those it imports. Checking goes on
past what is wrong, but a module with a problem yields no result, and those that
depend on it are skipped.
-/

namespace TypeChecker

structure CheckedModule where
  name : String
  /-- The modules imported directly, other than the core module. -/
  imported : List String
  functions : List CheckedFunction
  constants : List CheckedConstant
  effects : List Term

abbrev ModuleFaults := List (String × Problem)

/-- The result of checking a program. -/
structure Verdict where
  order : List String := []
  modules : Table String CheckedModule := []
  registry : Registry := []
  data : DataTable := { ids := [], schemas := [] }
  problems : ModuleFaults := []

namespace Verdict

def isClean (v : Verdict) : Bool := v.problems.isEmpty

def problemsOf (v : Verdict) (module : String) : List Problem :=
  (v.problems.filter fun item => item.1 == module).map Prod.snd

def plain (v : Verdict) : String :=
  "\n".intercalate (v.problems.map fun item => item.2.plain)

end Verdict

/-!
## Imports
-/

/-- The modules of a program that take part, and their imports. The number of a
module in the graph is its position among those accepted. -/
structure Intake where
  graph : ImportGraph := .empty
  accepted : List Source.Module := []
  problems : ModuleFaults := []

namespace Intake

def report (p : Intake) (module : String) (fault : ProgramFault) : Intake :=
  { p with problems := p.problems ++ [(module, .program fault)] }

def accept (p : Intake) (module : Source.Module) : Intake :=
  if module.name = coreModule || (p.graph.find? module.name).isSome then
    p.report module.name (.repeatedModule module.name)
  else
    { p with
      graph := (p.graph.addModule module.name).1
      accepted := p.accepted ++ [module] }

def link (id : Nat) (name : String) (p : Intake) (imported : Source.Ident) : Intake :=
  if imported.name = coreModule then p
  else
    match p.graph.find? imported.name with
    | some other => { p with graph := p.graph.addImport id other }
    | none => p.report name (.unknownImport imported.name name imported.span)

def ofModules (modules : List Source.Module) : Intake :=
  let p := modules.foldl accept {}
  p.accepted.zipIdx.foldl
    (fun p item => item.1.imports.foldl (link item.2 item.1.name) p) p

def importsOf (p : Intake) (id : Nat) : List Source.Module :=
  (p.graph.importsOf id).filterMap fun other => p.accepted[other]?

end Intake

/-!
## Modules
-/

namespace Program

/-- The signatures visible in the module `name` of a program. Of several modules of
one name the first counts; a module that is not there declares nothing. -/
def scopeOf (registry : Registry) (limits : Limits) (depth : Nat) (modules : List Source.Module)
    (name : String) : Bounded Scope.Collected :=
  let find? := fun wanted => modules.find? fun m : Source.Module => m.name == wanted
  let module := (find? name).getD { name := name }
  let imported := module.imports.filterMap fun other => find? other.name
  Scope.collect registry limits depth module (Core.module :: imported)

def checkModule (registry : Registry) (limits : Limits) (depth : Nat) (module : Source.Module)
    (imported : List Source.Module) : Bounded (CheckedModule × List Problem) := do
  let collected <- Scope.collect registry limits depth module (Core.module :: imported)
  let b : BodyContext := { registry, scope := collected.scope, limits, depth }
  let (functions, inFunctions) <-
    BodyContext.checkEach (fun item => b.checkFunction item.1 item.2) (b.signedFunctions module)
  let (constants, inConstants) <-
    BodyContext.checkEach (fun item => b.checkConstant item.1 item.2) (b.signedConstants module)
  let (effects, inEffects) <- BodyContext.checkEach b.checkEffect module.effects
  let checked : CheckedModule :=
    { name := module.name, imported := imported.map Source.Module.name, functions, constants,
      effects }
  return (checked, collected.problems ++ inFunctions ++ inConstants ++ inEffects)

structure Setting where
  intake : Intake
  registration : Registration
  dataProblems : List (Symbol × DataError)
  limits : Limits
  depth : Nat

def Setting.declarationProblems (s : Setting) (module : String) : List Problem :=
  s.registration.problemsOf module ++
    (s.dataProblems.filter fun item => item.1.module == module).map fun item => .data item.2

/-- The modules checked so far. -/
structure Progress where
  order : List String := []
  modules : Table String CheckedModule := []
  problems : ModuleFaults := []
  failed : List String := []

namespace Progress

def skip (p : Progress) (module dependency : String) : Progress :=
  { p with
    order := p.order ++ [module]
    problems := p.problems ++ [(module, .program (.failedDependency module dependency))]
    failed := module :: p.failed }

/-- Take up the result for a module; with problems, or with `broken` imports, it fails. -/
def finish (p : Progress) (checked : CheckedModule) (problems : List Problem) (broken : Bool) :
    Progress :=
  let name := checked.name
  let p := { p with
    order := p.order ++ [name]
    problems := p.problems ++ problems.map fun problem => (name, problem) }
  if broken || !problems.isEmpty then { p with failed := name :: p.failed }
  else { p with modules := Table.put name checked p.modules }

def step (s : Setting) (p : Progress) (id : Nat) : Bounded Progress := do
  match s.intake.accepted[id]? with
  | none => return p
  | some module =>
      let imported := s.intake.importsOf id
      match imported.find? fun other => p.failed.contains other.name with
      | some dependency => return p.skip module.name dependency.name
      | none =>
          let (checked, problems) <-
            checkModule s.registration.registry s.limits s.depth module imported
          let broken := s.intake.problems.any fun item => item.1 == module.name
          return p.finish checked (s.declarationProblems module.name ++ problems) broken

end Progress

/-- Check the modules of a program. Imports in a circle end the check at once. -/
def check (limits : Limits) (depth : Nat) (modules : List Source.Module) : Bounded Verdict := do
  let intake := Intake.ofModules modules
  match intake.graph.order with
  | .error path =>
      let fault := (path.headD "", Problem.program (.importCycle path))
      return { problems := intake.problems ++ [fault] }
  | .ok order =>
      let registration <- Registration.ofModules limits depth (Core.module :: modules)
      let (data, dataProblems) := DataTable.ofRegistry registration.registry
      let setting : Setting :=
        { intake := intake
          registration := registration
          dataProblems := dataProblems
          limits := limits
          depth := depth }
      let done <- order.foldlM (Progress.step setting) {}
      return {
        order := done.order
        modules := done.modules
        registry := registration.registry
        data
        problems := intake.problems ++ done.problems }

end Program
end TypeChecker
