import TypeChecker.Text.Order

/-!
# Import graphs

The modules of a program and which of them each imports. Modules are put into an
order in which every module comes after the modules it imports; where that is
impossible there is a circle of imports to show.
-/

namespace TypeChecker

structure ImportNode where
  name : String
  imports : List Nat := []

/-- Modules are known by their position in the list. -/
structure ImportGraph where
  nodes : List ImportNode := []

namespace ImportGraph

def empty : ImportGraph := {}

def size (g : ImportGraph) : Nat := g.nodes.length

def find? (g : ImportGraph) (name : String) : Option Nat :=
  g.nodes.findIdx? fun node => node.name == name

def addModule (g : ImportGraph) (name : String) : ImportGraph × Nat :=
  match g.find? name with
  | some id => (g, id)
  | none => ({ nodes := g.nodes ++ [{ name := name }] }, g.size)

/-- Record an import once. A module may import itself. -/
def addImport (g : ImportGraph) (importer imported : Nat) : ImportGraph :=
  { nodes := g.nodes.modify importer fun node =>
      if node.imports.contains imported then node
      else { node with imports := node.imports ++ [imported] } }

def nameOf (g : ImportGraph) (id : Nat) : String :=
  (g.nodes[id]?.map ImportNode.name).getD ""

def importsOf (g : ImportGraph) (id : Nat) : List Nat :=
  (g.nodes[id]?.map ImportNode.imports).getD []

/-!
## Ordering
-/

def insertByName (g : ImportGraph) (id : Nat) : List Nat -> List Nat
  | [] => [id]
  | next :: rest =>
      if Text.order (g.nameOf id) (g.nameOf next) == .lt then id :: next :: rest
      else next :: g.insertByName id rest

def sortByName (g : ImportGraph) (ids : List Nat) : List Nat :=
  ids.foldl (fun sorted id => g.insertByName id sorted) []

/-- How far modules have been put into order: those taken, those that can be taken next,
and for each module the number of its imports that are still to be taken. -/
structure Sorting where
  order : List Nat
  queue : List Nat
  pending : List Nat

def isPending (pending : List Nat) (id : Nat) : Bool :=
  0 < pending[id]?.getD 0

/-- Count a module down if it imports the one taken. With its last import it is unlocked. -/
def countDown (g : ImportGraph) (taken : Nat) (state : List Nat × List Nat) (id : Nat) :
    List Nat × List Nat :=
  if isPending state.1 id && (g.importsOf id).contains taken then
    let left := state.1[id]?.getD 0 - 1
    (state.1.set id left, if left = 0 then state.2 ++ [id] else state.2)
  else state

def release (g : ImportGraph) (taken : Nat) (pending : List Nat) : List Nat × List Nat :=
  (List.range g.size).foldl (g.countDown taken) (pending, [])

def start (g : ImportGraph) : Sorting :=
  let pending := g.nodes.map fun node => node.imports.length
  { order := []
    queue := g.sortByName ((List.range g.size).filter fun id => !isPending pending id)
    pending }

/-- Take the first module of the queue. Modules that are unlocked at the same time are
queued by name. -/
def takeNext (g : ImportGraph) (s : Sorting) : Sorting :=
  match s.queue with
  | [] => s
  | id :: queue =>
      let (pending, unlocked) := g.release id s.pending
      { order := s.order ++ [id], queue := queue ++ g.sortByName unlocked, pending }

def takeMany (g : ImportGraph) : Nat -> Sorting -> Sorting
  | 0, s => s
  | rounds + 1, s => g.takeMany rounds (g.takeNext s)

def sorting (g : ImportGraph) : Sorting :=
  g.takeMany g.size g.start

/-!
## Circles
-/

/-- Walk along imports among the modules left over, having come along `path`, until a
module is met again; the part of the path from there on is a circle. -/
def walkCircle (g : ImportGraph) (pending : List Nat) : Nat -> List Nat -> Nat -> List Nat
  | 0, path, _ => path
  | steps + 1, path, current =>
      if path.contains current then path.dropWhile (· != current) ++ [current]
      else
        match (g.importsOf current).find? (isPending pending) with
        | some next => g.walkCircle pending steps (path ++ [current]) next
        | none => path ++ [current]

def circle (g : ImportGraph) (pending : List Nat) : List Nat :=
  match (List.range g.size).find? (isPending pending) with
  | none => []
  | some start => g.walkCircle pending (g.size + 1) [] start

/-- All modules, each after its imports, or the names along a circle of imports. -/
def order (g : ImportGraph) : Except (List String) (List Nat) :=
  let s := g.sorting
  if s.order.length = g.size then .ok s.order
  else .error ((g.circle s.pending).map g.nameOf)

end ImportGraph
end TypeChecker
