/-!
# TOML documents

The values of a TOML document. Tables remember how they came into being, because
that decides what may be added to them later. Of texts, truth values and floats
only the presence is kept.
-/

namespace TypeChecker
namespace Toml

/-- How a table came into being. -/
inductive Origin where
  /-- By a header of its own, or as the document itself. -/
  | header
  /-- As a step of the path in another table's header. -/
  | implied
  /-- As a step of a dotted key. -/
  | dotted
  | inline
  deriving DecidableEq

inductive Value where
  | integer (value : Int)
  | dateTime
  | other
  | array (items : List Value)
  | table (origin : Origin) (entries : List (String × Value))
  | tables (items : List (List (String × Value)))

abbrev Entries := List (String × Value)

namespace Entries

def find? (entries : Entries) (key : String) : Option Value :=
  entries.lookup key

def replace (entries : Entries) (key : String) (value : Value) : Entries :=
  entries.map fun item => if item.1 == key then (key, value) else item

/-- Change the table that a path leads to, creating the tables on the way. Paths of
dotted keys may not enter tables that have a header. -/
def updateAt (created : Origin) (change : Origin -> Entries -> Option Entries) :
    List String -> Origin -> Entries -> Option Entries
  | [], origin, entries => change origin entries
  | key :: path, _, entries =>
      match entries.find? key with
      | none => do
          let inner <- updateAt created change path created []
          return entries ++ [(key, .table created inner)]
      | some (.table origin inner) =>
          if origin == .inline || (created == .dotted && origin == .header) then none
          else do
            let changed <- updateAt created change path origin inner
            return entries.replace key (.table origin changed)
      | some (.tables items) =>
          match items.getLast? with
          | none => none
          | some last => do
              let changed <- updateAt created change path .header last
              return entries.replace key (.tables (items.dropLast ++ [changed]))
      | some _ => none

def setNew (key : String) (value : Value) (entries : Entries) : Option Entries :=
  match entries.find? key with
  | some _ => none
  | none => some (entries ++ [(key, value)])

/-- Set a dotted key. Its last table must be one that dotted keys made. -/
def setDotted (path : List String) (key : String) (value : Value) (origin : Origin)
    (entries : Entries) : Option Entries :=
  let change := fun reached inner =>
    if (reached == .dotted) == path.isEmpty then none else setNew key value inner
  updateAt .dotted change path origin entries

/-- Open the table of a header. It must be new or only implied so far. -/
def openTable (key : String) (entries : Entries) : Option Entries :=
  match entries.find? key with
  | none => some (entries ++ [(key, .table .header [])])
  | some (.table .implied inner) => some (entries.replace key (.table .header inner))
  | some _ => none

def openShared (key : String) (entries : Entries) : Option Entries :=
  match entries.find? key with
  | none => some (entries ++ [(key, .tables [[]])])
  | some (.tables items) => some (entries.replace key (.tables (items ++ [[]])))
  | some _ => none

end Entries
end Toml
end TypeChecker
