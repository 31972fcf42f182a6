import TypeChecker.Fault.Basic
import TypeChecker.Registry.Basic

/-!
# Data schemas

A type tagged as data has an identity on the wire and a schema: tuples and records
of serialisable types for boxed types, the identities of the cases for unions.
Generic and native types have none.
-/

namespace TypeChecker

def DataId.text (id : DataId) : String := id.name ++ ":" ++ id.version

instance : KeyOrder DataId where
  order a b :=
    match Text.order a.name b.name with
    | .eq => Text.order a.version b.version
    | decided => decided

/-- How a value of some type goes over the wire. -/
inductive WireType where
  | primitive (name : String)
  | array (element : WireType)
  | optional (element : WireType)
  | ref (id : DataId)

inductive Schema where
  | tuple (elements : List WireType)
  | record (fields : Table String WireType)
  | union (cases : List DataId)

abbrev DataIds := Table Symbol DataId

structure DataTable where
  ids : DataIds := []
  schemas : Table DataId Schema := []

def DataTable.schemaOf? (table : DataTable) (name : Symbol) : Option Schema :=
  (Table.get? table.ids name).bind fun id => Table.get? table.schemas id

def wirePrimitives : List String :=
  ["Bool", "Float", "Int", "String", "Bytes", "Int32", "Uint32", "Int64", "Uint64"]

def WireType.of? (ids : DataIds) : Ty -> Option WireType
  | .named name [] =>
      if name.isCore && wirePrimitives.contains name.name then some (.primitive name.name)
      else (Table.get? ids name).map .ref
  | .named name [arg] =>
      if name.isCore then
        if name.name == "List" || name.name == "Array" then (WireType.of? ids arg).map .array
        else if name.name == "Maybe" then (WireType.of? ids arg).map .optional
        else none
      else none
  | _ => none

namespace Schema

def elements (ids : DataIds) : Nat -> List Ty -> Except DataFault (List WireType)
  | _, [] => return []
  | index, t :: rest =>
      match WireType.of? ids t with
      | some element => do return element :: (← elements ids (index + 1) rest)
      | none => throw (.element index)

def fields (ids : DataIds) :
    List (String × Field Ty) -> Except DataFault (List (String × WireType))
  | [] => return []
  | (name, field) :: rest =>
      match WireType.of? ids field.type with
      | some wire => do return (name, wire) :: (← fields ids rest)
      | none => throw (.field name)

def cases (ids : DataIds) : List Case -> Except DataFault (List DataId)
  | [] => return []
  | case :: rest =>
      match Table.get? ids case.name with
      | some id => do return id :: (← cases ids rest)
      | none => throw (.case case.name.text)

/-- The schema of a declaration. A box around anything but a product is a tuple of
one element. -/
def of (ids : DataIds) (d : Declaration) : Except DataFault Schema :=
  match d.definition with
  | .boxed boxed =>
      match boxed.inner with
      | .unit => return .tuple []
      | .tuple items => do return .tuple (← elements ids 0 items)
      | .bundle declared => do
          return .record (Table.ofPairs (← fields ids (Ty.inSlotOrder declared)))
      | other => do return .tuple (← elements ids 0 [other])
  | .union declared => do return .union (← cases ids declared)
  | .native => throw .onNative

end Schema

abbrev DataProblems := List (Symbol × DataError)

namespace DataTable

/-- Why a declaration tagged as data may not have an identity, `taken` being given
to other types. -/
def refusal? (taken : DataIds) (id : DataId) (d : Declaration) : Option DataFault :=
  match d.definition with
  | .native => some .onNative
  | _ =>
      if !d.params.isEmpty then some .onGeneric
      else if taken.any fun item => item.2 = id then some (.repeatedId id.text)
      else none

def assignIds : DataIds -> List (Symbol × Declaration) -> DataIds × DataProblems
  | ids, [] => (ids, [])
  | ids, (name, d) :: rest =>
      match d.data with
      | none => assignIds ids rest
      | some id =>
          match refusal? ids id d with
          | some fault =>
              let (all, problems) := assignIds ids rest
              (all, (name, { value := fault, span := d.span }) :: problems)
          | none => assignIds (Table.put name id ids) rest

def deriveSchemas (ids : DataIds) :
    List (Symbol × Declaration) -> Table DataId Schema × DataProblems
  | [] => ([], [])
  | (name, d) :: rest =>
      let (schemas, problems) := deriveSchemas ids rest
      match Table.get? ids name with
      | none => (schemas, problems)
      | some id =>
          match Schema.of ids d with
          | .ok schema => (Table.put id schema schemas, problems)
          | .error fault => (schemas, (name, { value := fault, span := d.span }) :: problems)

def ofRegistry (registry : Registry) : DataTable × DataProblems :=
  let (ids, idProblems) := assignIds [] registry
  let (schemas, schemaProblems) := deriveSchemas ids registry
  ({ ids := ids, schemas := schemas }, idProblems ++ schemaProblems)

end DataTable
end TypeChecker
