import TypeChecker.Registry.Register

/-!
# The core module

The types every module sees. They are declared like those of any other module and
registered along with them.
-/

namespace TypeChecker
namespace Core

open Source

def sizedIntegers : List String := ["Byte", "Word", "Int32", "Uint32", "Int64", "Uint64"]

def plainNatives : List String :=
  ["Int", "Float", "Number", "String", "Char", "Bytes", "Error"] ++ sizedIntegers

def param (name : String) : ParamDecl := { name := { name := name } }

def native (name : String) (params : List ParamDecl) : TypeDecl :=
  .native { name := { name := name }, params }

def unitCase (name : String) : TypeDecl := .boxed { name := { name := name } } {}

def boolDecl : TypeDecl :=
  .union { name := { name := "Bool" } } [unitCase "Yes", unitCase "No"]

def maybeDecl : TypeDecl :=
  .union { name := { name := "Maybe" }, params := [param "+T"] }
    [.boxed { name := { name := "Some" }, params := [param "+T"] }
        { inner := some { value := .ref { name := "T" } [] } },
      unitCase "None"]

/-- The declarations of the core module. -/
def module : Source.Module where
  name := coreModule
  types :=
    plainNatives.map (native · []) ++
      [native "List" [param "+T"], native "Array" [param "T"], native "Reactive" [param "T"],
        native "Effect" [param "+T"], boolDecl, maybeDecl]

def registry (depth : Nat) : Bounded Registry :=
  (Registration.ofModules {} depth [module]).map Registration.registry

def bool : Ty := Ty.core "Bool"

def arrayOf (element : Ty) : Ty := .named (Symbol.core "Array") [element]

def effectOf (value : Ty) : Ty := .named (Symbol.core "Effect") [value]

end Core
end TypeChecker
