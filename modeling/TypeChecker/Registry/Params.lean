import TypeChecker.Fault.Basic
import TypeChecker.Names
import TypeChecker.Registry.Basic
import TypeChecker.Source.Item

/-!
# Declared parameters

A parameter written `+T` is covariant, `-T` contravariant, and `T` invariant.
-/

namespace TypeChecker
namespace Param

/-- The name and variance behind a written parameter. A sign standing alone is
read as a name when it is `-`. -/
def ofWritten (written : String) : Param :=
  match written.toList with
  | '+' :: rest => ⟨String.ofList rest, .covariant⟩
  | '-' :: c :: rest => ⟨String.ofList (c :: rest), .contravariant⟩
  | _ => ⟨written, .invariant⟩

def readAfter (earlier : List Param) : List Source.ParamDecl -> Except DeclError (List Param)
  | [] => return earlier
  | decl :: rest => do
      let param := ofWritten decl.name.name
      if !isTypeName param.name then
        throw { value := .badName decl.name.name, span := decl.name.span }
      if earlier.any fun other => other.name == param.name then
        throw { value := .repeatedParam param.name, span := decl.name.span }
      readAfter (earlier ++ [param]) rest

def read (decls : List Source.ParamDecl) : Except DeclError (List Param) :=
  readAfter [] decls

end Param
end TypeChecker
