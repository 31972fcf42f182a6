import TypeChecker.Ty.Subst

/-!
# The text of types

Types are shown as a reader of one module writes them: names declared there or
in the core module bare, parameters under their declared names, bundle fields in
slot order. A parameter being inferred is followed by a question mark.
-/

namespace TypeChecker
namespace Ty

def describeParam (params : List String) (index : Nat) (inferring : Bool) : String :=
  params.getD index ("#" ++ toString index) ++ (if inferring then "?" else "")

mutual

def describe (module : String) (params : List String) : Ty -> String
  | .never => "never"
  | .any => "any"
  | .param index inferring => describeParam params index inferring
  | .named name [] => name.seenFrom module
  | .named name args =>
      name.seenFrom module ++ "[" ++ ", ".intercalate (describeList module params args) ++ "]"
  | .unit => "()"
  | .tuple items => "(" ++ ", ".intercalate (describeList module params items) ++ ")"
  | .bundle fields =>
      let texts := (sortByNumber (describeFields module params fields)).map Prod.snd
      "\x7b " ++ ", ".intercalate texts ++ " \x7d"
  | .func input output =>
      "(λ " ++ describe module params input ++ " " ++ describe module params output ++ ")"

def describeList (module : String) (params : List String) : List Ty -> List String
  | [] => []
  | t :: rest => describe module params t :: describeList module params rest

def describeFields (module : String) (params : List String) :
    List (String × Field Ty) -> List (Nat × String)
  | [] => []
  | (name, ⟨slot, t⟩) :: rest =>
      (slot, name ++ ": " ++ describe module params t) :: describeFields module params rest

end

end Ty
end TypeChecker
