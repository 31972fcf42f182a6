/-!
# Admissible names
-/

namespace TypeChecker

def reservedNames : List String := ["_", "-", "never", "any", "super"]

/-- The name of a function or constant is neither empty nor reserved and does not
end in `!`, which asks for exact boxing. -/
def isValueName (name : String) : Bool :=
  !(name.isEmpty || name.toList.getLast? == some '!' || reservedNames.contains name)

/-- The name of a type or parameter moreover does not start with a variance sign. -/
def isTypeName (name : String) : Bool :=
  isValueName name && !(name.toList.head? == some '+' || name.toList.head? == some '-')

end TypeChecker
