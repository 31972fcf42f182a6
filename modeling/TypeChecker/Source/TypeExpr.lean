import TypeChecker.Source.Name

/-!
# Written types
-/

namespace TypeChecker
namespace Source

inductive TypeNode where
  | ref (name : RefName) (args : List (Located TypeNode))
  /-- No items are unit; a single item stands for itself. -/
  | tuple (items : List (Located TypeNode))
  /-- No fields are unit. -/
  | bundle (fields : List (Ident × Located TypeNode))
  | func (input output : Located TypeNode)
  deriving Inhabited

abbrev TypeExpr := Located TypeNode

end Source
end TypeChecker
