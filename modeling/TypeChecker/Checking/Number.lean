import TypeChecker.Checking.Checker
import TypeChecker.Number.Binary64
import TypeChecker.Number.Literal
import TypeChecker.Number.Width

/-!
# Numbers

An integer literal takes the type it is used at: any integer type that holds it,
or a floating one in which it is exact.
-/

namespace TypeChecker
namespace Number

def isExact (value : Int) : Bool := Nat.ble value.natAbs maxExactMagnitude

/-- The value of an integer literal as a core type, if that is a numeric type. A
value that the type does not hold is an overflow. -/
def literalAt? (kind : String) (value : Int) : Option (Option Node) :=
  if kind = "Int" then some (some (.int value))
  else if kind = "Float" || kind = "Number" then
    some (if isExact value then some (.float (binary64OfInt value)) else none)
  else
    (Width.named? kind).map fun width => if width.holds value then some (.int value) else none

end Number

namespace Checker

def draftInteger (literal : String) (span : Span) : Except ExprError Draft :=
  match Number.readLiteral? literal with
  | some value => return { value := .integer value, span }
  | none => throw { value := .badInteger literal, span }

def coreName? : Ty -> Option String
  | .named name [] => if name.isCore then some name.name else none
  | _ => none

def settleInteger (ctx : Context) (expected : Option Ty) (value : Int) (span : Span) :
    Inferring ExprError Term := do
  let expected <- requireType expected span
  let type <- requireCertain expected span
  match (coreName? type).bind fun kind => (Number.literalAt? kind value).map fun node =>
    (kind, node) with
  | some (_, some node) => return { type := type, node := node, span := span }
  | some (kind, none) => throw { value := .integerOverflow kind, span }
  | none =>
      let i <- Inferring.state
      throw { value := .integerForNonInteger (ctx.describeInferred i expected), span }

end Checker
end TypeChecker
