import TypeChecker.Config.Limits
import TypeChecker.Config.Toml.Reader

/-!
# Reading the configuration

The limits stand in the table `limits` of a TOML document, or by position in an
array. Missing limits keep their default, and other keys are ignored.
-/

namespace TypeChecker
namespace Limits

def limit? : Toml.Value -> Option Nat
  | .integer (.ofNat value) => some value
  | _ => none

def limitOr? (default : Nat) : Option Toml.Value -> Option Nat
  | none => some default
  | some value => limit? value

def ofValue? : Toml.Value -> Option Limits
  | .table _ entries => do
      let maxCases <- limitOr? 256 (entries.lookup "max_union_cases")
      let maxItems <- limitOr? 256 (entries.lookup "max_product_items")
      return { maxCases := maxCases, maxItems := maxItems }
  | .array items => do
      let maxCases <- limitOr? 256 items[0]?
      let maxItems <- limitOr? 256 items[1]?
      return { maxCases := maxCases, maxItems := maxItems }
  | .dateTime => some {}
  | _ => none

/-- The limits a configuration text sets, if the text can be read. -/
def read? (text : String) : Option Limits := do
  let entries <- Toml.read? text
  match entries.lookup "limits" with
  | none => return {}
  | some value => ofValue? value

end Limits
end TypeChecker
