/-!
# The order of texts

Names are listed in the order of their code points, which is also the order of
their UTF-8 bytes.
-/

namespace TypeChecker
namespace Text

/-- The first differing code point decides; a text comes before its extensions. -/
def orderChars : List Char -> List Char -> Ordering
  | [], [] => .eq
  | [], _ :: _ => .lt
  | _ :: _, [] => .gt
  | a :: as, b :: bs =>
      if a.toNat = b.toNat then orderChars as bs
      else if Nat.blt a.toNat b.toNat then .lt else .gt

def order (a b : String) : Ordering :=
  orderChars a.toList b.toList

end Text
end TypeChecker
