/-!
# Integers of fixed width
-/

namespace TypeChecker
namespace Number

structure Width where
  bits : Nat
  signed : Bool
  deriving DecidableEq

def Width.holds (w : Width) : Int -> Bool
  | .ofNat n => Nat.blt n (Nat.pow 2 (if w.signed then w.bits - 1 else w.bits))
  | .negSucc n => w.signed && Nat.blt n (Nat.pow 2 (w.bits - 1))

def Width.named? : String -> Option Width
  | "Byte" => some ⟨8, false⟩
  | "Word" => some ⟨16, false⟩
  | "Int32" => some ⟨32, true⟩
  | "Uint32" => some ⟨32, false⟩
  | "Int64" => some ⟨64, true⟩
  | "Uint64" => some ⟨64, false⟩
  | _ => none

end Number
end TypeChecker
