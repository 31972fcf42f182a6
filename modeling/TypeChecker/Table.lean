import TypeChecker.Text.Order

/-!
# Tables in key order

A table is a list of keys and entries in increasing order of the keys, each key
standing once. Two tables with the same content are therefore equal.
-/

namespace TypeChecker

class KeyOrder (κ : Type) where
  order : κ -> κ -> Ordering

instance : KeyOrder Nat where
  order a b := if a = b then .eq else if Nat.blt a b then .lt else .gt

instance : KeyOrder String where
  order := Text.order

abbrev Table (κ β : Type) := List (κ × β)

namespace Table

variable {κ β : Type}

def get? [DecidableEq κ] : Table κ β -> κ -> Option β
  | [], _ => none
  | (k, entry) :: rest, key => if k = key then some entry else get? rest key

def contains [DecidableEq κ] (table : Table κ β) (key : κ) : Bool :=
  (get? table key).isSome

def put [KeyOrder κ] (key : κ) (entry : β) : Table κ β -> Table κ β
  | [] => [(key, entry)]
  | (k, old) :: rest =>
      match KeyOrder.order key k with
      | .lt => (key, entry) :: (k, old) :: rest
      | .eq => (key, entry) :: rest
      | .gt => (k, old) :: put key entry rest

def erase [DecidableEq κ] (table : Table κ β) (key : κ) : Table κ β :=
  table.filter fun item => !decide (item.1 = key)

/-- The table of the given pairs; of two pairs with one key the later counts. -/
def ofPairs [KeyOrder κ] (pairs : List (κ × β)) : Table κ β :=
  pairs.foldl (fun table pair => put pair.1 pair.2 table) []

end Table
end TypeChecker
