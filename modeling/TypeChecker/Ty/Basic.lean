import TypeChecker.Symbol

/-!
# Types

A type is nominal (a declared name with arguments), structural (unit, tuples,
bundles, functions), a parameter of the enclosing declaration, or one of the
extremes `never` and `any`.

A parameter marked as being inferred is a free variable of the inference under
way instead of a parameter of the enclosing declaration.
-/

namespace TypeChecker

structure Field (α : Type) where
  slot : Nat
  type : α

inductive Ty where
  | never
  | any
  | param (index : Nat) (inferring : Bool)
  | named (name : Symbol) (args : List Ty)
  | unit
  | tuple (items : List Ty)
  /-- Fields in the order of their names. -/
  | bundle (fields : List (String × Field Ty))
  | func (input output : Ty)
  deriving Inhabited

namespace Ty

def core (name : String) : Ty := .named (Symbol.core name) []

def isUnit : Ty -> Bool
  | .unit => true
  | _ => false

def isStructural : Ty -> Bool
  | .unit | .tuple _ | .bundle _ | .func _ _ => true
  | _ => false

def named? : Ty -> Option (Symbol × List Ty)
  | .named name args => some (name, args)
  | _ => none

/-- Number the fields by position; of two fields with one name the later counts. -/
def numberFields (fields : List (String × Ty)) : Table String (Field Ty) :=
  Table.ofPairs (fields.zipIdx.map fun item => (item.1.1, { slot := item.2, type := item.1.2 }))

def bundleOf (fields : List (String × Ty)) : Ty :=
  .bundle (numberFields fields)

def insertByNumber {α : Type} (item : Nat × α) : List (Nat × α) -> List (Nat × α)
  | [] => [item]
  | next :: rest =>
      if Nat.ble next.1 item.1 then next :: insertByNumber item rest
      else item :: next :: rest

def sortByNumber {α : Type} (items : List (Nat × α)) : List (Nat × α) :=
  items.foldl (fun sorted item => insertByNumber item sorted) []

def inSlotOrder (fields : List (String × Field Ty)) : List (String × Field Ty) :=
  (sortByNumber (fields.map fun item => (item.2.slot, item))).map Prod.snd

/-!
## Equality
-/

mutual

def beq : Ty -> Ty -> Bool
  | .never, .never => true
  | .any, .any => true
  | .param i p, .param j q => i == j && p == q
  | .named a as, .named b bs => a == b && beqList as bs
  | .unit, .unit => true
  | .tuple as, .tuple bs => beqList as bs
  | .bundle as, .bundle bs => beqFields as bs
  | .func a b, .func c d => beq a c && beq b d
  | _, _ => false

def beqList : List Ty -> List Ty -> Bool
  | [], [] => true
  | a :: as, b :: bs => beq a b && beqList as bs
  | _, _ => false

def beqFields : List (String × Field Ty) -> List (String × Field Ty) -> Bool
  | [], [] => true
  | (n, ⟨i, a⟩) :: as, (m, ⟨j, b⟩) :: bs => n == m && i == j && beq a b && beqFields as bs
  | _, _ => false

end

mutual

theorem eq_of_beq : (a b : Ty) -> beq a b = true -> a = b
  | .never, b, h => by cases b <;> simp_all [beq]
  | .any, b, h => by cases b <;> simp_all [beq]
  | .param _ _, b, h => by cases b <;> simp_all [beq]
  | .named _ as, b, h => by
      cases b <;> simp_all [beq]
      exact eqList_of_beq as _ h.2
  | .unit, b, h => by cases b <;> simp_all [beq]
  | .tuple as, b, h => by
      cases b <;> simp_all [beq]
      exact eqList_of_beq as _ h
  | .bundle as, b, h => by
      cases b <;> simp_all [beq]
      exact eqFields_of_beq as _ h
  | .func a c, b, h => by
      cases b <;> simp_all [beq]
      exact ⟨eq_of_beq a _ h.1, eq_of_beq c _ h.2⟩

theorem eqList_of_beq : (as bs : List Ty) -> beqList as bs = true -> as = bs
  | [], bs, h => by cases bs <;> simp_all [beqList]
  | a :: as, bs, h => by
      cases bs <;> simp_all [beqList]
      exact ⟨eq_of_beq a _ h.1, eqList_of_beq as _ h.2⟩

theorem eqFields_of_beq : (as bs : List (String × Field Ty)) -> beqFields as bs = true -> as = bs
  | [], bs, h => by cases bs <;> simp_all [beqFields]
  | (n, ⟨i, a⟩) :: as, bs, h => by
      cases bs with
      | nil => simp [beqFields] at h
      | cons b bs =>
          obtain ⟨m, ⟨j, b⟩⟩ := b
          simp [beqFields] at h
          simp [h.1.1.1, h.1.1.2, eq_of_beq a b h.1.2, eqFields_of_beq as bs h.2]

end

mutual

theorem beq_self : (a : Ty) -> beq a a = true
  | .never => rfl
  | .any => rfl
  | .param _ _ => by simp [beq]
  | .named _ as => by simp [beq, beqList_self as]
  | .unit => rfl
  | .tuple as => by simp [beq, beqList_self as]
  | .bundle as => by simp [beq, beqFields_self as]
  | .func a b => by simp [beq, beq_self a, beq_self b]

theorem beqList_self : (as : List Ty) -> beqList as as = true
  | [] => rfl
  | a :: as => by simp [beqList, beq_self a, beqList_self as]

theorem beqFields_self : (as : List (String × Field Ty)) -> beqFields as as = true
  | [] => rfl
  | (_, ⟨_, a⟩) :: as => by simp [beqFields, beq_self a, beqFields_self as]

end

instance : DecidableEq Ty := fun a b =>
  if h : beq a b = true then isTrue (eq_of_beq a b h)
  else isFalse fun e => h (e ▸ beq_self a)

/-!
## Equivalence

Types that differ only in which parameters are being inferred, or in the slots
of bundle fields, describe the same values.
-/

mutual

/-- Whether two types agree up to inference marks and slots. -/
def alike : Ty -> Ty -> Bool
  | .never, .never => true
  | .any, .any => true
  | .param i _, .param j _ => i == j
  | .named a as, .named b bs => a == b && alikeList as bs
  | .unit, .unit => true
  | .tuple as, .tuple bs => alikeList as bs
  | .bundle as, .bundle bs => as.length == bs.length && alikeFields as bs
  | .func a b, .func c d => alike a c && alike b d
  | _, _ => false

def alikeList : List Ty -> List Ty -> Bool
  | [], [] => true
  | a :: as, b :: bs => alike a b && alikeList as bs
  | _, _ => false

def alikeFields : List (String × Field Ty) -> Table String (Field Ty) -> Bool
  | [], _ => true
  | (name, ⟨_, a⟩) :: as, bs =>
      (match Table.get? bs name with
        | some field => alike a field.type
        | none => false) && alikeFields as bs

end

end Ty
end TypeChecker
