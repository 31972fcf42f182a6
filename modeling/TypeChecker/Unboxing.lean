import TypeChecker.Bounded
import TypeChecker.Registry.Basic

/-!
# Looking through boxed types

A boxed type may be opened to its inner type, one layer at a time. The inner type
of a hidden box is visible only to the module that declares it.
-/

namespace TypeChecker

/-- What opening one layer of a type shows. -/
inductive Opening where
  | inner (type : Ty)
  /-- There is a layer, but the current module may not see through it. -/
  | hidden
  | notBoxed
  deriving DecidableEq

namespace Ty

/-- Open one layer of a type, as seen from `module`. -/
def unbox (module : String) (registry : Registry) : Ty -> Opening
  | .named name args =>
      match Table.get? registry name with
      | none => .notBoxed
      | some d =>
          match d.boxed? with
          | none => .notBoxed
          | some boxed =>
              if boxed.hidden && name.module != module then .hidden
              else .inner (boxed.inner.instantiateWith d.defaults args)
  | _ => .notBoxed

def weakInner? (registry : Registry) : Ty -> Option Ty
  | .named name args =>
      match Table.get? registry name with
      | none => none
      | some d =>
          (d.boxed?.filter Boxed.weak).map fun boxed => boxed.inner.instantiateWith d.defaults args
  | _ => none

def stripWeak (registry : Registry) : Nat -> Ty -> Bounded Ty
  | 0, _ => exhausted
  | depth + 1, t =>
      match t.weakInner? registry with
      | some inner => stripWeak registry depth inner
      | none => some t

end Ty

/-- The wrapper of values that change over time. -/
def reactive : Symbol := Symbol.core "Reactive"

def Ty.reactiveArg? : Ty -> Option Ty
  | .named name [arg] => if name = reactive then some arg else none
  | _ => none

inductive Shape (α : Type) where
  | found (shape : α) (acrossReactive : Bool)
  | absent
  | hidden

namespace Shape

variable {α : Type}

def crossReactive : Shape α -> Shape α
  | .found shape _ => .found shape true
  | other => other

/-- Follow the layers of a type until a structural type shows; `pick` reads the
wanted shape off it. With `cross`, one reactive layer may be crossed as well. -/
def find (pick : Ty -> Option α) (module : String) (registry : Registry) :
    Nat -> Bool -> Ty -> Bounded (Shape α)
  | 0, _, _ => exhausted
  | depth + 1, cross, .named name args =>
      match (if cross then (Ty.named name args).reactiveArg? else none) with
      | some arg => (find pick module registry depth false arg).map crossReactive
      | none =>
          match (Ty.named name args).unbox module registry with
          | .inner inner => find pick module registry depth cross inner
          | .hidden => some .hidden
          | .notBoxed => some .absent
  | _ + 1, _, t =>
      match pick t with
      | some shape => some (.found shape false)
      | none => some .absent

end Shape

namespace Ty

def tupleItems? : Ty -> Option (List Ty)
  | .tuple items => some items
  | _ => none

def bundleFields? : Ty -> Option (Table String (Field Ty))
  | .bundle fields => some fields
  | _ => none

def funcParts? : Ty -> Option (Ty × Ty)
  | .func input output => some (input, output)
  | _ => none

end Ty

def tupleBehind (module : String) (registry : Registry) (depth : Nat) (cross : Bool) (t : Ty) :
    Bounded (Shape (List Ty)) :=
  Shape.find Ty.tupleItems? module registry depth cross t

def bundleBehind (module : String) (registry : Registry) (depth : Nat) (cross : Bool) (t : Ty) :
    Bounded (Shape (Table String (Field Ty))) :=
  Shape.find Ty.bundleFields? module registry depth cross t

def funcBehind (module : String) (registry : Registry) (depth : Nat) (t : Ty) :
    Bounded (Shape (Ty × Ty)) :=
  Shape.find Ty.funcParts? module registry depth false t

end TypeChecker
