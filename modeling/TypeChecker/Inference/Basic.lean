import TypeChecker.Registry.Basic

/-!
# Inference of type arguments

Using a generic declaration without type arguments opens an inference with one
slot for each of its parameters. A slot is empty until its parameter is first
bound; a binding may later grow, shrink, or neither.
-/

namespace TypeChecker

/-- How a binding may still change. -/
inductive Leeway where
  | mayGrow
  | mayShrink
  | fixed
  deriving DecidableEq

structure Slot where
  type : Ty
  leeway : Leeway
  deriving DecidableEq

/-- The state of an inference. A disabled one has no slots and binds nothing. -/
structure Inference where
  enabled : Bool := false
  params : List Param := []
  bounds : Bounds := {}
  slots : List (Option Slot) := []

namespace Inference

def disabled : Inference := {}

def start (params : List Param) (bounds : Bounds) : Inference where
  enabled := true
  params := params
  bounds := bounds
  slots := params.map fun _ => none

def arity (i : Inference) : Nat := i.slots.length

def slot? (i : Inference) (index : Nat) : Option Slot := (i.slots[index]?).join

def bind (i : Inference) (index : Nat) (slot : Slot) : Inference :=
  { i with slots := i.slots.set index (some slot) }

def allBound (i : Inference) : Bool := i.slots.all Option.isSome

def bindings? (i : Inference) : Option (List Ty) :=
  i.slots.mapM fun slot => slot.map Slot.type

def adoptSlot (other i : Inference) (index : Nat) : Inference :=
  if i.slot? index = other.slot? index then i
  else { i with slots := i.slots.set index (other.slot? index) }

/-- Take over the bindings of an inference that went on independently, slot by slot. -/
def adopt (i other : Inference) : Inference :=
  (List.range (Nat.min i.arity other.arity)).foldl other.adoptSlot i

/-- Replace bound parameters by their bindings; unbound ones stay. -/
def substitute (i : Inference) (t : Ty) : Ty :=
  t.replace fun index inferring => if inferring then (i.slot? index).map Slot.type else none

def leavesOpen (i : Inference) (t : Ty) : Bool :=
  t.anyParam fun index inferring => inferring && (i.slot? index).isNone

def certain? (i : Inference) (t : Ty) : Option Ty :=
  if i.leavesOpen t then none else some (i.substitute t)

/-- The names to show parameters by while an inference is under way: those being
inferred, then those of the enclosing declaration. -/
def displayNames (i : Inference) (outer : List Param) : List String :=
  (List.range (Nat.max i.arity outer.length)).map fun index =>
    match i.params[index]?, outer[index]? with
    | some param, _ => param.name
    | none, some param => param.name
    | none, none => "#" ++ toString index

end Inference

def TypeContext.describeInferred (ctx : TypeContext) (i : Inference) (t : Ty) : String :=
  let shown := i.substitute t
  if shown.hasInferring then shown.describe ctx.module (i.displayNames ctx.params)
  else ctx.describe shown

end TypeChecker
