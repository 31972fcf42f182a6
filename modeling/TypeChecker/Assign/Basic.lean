import TypeChecker.Assign.Direction
import TypeChecker.Inference.Attempt
import TypeChecker.Unboxing

/-!
# Assignability

Whether a given type may stand where a target type is expected, and the type that
results. First the two are matched directly, by name or by structure. If that
fails, `never` and `any` are absorbed and the smaller side is opened by one layer
before another attempt.

Matching a parameter being inferred binds it, or adjusts its binding. The bindings
of a failed assignment are undone; those of a failed direct match are not.
-/

namespace TypeChecker

inductive Mismatch where
  | mismatch
  deriving DecidableEq

abbrev Assigning := Inferring Mismatch

namespace Assigning

variable {α : Type}

def mismatch : Assigning α := throw .mismatch

def ofOption : Option α -> Assigning α
  | some a => return a
  | none => mismatch

end Assigning

/-- How types are assigned to each other one level further down. -/
abbrev Assigner := Direction -> Ty -> Ty -> Assigning Ty

namespace Assign

def givenBound? (ctx : TypeContext) (d : Direction) : Ty -> Option Ty
  | .param index false =>
      match d with
      | .toTarget => Table.get? ctx.bounds.upper index
      | .fromTarget => Table.get? ctx.bounds.lower index
      | .exact => none
  | _ => none

def targetBound? (ctx : TypeContext) (d : Direction) (index : Nat) : Option Ty :=
  match d with
  | .toTarget => Table.get? ctx.bounds.lower index
  | .fromTarget => Table.get? ctx.bounds.upper index
  | .exact => none

def items (assign : Ty -> Ty -> Assigning Ty) : List Ty -> List Ty -> Assigning (List Ty)
  | target :: targets, given :: givens => do
      let first <- assign target given
      return first :: (← items assign targets givens)
  | [], [] => return []
  | _, _ => Assigning.mismatch

/-- Assign the arguments of a declared type, each in the direction its parameter
asks for. Arguments beyond the parameters must be the same. -/
def args (assign : Assigner) (d : Direction) :
    List Param -> List Ty -> List Ty -> Assigning (List Ty)
  | params, target :: targets, given :: givens => do
      let variance := (params.head?.map Param.variance).getD .invariant
      let first <- assign (d.within variance) target given
      return first :: (← args assign d params.tail targets givens)
  | _, [], [] => return []
  | _, _, _ => Assigning.mismatch

def fields (assign : Ty -> Ty -> Assigning Ty) (givens : Table String (Field Ty)) :
    List (String × Field Ty) -> Assigning (List (String × Field Ty))
  | [] => return []
  | (name, field) :: rest => do
      let given <- Assigning.ofOption (Table.get? givens name)
      if given.slot = field.slot then
        let type <- assign field.type given.type
        return (name, { slot := field.slot, type }) :: (← fields assign givens rest)
      else Assigning.mismatch

def structural (ctx : TypeContext) (assign : Assigner) (d : Direction) (target given : Ty) :
    Assigning Ty :=
  match target, given with
  | .never, .never => return .never
  | .any, .any => return .any
  | .unit, .unit => return .unit
  | .named name targets, .named other givens =>
      if name = other && targets.length == givens.length then
        match Table.get? ctx.registry name with
        | none => Assigning.mismatch
        | some declaration => do
            return .named name (← args assign d declaration.params targets givens)
      else Assigning.mismatch
  | .tuple targets, .tuple givens =>
      if targets.length = givens.length then do
        return .tuple (← items (assign d) targets givens)
      else Assigning.mismatch
  | .bundle targets, .bundle givens =>
      if targets.length = givens.length then do
        return .bundle (← fields (assign d) givens targets)
      else Assigning.mismatch
  | .func input output, .func givenInput givenOutput => do
      let input <- assign d.inverse input givenInput
      let output <- assign d output givenOutput
      return .func input output
  | _, _ => Assigning.mismatch

def fixedParam (ctx : TypeContext) (assign : Assigner) (d : Direction) (index : Nat) (given : Ty) :
    Assigning Ty :=
  match given with
  | .param other inferring =>
      if other = index then return .param other inferring else Assigning.mismatch
  | _ =>
      match targetBound? ctx d index with
      | some bound => assign d bound given
      | none => Assigning.mismatch

/-- Match a given type with a parameter being inferred. A parameter without a
binding is bound; otherwise the given type must match the binding, or the binding
is adjusted if its leeway and the types allow it. -/
def inferredParam (direct assign : Assigner) (d : Direction) (index : Nat) (given : Ty) :
    Assigning Ty := do
  let i <- Inferring.state
  if !i.enabled then
    Assigning.mismatch
  else
    match i.slot? index with
    | none =>
        Inferring.modify fun i => i.bind index { type := given, leeway := d.leeway }
        return given
    | some slot =>
        match ← (direct d slot.type given).attempt with
        | .ok t => return t
        | .error _ =>
            if d.adjusts slot.leeway then
              let _ <- assign d.inverse slot.type given
              Inferring.modify fun i => i.bind index { slot with type := given }
              return given
            else Assigning.mismatch

def target (ctx : TypeContext) (direct assign : Assigner) (d : Direction) (t given : Ty) :
    Assigning Ty :=
  match t with
  | .param index true => inferredParam direct assign d index given
  | .param index false => fixedParam ctx assign d index given
  | _ => structural ctx assign d t given

/-- Match a given type with a target by name or structure. A given parameter of the
enclosing declaration also stands for its bound. -/
def directly (ctx : TypeContext) (direct assign : Assigner) : Assigner := fun d t given => do
  match givenBound? ctx d given with
  | none => target ctx direct assign d t given
  | some bound =>
      match ← (assign d t bound).attempt with
      | .ok assigned => return assigned
      | .error _ => target ctx direct assign d t given

/-- What remains to be tried when a direct match has failed. -/
def afterwards (ctx : TypeContext) (assign : Assigner) : Assigner := fun d t given => do
  match d with
  | .toTarget =>
      if given = .never then
        let certain := (← Inferring.state).substitute t
        if certain.hasInferring then Assigning.mismatch else return certain
      else if t = .any then return .any
      else
        match given.unbox ctx.module ctx.registry with
        | .inner inner => assign d t inner
        | _ => Assigning.mismatch
  | .fromTarget =>
      if t = .never then return given
      else if given = .any then return .any
      else
        match t.unbox ctx.module ctx.registry with
        | .inner inner => assign d inner given
        | _ => Assigning.mismatch
  | .exact => Assigning.mismatch

end Assign

mutual

/-- Assign a given type to a target in a direction; the type that results. -/
def assign (ctx : TypeContext) : Nat -> Assigner
  | 0, _, _, _ => Inferring.exhausted
  | depth + 1, d, target, given => do
      match ← (assignDirectly ctx depth d target given).restoring.attempt with
      | .ok t => return t
      | .error _ => Assign.afterwards ctx (assign ctx depth) d target given

def assignDirectly (ctx : TypeContext) : Nat -> Assigner
  | 0, _, _, _ => Inferring.exhausted
  | depth + 1, d, target, given =>
      Assign.directly ctx (assignDirectly ctx depth) (assign ctx depth) d target given

end

/-- Whether a given type fits into an expected one without inferring anything. -/
def fits (ctx : TypeContext) (depth : Nat) (expected given : Ty) : Bounded Bool :=
  ((assign ctx depth .toTarget expected given).outcome .disabled).map fun result =>
    result.1.isOk

end TypeChecker
