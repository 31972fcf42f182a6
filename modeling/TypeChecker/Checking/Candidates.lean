import TypeChecker.Checking.Apply

/-!
# Choosing between overloads

Every overload of a name is tried on the same argument, each on a copy of the
inference under way. When several accept it, the choice waits for the expected
type; among those that still fit, the one whose own result is narrower than that
of every other is taken.
-/

namespace TypeChecker

/-- An overload that was accepted. -/
structure Candidate where
  term : Term
  /-- Its own result type, before any assignment. -/
  result : Ty
  description : String
  inference : Inference

structure Tried where
  accepted : List Candidate := []
  refused : List (String × ExprError) := []

namespace Candidate

def narrower (ctx : Context) (depth : Nat) (a b : Ty) : Bounded Bool := do
  if a.alike b then return false
  if !(← ctx.fits depth b a) then return false
  return !(← ctx.fits depth a b)

def narrowestAt (ctx : Context) (depth : Nat) (index : Nat) (result : Ty) :
    Nat -> List Candidate -> Bounded Bool
  | _, [] => return true
  | position, other :: rest => do
      if position = index then narrowestAt ctx depth index result (position + 1) rest
      else if ← narrower ctx depth result other.result then
        narrowestAt ctx depth index result (position + 1) rest
      else return false

def narrowestFrom (ctx : Context) (depth : Nat) (all : List Candidate) :
    Nat -> List Candidate -> Bounded (Option Candidate)
  | _, [] => return none
  | index, candidate :: rest => do
      if ← narrowestAt ctx depth index candidate.result 0 all then return some candidate
      else narrowestFrom ctx depth all (index + 1) rest

/-- The candidate whose result is narrower than that of every other, if there is one. -/
def narrowest? (ctx : Context) (depth : Nat) (all : List Candidate) : Bounded (Option Candidate) :=
  narrowestFrom ctx depth all 0 all

def choose (candidate : Candidate) : Inferring ExprError Term := do
  Inferring.modify fun i => i.adopt candidate.inference
  return candidate.term

end Candidate

namespace Tried

def accept (tried : Tried) (candidate : Candidate) : Tried :=
  { tried with accepted := candidate :: tried.accepted }

def refuse (tried : Tried) (description : String) (error : ExprError) : Tried :=
  { tried with refused := (description, error) :: tried.refused }

/-- Try each option on a copy of the inference. `result` is the option's own result
type, if it is not that of the term. A defect of the checker ends the trials. -/
def all {α : Type} (describe : α -> String) (result : α -> Term -> Ty)
    (use : α -> Inferring ExprError Term) : List α -> Inferring ExprError Tried
  | [] => return {}
  | option :: rest => do
      match ← (use option).trial with
      | (.ok term, inference) =>
          let tried <- all describe result use rest
          return tried.accept
            { term, result := result option term, description := describe option, inference }
      | (.error error, _) =>
          if error.value.isInternal then throw error
          let tried <- all describe result use rest
          return tried.refuse (describe option) error

end Tried

namespace Checker

def callOverloaded (c : Checker) (ctx : Context) (name : String) (functions : List Signature)
    (typeArgs : List Ty) (arg : Draft) (calleeSpan span : Span) : Inferring ExprError Draft := do
  match functions with
  | [f] => return .ofTerm (← c.call ctx f typeArgs arg calleeSpan span)
  | _ =>
      let tried <- Tried.all (fun f : Signature => f.describe ctx.module) (fun _ term => term.type)
        (fun f => c.call ctx f typeArgs arg calleeSpan span) functions
      match tried.accepted with
      | [] => throw { value := .noneCallable tried.refused, span }
      | [only] => return .ofTerm (← only.choose)
      | several =>
          return {
            value := .undecided name
              (several.map fun a => { term := a.term, description := a.description })
            span }

/-- Decide a call that several overloads accept, now that the expected type is known. -/
def settleUndecided (c : Checker) (ctx : Context) (expected : Option Ty)
    (options : List CallOption) (span : Span) : Inferring ExprError Term := do
  let tried <- Tried.all CallOption.description (fun option _ => option.term.type)
    (fun option => ctx.fit c.depth expected option.term) options
  match tried.accepted with
  | [] => throw { value := .noneCallable tried.refused, span }
  | [only] => only.choose
  | several =>
      match ← Candidate.narrowest? ctx c.depth several with
      | some candidate => candidate.choose
      | none => throw { value := .ambiguousCall (several.map Candidate.description), span }

def referOverloaded (c : Checker) (ctx : Context) (expected : Option Ty)
    (functions : List Signature) (typeArgs : List Ty) (span : Span) :
    Inferring ExprError Term := do
  match functions with
  | [f] => c.refer ctx expected f typeArgs span
  | _ =>
      let tried <- Tried.all (fun f : Signature => f.describe ctx.module) (fun _ term => term.type)
        (fun f => c.refer ctx expected f typeArgs span) functions
      match tried.accepted with
      | [] =>
          let i <- Inferring.state
          let target :=
            match expected with
            | some t => ctx.describeInferred i t
            | none => "(none)"
          throw { value := .noneAssignable target tried.refused, span }
      | [only] => only.choose
      | several =>
          throw { value := .ambiguousReference (several.map Candidate.description), span }

end Checker
end TypeChecker
