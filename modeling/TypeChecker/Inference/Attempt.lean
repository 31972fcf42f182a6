import TypeChecker.Bounded
import TypeChecker.Inference.Basic

/-!
# Runs that infer

A run that reads and changes an inference on its way to a result. When it rejects,
the bindings it has made remain, unless it is run so that they are undone.
-/

namespace TypeChecker

/-- A bounded run over the state of an inference. -/
abbrev Inferring (ε : Type) : Type -> Type := ExceptT ε (StateT Inference Option)

namespace Inferring

variable {ε δ α : Type}

def outcome (run : Inferring ε α) (i : Inference) : Bounded (Except ε α × Inference) :=
  run.run.run i

def ofOutcome (outcome : Inference -> Bounded (Except ε α × Inference)) : Inferring ε α :=
  ExceptT.mk fun i => outcome i

def exhausted : Inferring ε α := ofOutcome fun _ => none

def ofJudge (run : Judge ε α) : Inferring ε α :=
  ofOutcome fun i => run.run.map fun result => (result, i)

def state : Inferring ε Inference := ofOutcome fun i => some (.ok i, i)

def modify (f : Inference -> Inference) : Inferring ε Unit :=
  ofOutcome fun i => some (.ok (), f i)

/-- Undo the bindings of a run that rejects. -/
def restoring (run : Inferring ε α) : Inferring ε α :=
  ofOutcome fun i => do
    match ← run.outcome i with
    | (.ok a, after) => return (.ok a, after)
    | (.error e, _) => return (.error e, i)

def attempt (run : Inferring ε α) : Inferring δ (Except ε α) :=
  ofOutcome fun i => do
    let (result, after) <- run.outcome i
    return (.ok result, after)

/-- The outcome of a run on a copy of the inference, and the copy afterwards. -/
def trial (run : Inferring ε α) : Inferring δ (Except ε α × Inference) :=
  ofOutcome fun i => do
    let (result, after) <- run.outcome i
    return (.ok (result, after), i)

def mapError (f : ε -> δ) (run : Inferring ε α) : Inferring δ α :=
  ofOutcome fun i => do
    let (result, after) <- run.outcome i
    return (result.mapError f, after)

def runWith (i : Inference) (run : Inferring ε α) : Judge ε (α × Inference) :=
  ExceptT.mk do
    match ← run.outcome i with
    | (.ok a, after) => return .ok (a, after)
    | (.error e, _) => return .error e

def withoutInference (run : Inferring ε α) : Judge ε α := do
  return (← runWith .disabled run).1

end Inferring

instance {ε : Type} : MonadLift (Judge ε) (Inferring ε) := ⟨Inferring.ofJudge⟩

end TypeChecker
