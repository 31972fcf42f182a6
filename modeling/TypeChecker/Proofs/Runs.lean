import TypeChecker.Inference.Attempt

/-!
# What runs give

A run is known by its outcome. The lemmas here open the outcome of a composite run
into the outcomes of its steps, so that no later proof looks inside the monad.
-/

namespace TypeChecker

/-!
## Runs without a state
-/

section

variable {ε δ α β : Type}

theorem except_bind_ok {x : Except ε α} {f : α -> Except ε β} {b : β} :
    x >>= f = .ok b ↔ exists a, x = .ok a ∧ f a = .ok b := by
  cases x with
  | error e =>
      constructor
      · intro h
        cases h
      · rintro ⟨a, ha, _⟩
        cases ha
  | ok a =>
      constructor
      · intro h
        exact ⟨a, rfl, h⟩
      · rintro ⟨a', ha, hf⟩
        cases ha
        exact hf

theorem except_mapError_ok {x : Except ε α} {f : ε -> δ} {a : α} :
    x.mapError f = .ok a ↔ x = .ok a := by
  constructor
  · intro h
    cases x with
    | error e => cases h
    | ok b =>
        cases h
        rfl
  · rintro rfl
    rfl

theorem except_bind_error {x : Except ε α} {f : α -> Except ε β} {e : ε} :
    x >>= f = .error e ↔ x = .error e ∨ exists a, x = .ok a ∧ f a = .error e := by
  cases x with
  | error e' =>
      constructor
      · intro h
        cases h
        exact Or.inl rfl
      · rintro (h | ⟨a, ha, _⟩)
        · cases h
          rfl
        · cases ha
  | ok a =>
      constructor
      · intro h
        exact Or.inr ⟨a, rfl, h⟩
      · rintro (h | ⟨a', ha, hf⟩)
        · cases h
        · cases ha
          exact hf

theorem except_mapError_error {x : Except ε α} {f : ε -> δ} {e : δ} :
    x.mapError f = .error e ↔ exists e', x = .error e' ∧ f e' = e := by
  constructor
  · intro h
    cases x with
    | error e' =>
        cases h
        exact ⟨e', rfl, rfl⟩
    | ok a => cases h
  · intro h
    rcases h with ⟨e', rfl, rfl⟩
    rfl

theorem bounded_foldlM_keeps {σ : Type} {P : σ -> Prop} {step : σ -> α -> Bounded σ}
    (hstep : forall {s item s'}, step s item = some s' -> P s -> P s') {items : List α} {s s' : σ}
    (h : items.foldlM step s = some s') (hs : P s) : P s' := by
  induction items generalizing s with
  | nil =>
      cases h
      exact hs
  | cons item rest ih =>
      rw [List.foldlM_cons] at h
      rcases Option.bind_eq_some_iff.mp h with ⟨next, hnext, hrest⟩
      exact ih hrest (hstep hnext hs)

theorem judge_bind_ok {x : Judge ε α} {f : α -> Judge ε β} {b : β} :
    (x >>= f).outcome = some (.ok b) ↔
      exists a, x.outcome = some (.ok a) ∧ (f a).outcome = some (.ok b) := by
  have hbind : (x >>= f).outcome = x.outcome.bind (ExceptT.bindCont f) := rfl
  rw [hbind, Option.bind_eq_some_iff]
  constructor
  · rintro ⟨result, hx, hf⟩
    cases result with
    | error e => cases hf
    | ok a => exact ⟨a, hx, hf⟩
  · rintro ⟨a, hx, hf⟩
    exact ⟨.ok a, hx, hf⟩

theorem judge_bind_of_ok {x : Judge ε α} {a : α} (hx : x.outcome = some (.ok a))
    (f : α -> Judge ε β) : (x >>= f).outcome = (f a).outcome := by
  show x.outcome.bind (ExceptT.bindCont f) = _
  rw [hx]
  rfl

theorem judge_bind_of_error {x : Judge ε α} {e : ε} (hx : x.outcome = some (.error e))
    (f : α -> Judge ε β) : (x >>= f).outcome = some (.error e) := by
  show x.outcome.bind (ExceptT.bindCont f) = _
  rw [hx]
  rfl

theorem judge_bind_error {x : Judge ε α} {f : α -> Judge ε β} {e : ε} :
    (x >>= f).outcome = some (.error e) ↔
      x.outcome = some (.error e) ∨
        exists a, x.outcome = some (.ok a) ∧ (f a).outcome = some (.error e) := by
  constructor
  · intro h
    rcases Option.bind_eq_some_iff.mp h with ⟨result, hx, hf⟩
    cases result with
    | error e' =>
        cases hf
        exact Or.inl hx
    | ok a => exact Or.inr ⟨a, hx, hf⟩
  · intro h
    rcases h with hx | ⟨a, hx, hf⟩
    · exact judge_bind_of_error hx f
    · rw [judge_bind_of_ok hx]
      exact hf

theorem judge_except_bind {x : Except ε α} {a : α} (hx : x = .ok a) (f : α -> Judge ε β) :
    ((liftM x : Judge ε α) >>= f).outcome = (f a).outcome :=
  judge_bind_of_ok (congrArg some hx) f

theorem judge_bounded_ok {x : Bounded α} {a : α} :
    (liftM x : Judge ε α).outcome = some (.ok a) ↔ x = some a := by
  cases x with
  | none =>
      constructor <;> intro h <;> cases h
  | some b =>
      constructor
      · intro h
        cases h
        rfl
      · intro h
        cases h
        rfl

end

/-!
## Runs over an inference
-/

namespace Inferring

variable {ε δ α β : Type}

@[simp] theorem outcome_pure (a : α) (i : Inference) :
    (pure a : Inferring ε α).outcome i = some (.ok a, i) := rfl

@[simp] theorem outcome_state (i : Inference) :
    (state : Inferring ε Inference).outcome i = some (.ok i, i) := rfl

theorem outcome_bind (x : Inferring ε α) (f : α -> Inferring ε β) (i : Inference) :
    (x >>= f).outcome i =
      match x.outcome i with
      | none => none
      | some (.ok a, j) => (f a).outcome j
      | some (.error e, j) => some (.error e, j) := by
  show (x.run.run i).bind _ = _
  cases h : x.outcome i with
  | none =>
      rw [show x.run.run i = none from h]
      rfl
  | some result =>
      rw [show x.run.run i = some result from h]
      rcases result with ⟨r, j⟩
      cases r <;> rfl

theorem outcome_bind_ok {x : Inferring ε α} {f : α -> Inferring ε β} {i k : Inference} {b : β} :
    (x >>= f).outcome i = some (.ok b, k) ↔
      exists a j, x.outcome i = some (.ok a, j) ∧ (f a).outcome j = some (.ok b, k) := by
  rw [outcome_bind]
  constructor
  · intro h
    split at h
    · cases h
    · exact ⟨_, _, by assumption, h⟩
    · cases h
  · rintro ⟨a, j, hx, hf⟩
    rw [hx]
    exact hf

theorem outcome_bind_error {x : Inferring ε α} {f : α -> Inferring ε β} {i k : Inference} {e : ε} :
    (x >>= f).outcome i = some (.error e, k) ↔
      x.outcome i = some (.error e, k) ∨
        exists a j, x.outcome i = some (.ok a, j) ∧ (f a).outcome j = some (.error e, k) := by
  rw [outcome_bind]
  constructor
  · intro h
    split at h
    · cases h
    · exact Or.inr ⟨_, _, by assumption, h⟩
    · cases h
      exact Or.inl (by assumption)
  · rintro (hx | ⟨a, j, hx, hf⟩)
    · rw [hx]
    · rw [hx]
      exact hf

@[simp] theorem outcome_map (f : α -> β) (x : Inferring ε α) (i : Inference) :
    (f <$> x).outcome i =
      match x.outcome i with
      | none => none
      | some (.ok a, j) => some (.ok (f a), j)
      | some (.error e, j) => some (.error e, j) := by
  rw [map_eq_pure_bind, outcome_bind]
  rfl

/-!
### Attempts
-/

@[simp] theorem outcome_attempt (x : Inferring ε α) (i : Inference) :
    (x.attempt : Inferring δ (Except ε α)).outcome i =
      (x.outcome i).map fun r => (.ok r.1, r.2) := by
  show (x.outcome i).bind _ = _
  cases x.outcome i <;> rfl

theorem outcome_restoring (x : Inferring ε α) (i : Inference) :
    x.restoring.outcome i =
      match x.outcome i with
      | none => none
      | some (.ok a, j) => some (.ok a, j)
      | some (.error e, _) => some (.error e, i) := by
  show (x.outcome i).bind _ = _
  cases x.outcome i with
  | none => rfl
  | some result =>
      rcases result with ⟨r, j⟩
      cases r <;> rfl

/-- A run attempted so that its bindings are undone when it rejects, and what follows. -/
theorem outcome_restoring_attempt_bind (x : Inferring ε α) (f : Except ε α -> Inferring δ β)
    (i : Inference) :
    ((x.restoring.attempt : Inferring δ (Except ε α)) >>= f).outcome i =
      match x.outcome i with
      | none => none
      | some (.ok a, j) => (f (.ok a)).outcome j
      | some (.error e, _) => (f (.error e)).outcome i := by
  rw [outcome_bind, outcome_attempt, outcome_restoring]
  cases x.outcome i with
  | none => rfl
  | some result =>
      rcases result with ⟨r, j⟩
      cases r <;> rfl

theorem outcome_attempt_bind (x : Inferring ε α) (f : Except ε α -> Inferring δ β)
    (i : Inference) :
    ((x.attempt : Inferring δ (Except ε α)) >>= f).outcome i =
      match x.outcome i with
      | none => none
      | some (r, j) => (f r).outcome j := by
  rw [outcome_bind, outcome_attempt]
  cases x.outcome i <;> rfl

/-!
### Steps that do not look at the inference
-/

@[simp] theorem outcome_except (x : Except ε α) (i : Inference) :
    (liftM x : Inferring ε α).outcome i = some (x, i) := rfl

@[simp] theorem outcome_judge (x : Judge ε α) (i : Inference) :
    (liftM x : Inferring ε α).outcome i = x.outcome.map fun r => (r, i) := rfl

theorem outcome_judge_ok {x : Judge ε α} {i j : Inference} {a : α} :
    (liftM x : Inferring ε α).outcome i = some (.ok a, j) ↔ x.outcome = some (.ok a) ∧ i = j := by
  rw [outcome_judge, Option.map_eq_some_iff]
  constructor
  · rintro ⟨r, hx, hr⟩
    cases hr
    exact ⟨hx, rfl⟩
  · rintro ⟨hx, rfl⟩
    exact ⟨_, hx, rfl⟩

theorem outcome_runWith {x : Inferring ε α} {i j : Inference} {a : α} :
    (runWith i x).outcome = some (.ok (a, j)) ↔ x.outcome i = some (.ok a, j) := by
  constructor
  · intro h
    rcases Option.bind_eq_some_iff.mp h with ⟨⟨r, k⟩, hx, hr⟩
    cases r with
    | ok b =>
        cases hr
        exact hx
    | error e => cases hr
  · intro hx
    exact Option.bind_eq_some_iff.mpr ⟨_, hx, rfl⟩

end Inferring
end TypeChecker
