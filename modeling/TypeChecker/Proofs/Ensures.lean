import TypeChecker.Proofs.Runs

/-!
# What runs ensure

A run preserves a condition on the inference, whether it accepts or rejects, and a
result that it accepts satisfies another condition. Both are shown for a composite
run from what its steps ensure.
-/

namespace TypeChecker

/-!
## Runs without a state
-/

namespace Judge

variable {ε δ α β : Type} {Q : α -> Prop} {R : β -> Prop}

def Ensures (x : Judge ε α) (Q : α -> Prop) : Prop :=
  forall a, x.outcome = some (.ok a) -> Q a

theorem ensures_pure {a : α} (h : Q a) : Ensures (pure a : Judge ε α) Q := by
  intro b hb
  cases hb
  exact h

theorem ensures_throw (e : ε) : Ensures (throw e : Judge ε α) Q := by
  intro a ha
  cases ha

theorem ensures_throw_bind (e : ε) (f : α -> Judge ε β) :
    Ensures (throw e >>= f : Judge ε β) R := by
  intro b hb
  cases hb

theorem Ensures.bind {x : Judge ε α} {f : α -> Judge ε β} (hx : Ensures x Q)
    (hf : forall a, Q a -> Ensures (f a) R) : Ensures (x >>= f) R := by
  intro b hb
  rcases judge_bind_ok.mp hb with ⟨a, ha, hb⟩
  exact hf a (hx a ha) b hb

theorem ensures_any (x : Judge ε α) : Ensures x fun _ => True :=
  fun _ _ => trivial

theorem ensures_exhausted : Ensures (exhausted : Judge ε α) Q := by
  intro a ha
  cases ha

theorem ensures_except {x : Except ε α} (h : forall a, x = .ok a -> Q a) :
    Ensures (liftM x : Judge ε α) Q := by
  intro a ha
  exact h a (Option.some.inj ha)

theorem ensures_ofExcept {x : Except ε α} (h : forall a, x = .ok a -> Q a) :
    Ensures (ofExcept x) Q :=
  ensures_except h

theorem Ensures.mapError {x : Judge ε α} {f : ε -> δ} (hx : Ensures x Q) :
    Ensures (x.mapError f) Q := by
  intro a ha
  rcases Option.map_eq_some_iff.mp ha with ⟨result, hrun, hresult⟩
  rw [except_mapError_ok] at hresult
  exact hx a (hresult ▸ hrun)

theorem Ensures.attempt {x : Judge ε α} (hx : Ensures x Q) :
    Ensures (x.attempt : Judge δ (Except ε α)) fun r => forall a, r = .ok a -> Q a := by
  intro r hr a ha
  rcases Option.map_eq_some_iff.mp hr with ⟨result, hrun, hresult⟩
  cases hresult
  exact hx a (ha ▸ hrun)

theorem ensures_bounded {x : Bounded α} (h : forall a, x = some a -> Q a) :
    Ensures (liftM x : Judge ε α) Q := by
  intro a ha
  cases x with
  | none => cases ha
  | some b =>
      cases ha
      exact h a rfl

end Judge

/-!
## Runs over an inference
-/

namespace Inferring

variable {ε δ α β : Type} {P : Inference -> Prop} {Q : α -> Prop} {R : β -> Prop}

def Ensures (P : Inference -> Prop) (x : Inferring ε α) (Q : α -> Prop) : Prop :=
  forall i r j, P i -> x.outcome i = some (r, j) -> P j ∧ forall a, r = .ok a -> Q a

def Preserves (P : Inference -> Prop) (x : Inferring ε α) : Prop :=
  x.Ensures P fun _ => True

theorem Ensures.result {x : Inferring ε α} {i j : Inference} {a : α} (hx : x.Ensures P Q)
    (hi : P i) (h : x.outcome i = some (.ok a, j)) : Q a :=
  (hx i _ j hi h).right a rfl

theorem Ensures.mono {x : Inferring ε α} {Q' : α -> Prop} (hx : x.Ensures P Q)
    (h : forall a, Q a -> Q' a) : x.Ensures P Q' := by
  intro i r j hi hrun
  rcases hx i r j hi hrun with ⟨hj, hresult⟩
  exact ⟨hj, fun a ha => h a (hresult a ha)⟩

theorem Ensures.preserves {x : Inferring ε α} (hx : x.Ensures P Q) : x.Preserves P :=
  hx.mono fun _ _ => trivial

theorem ensures_pure {a : α} (h : Q a) : (pure a : Inferring ε α).Ensures P Q := by
  intro i r j hi hrun
  cases hrun
  refine ⟨hi, ?_⟩
  intro b hb
  cases hb
  exact h

theorem ensures_throw (e : ε) : (throw e : Inferring ε α).Ensures P Q := by
  intro i r j hi hrun
  cases hrun
  exact ⟨hi, fun a ha => by cases ha⟩

theorem ensures_throw_bind (e : ε) (f : α -> Inferring ε β) :
    (throw e >>= f : Inferring ε β).Ensures P R := by
  intro i r j hi hrun
  cases hrun
  exact ⟨hi, fun a ha => by cases ha⟩

theorem ensures_exhausted : (exhausted : Inferring ε α).Ensures P Q := by
  intro i r j _ hrun
  cases hrun

theorem ensures_state : (state : Inferring ε Inference).Ensures P P := by
  intro i r j hi hrun
  cases hrun
  refine ⟨hi, ?_⟩
  intro k hk
  cases hk
  exact hi

theorem ensures_modify {f : Inference -> Inference} (h : forall i, P i -> P (f i)) :
    (modify f : Inferring ε Unit).Preserves P := by
  intro i r j hi hrun
  cases hrun
  exact ⟨h i hi, fun _ _ => trivial⟩

theorem Ensures.bind {x : Inferring ε α} {f : α -> Inferring ε β} (hx : x.Ensures P Q)
    (hf : forall a, Q a -> (f a).Ensures P R) : (x >>= f).Ensures P R := by
  intro i r j hi h
  rw [outcome_bind] at h
  split at h
  · cases h
  · rename_i a k hrun
    rcases hx i _ k hi hrun with ⟨hk, hresult⟩
    exact hf a (hresult a rfl) k r j hk h
  · rename_i e k hrun
    cases h
    exact ⟨(hx i _ j hi hrun).left, fun a ha => by cases ha⟩

theorem Preserves.bind {x : Inferring ε α} {f : α -> Inferring ε β} (hx : x.Preserves P)
    (hf : forall a, (f a).Ensures P R) : (x >>= f).Ensures P R :=
  Ensures.bind hx fun a _ => hf a

theorem Ensures.attempt {x : Inferring ε α} (hx : x.Ensures P Q) :
    (x.attempt : Inferring δ (Except ε α)).Ensures P fun r => forall a, r = .ok a -> Q a := by
  intro i r j hi h
  rw [outcome_attempt] at h
  rcases Option.map_eq_some_iff.mp h with ⟨⟨r', j'⟩, hrun, heq⟩
  cases heq
  rcases hx i r' _ hi hrun with ⟨hj, hresult⟩
  refine ⟨hj, ?_⟩
  intro b hb
  cases hb
  exact hresult

theorem Ensures.restoring {x : Inferring ε α} (hx : x.Ensures P Q) :
    x.restoring.Ensures P Q := by
  intro i r j hi h
  rw [outcome_restoring] at h
  split at h
  · cases h
  · rename_i hrun
    cases h
    exact hx i _ j hi hrun
  · cases h
    exact ⟨hi, fun a ha => by cases ha⟩

theorem Ensures.mapError {x : Inferring ε α} {f : ε -> δ} (hx : x.Ensures P Q) :
    (x.mapError f).Ensures P Q := by
  intro i r j hi h
  rcases Option.bind_eq_some_iff.mp h with ⟨⟨r', j'⟩, hrun, heq⟩
  cases heq
  rcases hx i r' _ hi hrun with ⟨hj, hresult⟩
  exact ⟨hj, fun a ha => hresult a (except_mapError_ok.mp ha)⟩

theorem Ensures.trial {x : Inferring ε α} (hx : x.Ensures P Q) :
    (x.trial : Inferring δ (Except ε α × Inference)).Ensures P
      fun r => P r.2 ∧ forall a, r.1 = .ok a -> Q a := by
  intro i r j hi h
  rcases Option.bind_eq_some_iff.mp h with ⟨⟨r', j'⟩, hrun, heq⟩
  cases heq
  refine ⟨hi, ?_⟩
  intro b hb
  cases hb
  exact hx i r' j' hi hrun

theorem Ensures.runWith {x : Inferring ε α} {i : Inference} (hx : x.Ensures P Q) (hi : P i) :
    Judge.Ensures (Inferring.runWith i x) fun r => Q r.1 ∧ P r.2 := by
  intro r hr
  have hrun := outcome_runWith.mp hr
  exact ⟨hx.result hi hrun, (hx i _ _ hi hrun).left⟩

theorem Ensures.withoutInference {x : Inferring ε α} (hx : x.Ensures P Q) (h : P .disabled) :
    Judge.Ensures x.withoutInference Q :=
  (hx.runWith h).bind fun _ hr => Judge.ensures_pure hr.left

/-!
### Steps that do not look at the inference
-/

theorem ensures_judge {x : Judge ε α} (h : x.Ensures Q) :
    (liftM x : Inferring ε α).Ensures P Q := by
  intro i r j hi hrun
  rcases Option.map_eq_some_iff.mp hrun with ⟨result, hx, heq⟩
  cases heq
  refine ⟨hi, ?_⟩
  intro a ha
  cases ha
  exact h a hx

theorem preserves_judge (x : Judge ε α) : (liftM x : Inferring ε α).Preserves P :=
  ensures_judge (Judge.ensures_any x)

theorem ensures_except {x : Except ε α} (h : forall a, x = .ok a -> Q a) :
    (liftM x : Inferring ε α).Ensures P Q := by
  intro i r j hi hrun
  cases hrun
  exact ⟨hi, h⟩

theorem ensures_bounded {x : Bounded α} (h : forall a, x = some a -> Q a) :
    (liftM x : Inferring ε α).Ensures P Q := by
  intro i r j hi hrun
  cases x with
  | none => cases hrun
  | some b =>
      cases hrun
      refine ⟨hi, ?_⟩
      intro a ha
      cases ha
      exact h _ rfl

end Inferring
end TypeChecker
