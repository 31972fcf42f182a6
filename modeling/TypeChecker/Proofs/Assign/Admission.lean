import TypeChecker.Proofs.Assign.Frame

/-!
# What is never refused

An assignment need not come to an end, since a box may open to ever new boxes. What
can be said of a pair of types for every depth is that it is not refused. Matching
parts, absorbing `never` and `any`, and opening the smaller side all lead from pairs
that are not refused to another one.
-/

namespace TypeChecker

open Assign

def Admits (ctx : TypeContext) (d : Direction) (target given : Ty) : Prop :=
  forall depth e j, (assign ctx depth d target given).outcome .disabled ≠ some (.error e, j)

namespace Assign

theorem parts_error {assign : Assigner} {d : Direction} {vs : List Variance}
    {targets givens : List Ty} {i j : Inference} {e : Mismatch}
    (hkeeps : forall d t g, (assign d t g).Keeps i)
    (hvs : vs.length = targets.length) (hgivens : givens.length = targets.length)
    (h : (parts assign d vs targets givens).outcome i = some (.error e, j)) :
    exists (k : Nat) (v : Variance) (target given : Ty),
      vs[k]? = some v ∧ targets[k]? = some target ∧ givens[k]? = some given ∧
        (assign (d.within v) target given).outcome i = some (.error e, j) := by
  induction targets generalizing vs givens with
  | nil =>
      rw [List.length_eq_zero_iff.mp hvs, List.length_eq_zero_iff.mp hgivens] at h
      cases h
  | cons target targets ih =>
      cases vs with
      | nil => simp at hvs
      | cons v vs =>
          cases givens with
          | nil => simp at hgivens
          | cons given givens =>
              simp only [List.length_cons, Nat.add_right_cancel_iff] at hvs hgivens
              simp only [parts] at h
              rcases Inferring.outcome_bind_error.mp h with hfirst | ⟨first, k, hrun, h⟩
              · exact ⟨0, v, target, given, rfl, rfl, rfl, hfirst⟩
              · cases (hkeeps _ _ _).eq hrun
                rcases Inferring.outcome_bind_error.mp h with hrest | ⟨rest, l, _, h⟩
                · rcases ih hvs hgivens hrest with ⟨k, v', t, g, hv, ht, hg, hk⟩
                  exact ⟨k + 1, v', t, g, hv, ht, hg, hk⟩
                · cases h

theorem parts_ok {assign : Assigner} {d : Direction} {vs : List Variance}
    {targets givens results : List Ty} {i j : Inference}
    (h : (parts assign d vs targets givens).outcome i = some (.ok results, j)) :
    results.length = targets.length ∧
      forall (k : Nat) v target given result, vs[k]? = some v -> targets[k]? = some target ->
        givens[k]? = some given -> results[k]? = some result ->
          exists i' j', (assign (d.within v) target given).outcome i' = some (.ok result, j') := by
  induction targets generalizing vs givens results i with
  | nil =>
      cases givens with
      | nil =>
          cases vs <;> cases h <;> simp
      | cons given givens => cases vs <;> cases h
  | cons target targets ih =>
      cases vs with
      | nil => cases givens <;> cases h
      | cons v vs =>
          cases givens with
          | nil => cases h
          | cons given givens =>
              simp only [parts] at h
              rcases Inferring.outcome_bind_ok.mp h with ⟨first, k, hfirst, h⟩
              rcases Inferring.outcome_bind_ok.mp h with ⟨rest, l, hrest, h⟩
              cases h
              rcases ih hrest with ⟨hlen, hall⟩
              refine ⟨by simp [hlen], ?_⟩
              intro index v' t g r hv ht hg hr
              cases index with
              | zero =>
                  cases hv
                  cases ht
                  cases hg
                  cases hr
                  exact ⟨_, _, hfirst⟩
              | succ index => exact hall index v' t g r hv ht hg hr

end Assign

section

variable {ctx : TypeContext} {d : Direction} {target given : Ty}

theorem Admits.of_steps
    (h : forall depth e j e' k,
      (assignDirectly ctx (depth + 1) d target given).outcome .disabled = some (.error e, j) ->
      (afterwards ctx (assign ctx (depth + 1)) d target given).outcome .disabled ≠
        some (.error e', k)) :
    Admits ctx d target given := by
  intro depth e j hrun
  rcases assign_error hrun with ⟨smaller, rfl, ⟨e', k, hdirect⟩, hafter⟩
  cases smaller with
  | zero => cases hdirect
  | succ depth => exact h depth e' k e j hdirect hafter

theorem Admits.param (index : Nat) (inferring : Bool) :
    Admits ctx d (.param index false) (.param index inferring) := by
  apply Admits.of_steps
  intro depth e j e' k hdirect
  have hmatch : forall i, (target ctx (assignDirectly ctx depth) (assign ctx depth) d
      (.param index false) (.param index inferring)).outcome i =
        some (.ok (.param index inferring), i) := by
    intro i
    simp [Assign.target, fixedParam]
  rw [assignDirectly, directly] at hdirect
  split at hdirect
  · rw [hmatch] at hdirect
    cases hdirect
  · rw [Inferring.outcome_attempt_bind] at hdirect
    split at hdirect
    · cases hdirect
    · rename_i result i _
      cases result with
      | ok t => cases hdirect
      | error e =>
          rw [hmatch] at hdirect
          cases hdirect

/-- Types of one former are not refused if their parts are not. -/
theorem Admits.of_parts (hparam : target.former.isParam = false)
    (hformer : target.former = given.former)
    (hknown : given.former.isKnown ctx.registry = true)
    (hparts : forall (k : Nat) v t g, (target.former.positions ctx.registry)[k]? = some v ->
      target.parts[k]? = some t -> given.parts[k]? = some g -> Admits ctx (d.within v) t g) :
    Admits ctx d target given := by
  apply Admits.of_steps
  intro depth e j e' k hdirect
  rw [assignDirectly_of_not_param (hformer ▸ hparam), target_of_not_param hparam,
    structural_eq_parts hparam hformer hknown, Inferring.outcome_map] at hdirect
  split at hdirect
  · cases hdirect
  · cases hdirect
  · rename_i hrun
    cases hdirect
    have hlen := Ty.length_positions ctx.registry target
    have hgivens := Ty.parts_length_eq hformer
    have hkeeps : forall d t g, (assign ctx depth d t g).Keeps .disabled :=
      fun d t g => assign_keeps (Or.inl rfl) (Or.inl rfl)
    rcases parts_error hkeeps hlen hgivens.symm hrun with ⟨k, v, t, g, hv, ht, hg, hfail⟩
    exact absurd hfail (hparts k v t g hv ht hg _ _ _)

theorem Admits.never (hplain : target.hasInferring = false) :
    Admits ctx .toTarget target .never := by
  apply Admits.of_steps
  intro depth e j e' k _
  rw [afterwards_toTarget, if_pos rfl, Ty.substitute_eq_self _ hplain, hplain]
  simp

theorem Admits.any : Admits ctx .toTarget .any given := by
  apply Admits.of_steps
  intro depth e j e' k _
  rw [afterwards_toTarget]
  split
  · simp [Inference.substitute, Ty.replace, Ty.hasInferring, Ty.anyParam]
  · simp

theorem Admits.from_never : Admits ctx .fromTarget .never given := by
  apply Admits.of_steps
  intro depth e j e' k _
  rw [afterwards_fromTarget, if_pos rfl]
  simp

theorem Admits.from_any : Admits ctx .fromTarget target .any := by
  apply Admits.of_steps
  intro depth e j e' k _
  rw [afterwards_fromTarget]
  split <;> simp

theorem Admits.opened {inner : Ty}
    (hunbox : given.unbox ctx.module ctx.registry = .inner inner)
    (h : Admits ctx .toTarget target inner) : Admits ctx .toTarget target given := by
  apply Admits.of_steps
  intro depth e j e' k _
  have hnever : given ≠ .never := by
    rintro rfl
    cases hunbox
  rw [afterwards_toTarget, if_neg hnever]
  split
  · simp
  · rw [hunbox]
    exact h _ _ _

theorem Admits.from_opened {inner : Ty}
    (hunbox : target.unbox ctx.module ctx.registry = .inner inner)
    (h : Admits ctx .fromTarget inner given) : Admits ctx .fromTarget target given := by
  apply Admits.of_steps
  intro depth e j e' k _
  have hnever : target ≠ .never := by
    rintro rfl
    cases hunbox
  rw [afterwards_fromTarget, if_neg hnever]
  split
  · simp
  · rw [hunbox]
    exact h _ _ _

theorem Admits.self (d : Direction) {t : Ty}
    (hknown : t.everywhere (Former.isKnown ctx.registry) = true) : Admits ctx d t t := by
  induction t using Ty.induction_parts generalizing d with
  | step t ih =>
      rcases Ty.everywhere_iff.mp hknown with ⟨hhere, hparts⟩
      cases hparam : t.former.isParam with
      | true =>
          rcases Ty.former_eq_param hparam with ⟨index, inferring, rfl⟩
          cases inferring
          · exact Admits.param index false
          · cases hhere
      | false =>
          apply Admits.of_parts hparam rfl hhere
          intro k v s s' _ hs hs'
          cases hs.symm.trans hs'
          have hmem := List.mem_of_getElem? hs
          exact ih s hmem _ (hparts s hmem)

theorem Admits.isOk (h : Admits ctx d target given) {depth : Nat} {result : Except Mismatch Ty}
    {j : Inference}
    (hrun : (assign ctx depth d target given).outcome .disabled = some (result, j)) :
    result.isOk = true := by
  cases result with
  | ok t => rfl
  | error e => exact absurd hrun (h depth e j)

theorem Admits.answer_eq (h : Admits ctx .toTarget target given) {depth : Nat} {answer : Bool}
    (hanswer : fits ctx depth target given = some answer) : answer = true := by
  rcases Option.map_eq_some_iff.mp hanswer with ⟨⟨result, j⟩, hrun, rfl⟩
  exact h.isOk hrun

end

end TypeChecker
