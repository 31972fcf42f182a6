import TypeChecker.Proofs.Assign.Parts

/-!
# Steps of an assignment

An assignment accepts by a direct match, by absorbing `never` or `any`, or by opening
the smaller side once and going on. It rejects only if all of these reject.
-/

namespace TypeChecker

open Assign

variable {ctx : TypeContext}

/-!
## One step
-/

theorem assign_outcome (ctx : TypeContext) (depth : Nat) (d : Direction) (target given : Ty)
    (i : Inference) :
    (assign ctx (depth + 1) d target given).outcome i =
      match (assignDirectly ctx depth d target given).outcome i with
      | none => none
      | some (.ok t, j) => some (.ok t, j)
      | some (.error _, _) => (afterwards ctx (assign ctx depth) d target given).outcome i := by
  rw [assign, Inferring.outcome_restoring_attempt_bind]
  cases (assignDirectly ctx depth d target given).outcome i with
  | none => rfl
  | some result =>
      rcases result with ⟨r, j⟩
      cases r <;> rfl

theorem assign_ok {depth : Nat} {d : Direction} {target given t : Ty} {i j : Inference}
    (h : (assign ctx depth d target given).outcome i = some (.ok t, j)) :
    exists smaller, depth = smaller + 1 ∧
      ((assignDirectly ctx smaller d target given).outcome i = some (.ok t, j) ∨
        (afterwards ctx (assign ctx smaller) d target given).outcome i = some (.ok t, j)) := by
  cases depth with
  | zero => cases h
  | succ depth =>
      refine ⟨depth, rfl, ?_⟩
      rw [assign_outcome] at h
      split at h
      · cases h
      · rename_i hdirect
        rw [hdirect]
        exact Or.inl h
      · exact Or.inr h

theorem assign_error {depth : Nat} {d : Direction} {target given : Ty} {i j : Inference}
    {e : Mismatch} (h : (assign ctx depth d target given).outcome i = some (.error e, j)) :
    exists smaller, depth = smaller + 1 ∧
      (exists e' k, (assignDirectly ctx smaller d target given).outcome i = some (.error e', k)) ∧
      (afterwards ctx (assign ctx smaller) d target given).outcome i = some (.error e, j) := by
  cases depth with
  | zero => cases h
  | succ depth =>
      refine ⟨depth, rfl, ?_⟩
      rw [assign_outcome] at h
      split at h
      · cases h
      · cases h
      · rename_i hdirect
        exact ⟨⟨_, _, hdirect⟩, h⟩

theorem target_of_not_param {direct assign : Assigner} {d : Direction} {t given : Ty}
    (h : t.former.isParam = false) :
    target ctx direct assign d t given = structural ctx assign d t given := by
  cases t <;> simp_all [target, Ty.former, Former.isParam]

theorem assignDirectly_of_not_param {given : Ty} (h : given.former.isParam = false)
    (depth : Nat) (d : Direction) (t : Ty) :
    assignDirectly ctx (depth + 1) d t given =
      target ctx (assignDirectly ctx depth) (assign ctx depth) d t given := by
  have hbound : givenBound? ctx d given = none := by
    cases given <;> simp_all [givenBound?, Ty.former, Former.isParam]
  rw [assignDirectly, directly, hbound]

theorem assignDirectly_ok {depth : Nat} {d : Direction} {t given result : Ty} {i j : Inference}
    (h : (assignDirectly ctx depth d t given).outcome i = some (.ok result, j)) :
    exists smaller, depth = smaller + 1 ∧
      ((exists bound, givenBound? ctx d given = some bound ∧
          (assign ctx smaller d t bound).outcome i = some (.ok result, j)) ∨
        exists k, (target ctx (assignDirectly ctx smaller) (assign ctx smaller) d t
          given).outcome k = some (.ok result, j)) := by
  cases depth with
  | zero => cases h
  | succ depth =>
      refine ⟨depth, rfl, ?_⟩
      rw [assignDirectly, directly] at h
      split at h
      · exact Or.inr ⟨i, h⟩
      · rename_i bound hbound
        rw [Inferring.outcome_attempt_bind] at h
        split at h
        · cases h
        · rename_i r k hrun
          cases r with
          | ok t =>
              cases h
              exact Or.inl ⟨bound, hbound, hrun⟩
          | error e => exact Or.inr ⟨k, h⟩

theorem fixedParam_ok {assign : Assigner} {d : Direction} {index : Nat} {given result : Ty}
    {i j : Inference}
    (h : (fixedParam ctx assign d index given).outcome i = some (.ok result, j)) :
    (exists inferring, given = .param index inferring ∧ result = .param index inferring) ∨
      (given.former.isParam = false ∧ exists bound, targetBound? ctx d index = some bound ∧
        (assign d bound given).outcome i = some (.ok result, j)) := by
  unfold fixedParam at h
  split at h
  · rename_i other inferring
    split at h
    · rename_i hsame
      cases h
      subst hsame
      exact Or.inl ⟨inferring, rfl, rfl⟩
    · cases h
  · rename_i hnot
    right
    refine ⟨?_, ?_⟩
    · cases given <;> simp_all [Ty.former, Former.isParam]
    · split at h
      · rename_i bound hbound
        exact ⟨bound, hbound, h⟩
      · cases h

theorem givenBound?_unbounded (hbounds : ctx.bounds = {}) (d : Direction) (given : Ty) :
    givenBound? ctx d given = none := by
  unfold givenBound?
  rw [hbounds]
  split
  · cases d <;> rfl
  · rfl

theorem assignDirectly_unbounded (hbounds : ctx.bounds = {}) (depth : Nat) (d : Direction)
    (t given : Ty) :
    assignDirectly ctx (depth + 1) d t given =
      target ctx (assignDirectly ctx depth) (assign ctx depth) d t given := by
  rw [assignDirectly, directly, givenBound?_unbounded hbounds]

theorem fixedParam_outcome (hbounds : ctx.bounds = {}) {assign : Assigner} {d : Direction}
    {index : Nat} {given : Ty} {i : Inference} :
    (fixedParam ctx assign d index given).outcome i =
      if given = .param index true ∨ given = .param index false then some (.ok given, i)
      else some (.error .mismatch, i) := by
  have hbound : targetBound? ctx d index = none := by
    unfold targetBound?
    rw [hbounds]
    cases d <;> rfl
  unfold fixedParam
  split
  · rename_i other inferring
    by_cases hother : other = index
    · cases inferring <;> simp [hother]
    · rw [if_neg hother, if_neg]
      · rfl
      · simp [hother]
  · rename_i hnot
    rw [hbound, if_neg]
    · rfl
    · rintro (rfl | rfl)
      · exact hnot _ _ rfl
      · exact hnot _ _ rfl

theorem fixedParam_unbounded_ok (hbounds : ctx.bounds = {}) {assign : Assigner} {d : Direction}
    {index : Nat} {given t : Ty} {i j : Inference}
    (hfixed : given ≠ .param index true)
    (h : (fixedParam ctx assign d index given).outcome i = some (.ok t, j)) :
    given = .param index false ∧ t = .param index false ∧ i = j := by
  rw [fixedParam_outcome hbounds] at h
  split at h
  · rename_i hsame
    cases h
    rcases hsame with hmarked | hsame
    · exact absurd hmarked hfixed
    · exact ⟨hsame, hsame, rfl⟩
  · cases h

/-- What a parameter being inferred can do with a given type: it is bound for the first
time, its binding is matched, or its binding gives way after it was not matched. -/
inductive Infers (direct assign : Assigner) (d : Direction) (index : Nat) (given : Ty)
    (i : Inference) : Except Mismatch Ty -> Inference -> Prop where
  | disabled : Infers direct assign d index given i (.error .mismatch) i
  | bound (unbound : i.slot? index = none) :
      Infers direct assign d index given i (.ok given)
        (i.bind index { type := given, leeway := d.leeway })
  | matched {slot : Slot} {r : Except Mismatch Ty} {j : Inference}
      (found : i.slot? index = some slot)
      (run : (direct d slot.type given).outcome i = some (r, j)) :
      Infers direct assign d index given i r j
  | refused {slot : Slot} {e e' : Mismatch} {k j : Inference} (found : i.slot? index = some slot)
      (unmatched : (direct d slot.type given).outcome i = some (.error e, k))
      (run : (assign d.inverse slot.type given).outcome k = some (.error e', j)) :
      Infers direct assign d index given i (.error e') j
  | adjusted {slot : Slot} {e : Mismatch} {t : Ty} {k j : Inference}
      (found : i.slot? index = some slot)
      (unmatched : (direct d slot.type given).outcome i = some (.error e, k))
      (adjusts : d.adjusts slot.leeway = true)
      (run : (assign d.inverse slot.type given).outcome k = some (.ok t, j)) :
      Infers direct assign d index given i (.ok given) (j.bind index { slot with type := given })

theorem inferredParam_infers {direct assign : Assigner} {d : Direction} {index : Nat}
    {given : Ty} {r : Except Mismatch Ty} {i j : Inference}
    (h : (inferredParam direct assign d index given).outcome i = some (r, j)) :
    Infers direct assign d index given i r j := by
  unfold inferredParam at h
  rw [Inferring.outcome_bind, Inferring.outcome_state] at h
  simp only at h
  split at h
  · cases h
    exact Infers.disabled
  · split at h
    · rename_i hslot
      cases h
      exact Infers.bound hslot
    · rename_i slot hslot
      rw [Inferring.outcome_attempt_bind] at h
      split at h
      · cases h
      · rename_i result k hdirect
        cases result with
        | ok s =>
            cases h
            exact Infers.matched hslot hdirect
        | error e =>
            simp only at h
            split at h
            · rename_i hadjusts
              rw [Inferring.outcome_bind] at h
              split at h
              · cases h
              · rename_i hassign
                cases h
                exact Infers.adjusted hslot hdirect hadjusts hassign
              · rename_i hassign
                cases h
                exact Infers.refused hslot hdirect hassign
            · cases h
              exact Infers.matched hslot hdirect

/-!
## After a failed match
-/

theorem afterwards_toTarget {assign : Assigner} {target given : Ty} {i : Inference} :
    (afterwards ctx assign .toTarget target given).outcome i =
      if given = .never then
        if (i.substitute target).hasInferring then some (.error .mismatch, i)
        else some (.ok (i.substitute target), i)
      else if target = .any then some (.ok .any, i)
      else
        match given.unbox ctx.module ctx.registry with
        | .inner inner => (assign .toTarget target inner).outcome i
        | _ => some (.error .mismatch, i) := by
  unfold afterwards
  by_cases hnever : given = .never
  · simp only [hnever, if_true]
    rw [Inferring.outcome_bind, Inferring.outcome_state]
    simp only
    split <;> rfl
  · simp only [hnever, if_false]
    by_cases hany : target = .any
    · simp [hany]
    · simp only [hany, if_false]
      cases given.unbox ctx.module ctx.registry <;> rfl

theorem afterwards_fromTarget {assign : Assigner} {target given : Ty} {i : Inference} :
    (afterwards ctx assign .fromTarget target given).outcome i =
      if target = .never then some (.ok given, i)
      else if given = .any then some (.ok .any, i)
      else
        match target.unbox ctx.module ctx.registry with
        | .inner inner => (assign .fromTarget inner given).outcome i
        | _ => some (.error .mismatch, i) := by
  unfold afterwards
  by_cases hnever : target = .never
  · simp [hnever]
  · by_cases hany : given = .any
    · simp [hnever, hany]
    · simp only [hnever, hany, if_false]
      cases target.unbox ctx.module ctx.registry <;> rfl

/-- What an accepted assignment comes down to where there is no direct match. -/
inductive Resorts (ctx : TypeContext) (assign : Assigner) (i : Inference) :
    Direction -> Ty -> Ty -> Ty -> Inference -> Prop where
  | never {target : Ty} (closed : (i.substitute target).hasInferring = false) :
      Resorts ctx assign i .toTarget target .never (i.substitute target) i
  | any {given : Ty} : Resorts ctx assign i .toTarget .any given .any i
  | opened {target given inner t : Ty} {j : Inference}
      (unboxes : given.unbox ctx.module ctx.registry = .inner inner)
      (run : (assign .toTarget target inner).outcome i = some (.ok t, j)) :
      Resorts ctx assign i .toTarget target given t j
  | fromNever {given : Ty} : Resorts ctx assign i .fromTarget .never given given i
  | fromAny {target : Ty} : Resorts ctx assign i .fromTarget target .any .any i
  | fromOpened {target given inner t : Ty} {j : Inference}
      (unboxes : target.unbox ctx.module ctx.registry = .inner inner)
      (run : (assign .fromTarget inner given).outcome i = some (.ok t, j)) :
      Resorts ctx assign i .fromTarget target given t j

theorem afterwards_ok {assign : Assigner} {d : Direction} {target given t : Ty} {i j : Inference}
    (h : (afterwards ctx assign d target given).outcome i = some (.ok t, j)) :
    Resorts ctx assign i d target given t j := by
  cases d with
  | toTarget =>
      rw [afterwards_toTarget] at h
      split at h
      · rename_i hnever
        subst hnever
        split at h
        · cases h
        · rename_i hclosed
          cases h
          exact Resorts.never (Bool.eq_false_iff.mpr hclosed)
      · split at h
        · rename_i hany
          subst hany
          cases h
          exact Resorts.any
        · split at h
          · rename_i inner hunbox
            exact Resorts.opened hunbox h
          · cases h
  | fromTarget =>
      rw [afterwards_fromTarget] at h
      split at h
      · rename_i hnever
        subst hnever
        cases h
        exact Resorts.fromNever
      · split at h
        · rename_i hany
          subst hany
          cases h
          exact Resorts.fromAny
        · split at h
          · rename_i inner hunbox
            exact Resorts.fromOpened hunbox h
          · cases h
  | exact => cases h

end TypeChecker
