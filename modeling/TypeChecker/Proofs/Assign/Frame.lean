import TypeChecker.Proofs.Assign.Steps
import TypeChecker.Proofs.Ensures
import TypeChecker.Proofs.Registry.Stored

/-!
# Runs that bind nothing

A disabled inference stays as it is, and so does every inference if no parameter of
the target is being inferred. This holds whether the assignment accepts or rejects.
-/

namespace TypeChecker
namespace Inferring

variable {ε α : Type} {i j : Inference}

def Keeps (x : Inferring ε α) (i : Inference) : Prop :=
  x.Preserves fun j => j = i

theorem Keeps.eq {x : Inferring ε α} {r : Except ε α} (hx : x.Keeps i)
    (h : x.outcome i = some (r, j)) : j = i :=
  (hx i r j rfl h).left

end Inferring

/-!
## What steps of an assignment preserve
-/

namespace Assign

open Inferring

variable {ctx : TypeContext} {direct assign : Assigner} {d : Direction}
  {P : Inference -> Prop}

theorem preserves_items {targets givens : List Ty}
    (h : forall t g, t ∈ targets -> g ∈ givens -> (assign d t g).Preserves P) :
    (items (assign d) targets givens).Preserves P := by
  induction targets generalizing givens with
  | nil =>
      cases givens with
      | nil => exact ensures_pure trivial
      | cons g givens => exact ensures_throw _
  | cons t targets ih =>
      cases givens with
      | nil => exact ensures_throw _
      | cons g givens =>
          apply Preserves.bind (h t g List.mem_cons_self List.mem_cons_self)
          intro _
          refine Preserves.bind (ih ?_) fun _ => ensures_pure trivial
          exact fun t g ht hg => h t g (List.mem_cons_of_mem _ ht) (List.mem_cons_of_mem _ hg)

theorem preserves_args {params : List Param} {targets givens : List Ty}
    (h : forall d t g, t ∈ targets -> g ∈ givens -> (assign d t g).Preserves P) :
    (args assign d params targets givens).Preserves P := by
  induction targets generalizing params givens with
  | nil =>
      cases givens with
      | nil => exact ensures_pure trivial
      | cons g givens => exact ensures_throw _
  | cons t targets ih =>
      cases givens with
      | nil => exact ensures_throw _
      | cons g givens =>
          apply Preserves.bind (h _ t g List.mem_cons_self List.mem_cons_self)
          intro _
          refine Preserves.bind (ih ?_) fun _ => ensures_pure trivial
          exact fun d t g ht hg => h d t g (List.mem_cons_of_mem _ ht) (List.mem_cons_of_mem _ hg)

theorem preserves_fields {givens : Table String (Field Ty)} {targets : List (String × Field Ty)}
    (h : forall item given, item ∈ targets -> given ∈ givens ->
      (assign d item.2.type given.2.type).Preserves P) :
    (fields (assign d) givens targets).Preserves P := by
  induction targets with
  | nil => exact ensures_pure trivial
  | cons item targets ih =>
      rcases item with ⟨name, field⟩
      rw [fields]
      have hfound : (Assigning.ofOption (Table.get? givens name)).Ensures P
          fun given => (name, given) ∈ givens := by
        cases hget : Table.get? givens name with
        | none => exact ensures_throw _
        | some given => exact ensures_pure (Table.mem_of_get? hget)
      apply hfound.bind
      intro given hgiven
      split
      · apply Preserves.bind (h (name, field) (name, given) List.mem_cons_self hgiven)
        intro _
        refine Preserves.bind (ih ?_) fun _ => ensures_pure trivial
        exact fun item given hitem => h item given (List.mem_cons_of_mem _ hitem)
      · exact ensures_throw _

theorem preserves_structural {target given : Ty}
    (h : forall d t g, t ∈ target.parts -> g ∈ given.parts -> (assign d t g).Preserves P) :
    (structural ctx assign d target given).Preserves P := by
  unfold structural
  split
  · exact ensures_pure trivial
  · exact ensures_pure trivial
  · exact ensures_pure trivial
  · split
    · split
      · exact ensures_throw _
      · exact (preserves_args h).bind fun _ => ensures_pure trivial
    · exact ensures_throw _
  · split
    · exact (preserves_items (h d)).bind fun _ => ensures_pure trivial
    · exact ensures_throw _
  · split
    · refine (preserves_fields fun item g hitem hg => ?_).bind fun _ => ensures_pure trivial
      exact h d _ _ (List.mem_map.mpr ⟨item, hitem, rfl⟩) (List.mem_map.mpr ⟨g, hg, rfl⟩)
    · exact ensures_throw _
  · apply Preserves.bind (h _ _ _ (by simp [Ty.parts]) (by simp [Ty.parts]))
    intro _
    exact Preserves.bind (h _ _ _ (by simp [Ty.parts]) (by simp [Ty.parts]))
      fun _ => ensures_pure trivial
  · exact ensures_throw _

theorem preserves_fixedParam {index : Nat} {given : Ty}
    (h : forall bound, targetBound? ctx d index = some bound ->
      (assign d bound given).Preserves P) :
    (fixedParam ctx assign d index given).Preserves P := by
  unfold fixedParam
  split
  · split
    · exact ensures_pure trivial
    · exact ensures_throw _
  · split
    · rename_i bound hbound
      exact h bound hbound
    · exact ensures_throw _

theorem preserves_directly {t given : Ty}
    (hassign : forall bound, givenBound? ctx d given = some bound ->
      (assign d t bound).Preserves P)
    (htarget : (target ctx direct assign d t given).Preserves P) :
    (directly ctx direct assign d t given).Preserves P := by
  rw [directly]
  split
  · exact htarget
  · apply Ensures.bind (Ensures.attempt (hassign _ (by assumption)))
    intro result _
    cases result with
    | ok t => exact ensures_pure trivial
    | error e => exact htarget

theorem preserves_afterwards {t given : Ty}
    (hself : forall inner, given.unbox ctx.module ctx.registry = .inner inner ->
      (assign d t inner).Preserves P)
    (hopened : forall inner, t.unbox ctx.module ctx.registry = .inner inner ->
      (assign d inner given).Preserves P) :
    (afterwards ctx assign d t given).Preserves P := by
  intro i r j hi h
  cases d with
  | toTarget =>
      rw [afterwards_toTarget] at h
      split at h
      · split at h <;> cases h <;> exact ⟨hi, fun _ _ => trivial⟩
      · split at h
        · cases h
          exact ⟨hi, fun _ _ => trivial⟩
        · split at h
          · rename_i inner hunbox
            exact hself inner hunbox i r j hi h
          · cases h
            exact ⟨hi, fun _ _ => trivial⟩
  | fromTarget =>
      rw [afterwards_fromTarget] at h
      split at h
      · cases h
        exact ⟨hi, fun _ _ => trivial⟩
      · split at h
        · cases h
          exact ⟨hi, fun _ _ => trivial⟩
        · split at h
          · rename_i inner hunbox
            exact hopened inner hunbox i r j hi h
          · cases h
            exact ⟨hi, fun _ _ => trivial⟩
  | exact =>
      cases h
      exact ⟨hi, fun _ _ => trivial⟩

theorem preserves_inferredParam {index : Nat} {given : Ty}
    (hbind : forall i index slot, P i -> P (i.bind index slot))
    (hdirect : forall d t g, (direct d t g).Preserves P)
    (hassign : forall d t g, (assign d t g).Preserves P) :
    (inferredParam direct assign d index given).Preserves P := by
  unfold inferredParam
  apply Ensures.bind ensures_state
  intro i _
  split
  · exact ensures_throw _
  · split
    · exact Preserves.bind (ensures_modify fun i hi => hbind i _ _ hi)
        fun _ => ensures_pure trivial
    · apply Ensures.bind (Ensures.attempt (hdirect _ _ _))
      intro result _
      cases result with
      | ok t => exact ensures_pure trivial
      | error e =>
          dsimp only
          split
          · apply Preserves.bind (hassign _ _ _)
            intro _
            exact Preserves.bind (ensures_modify fun i hi => hbind i _ _ hi)
              fun _ => ensures_pure trivial
          · exact ensures_throw _

end Assign

/-!
## Assignments
-/

section

open Assign Inferring

variable {ctx : TypeContext} {i : Inference}

def Ty.BindsNothing (i : Inference) (t : Ty) : Prop :=
  i.enabled = false ∨ t.hasInferring = false

theorem Ty.BindsNothing.part {t s : Ty} (h : t.BindsNothing i) (hs : s ∈ t.parts) :
    s.BindsNothing i := by
  rcases h with h | h
  · exact Or.inl h
  · have hparts := (Ty.everywhere_iff.mp (Ty.anyParam_eq_false.mp h)).right
    exact Or.inr (Ty.anyParam_eq_false.mpr (hparts s hs))

def TypeContext.boundTypes (ctx : TypeContext) : List Ty :=
  ctx.bounds.lower.map Prod.snd ++ ctx.bounds.upper.map Prod.snd

theorem mem_boundTypes_of_target {d : Direction} {index : Nat} {bound : Ty}
    (h : targetBound? ctx d index = some bound) : bound ∈ ctx.boundTypes := by
  unfold targetBound? at h
  cases d with
  | toTarget => exact List.mem_append_left _ (List.mem_map.mpr ⟨_, Table.mem_of_get? h, rfl⟩)
  | fromTarget => exact List.mem_append_right _ (List.mem_map.mpr ⟨_, Table.mem_of_get? h, rfl⟩)
  | exact => cases h

theorem mem_boundTypes_of_given {d : Direction} {given bound : Ty}
    (h : givenBound? ctx d given = some bound) : bound ∈ ctx.boundTypes := by
  unfold givenBound? at h
  split at h
  · cases d with
    | toTarget => exact List.mem_append_right _ (List.mem_map.mpr ⟨_, Table.mem_of_get? h, rfl⟩)
    | fromTarget => exact List.mem_append_left _ (List.mem_map.mpr ⟨_, Table.mem_of_get? h, rfl⟩)
    | exact => cases h
  · cases h

/-- No type that a context brings in has a parameter being inferred. -/
structure TypeContext.Plain (ctx : TypeContext) : Prop where
  registry : ctx.registry.Stores (Former.onParams (fun _ inferring => !inferring) fun _ => true)
  bounds : forall bound, bound ∈ ctx.boundTypes -> bound.hasInferring = false

theorem TypeContext.plain_of_lawful (hlawful : ctx.registry.Lawful) (hbounds : ctx.bounds = {}) :
    ctx.Plain where
  registry := fun name d hd t ht =>
    Ty.anyParam_eq_false.mp (Ty.hasInferring_eq_false (hlawful.known name d hd t ht))
  bounds := by
    intro bound hbound
    rw [TypeContext.boundTypes, hbounds] at hbound
    cases hbound

variable (hquiet : i.enabled = false ∨ ctx.Plain)

include hquiet

theorem Ty.BindsNothing.unbox {t inner : Ty} (h : t.BindsNothing i)
    (hunbox : t.unbox ctx.module ctx.registry = .inner inner) : inner.BindsNothing i := by
  rcases hquiet with hquiet | hplain
  · exact Or.inl hquiet
  · rcases h with h | h
    · exact Or.inl h
    · exact Or.inr (Ty.anyParam_eq_false.mpr
        (Ty.everywhere_unbox hplain.registry (Ty.anyParam_eq_false.mp h) hunbox))

theorem TypeContext.bindsNothing_bound {bound : Ty} (h : bound ∈ ctx.boundTypes) :
    bound.BindsNothing i := by
  rcases hquiet with hquiet | hplain
  · exact Or.inl hquiet
  · exact Or.inr (hplain.bounds bound h)

theorem keeps_target {direct assign : Assigner} {d : Direction} {t given : Ty}
    (ht : t.BindsNothing i)
    (hassign : forall d s g, s.BindsNothing i -> (assign d s g).Keeps i) :
    (target ctx direct assign d t given).Keeps i := by
  cases hparam : t.former.isParam with
  | true =>
      rcases Ty.former_eq_param hparam with ⟨index, inferring, rfl⟩
      cases inferring with
      | true =>
          have hdisabled : i.enabled = false := by
            rcases ht with h | h
            · exact h
            · cases h
          apply Ensures.bind ensures_state
          intro j hj
          rw [hj, hdisabled]
          exact ensures_throw _
      | false =>
          exact preserves_fixedParam fun bound hbound => hassign d bound given
            (TypeContext.bindsNothing_bound hquiet (mem_boundTypes_of_target hbound))
  | false =>
      rw [target_of_not_param hparam]
      exact preserves_structural fun d s g hs _ => hassign d s g (ht.part hs)

theorem keeps_assign_and_directly (depth : Nat) {d : Direction} {t given : Ty}
    (ht : t.BindsNothing i) :
    (assign ctx depth d t given).Keeps i ∧ (assignDirectly ctx depth d t given).Keeps i := by
  induction depth generalizing d t given with
  | zero => exact ⟨ensures_exhausted, ensures_exhausted⟩
  | succ depth ih =>
      constructor
      · rw [assign]
        refine Ensures.bind (Ensures.attempt (Ensures.restoring (ih ht).right))
          fun result _ => ?_
        cases result with
        | ok t => exact ensures_pure trivial
        | error e =>
            exact preserves_afterwards (fun _ _ => (ih ht).left)
              fun inner hunbox => (ih (ht.unbox hquiet hunbox)).left
      · rw [assignDirectly]
        exact preserves_directly (fun _ _ => (ih ht).left)
          (keeps_target hquiet ht fun d s g hs => (ih hs).left)

/-- Assigning to a type in which nothing is inferred leaves the inference as it is. -/
theorem assign_keeps {depth : Nat} {d : Direction} {t given : Ty} (ht : t.BindsNothing i) :
    (assign ctx depth d t given).Keeps i :=
  (keeps_assign_and_directly hquiet depth ht).left

theorem assignDirectly_keeps {depth : Nat} {d : Direction} {t given : Ty}
    (ht : t.BindsNothing i) : (assignDirectly ctx depth d t given).Keeps i :=
  (keeps_assign_and_directly hquiet depth ht).right

end

section

open Assign Inferring

variable {ctx : TypeContext}

/-- A condition on given types that is passed on to whatever an assignment looks at in
their place. -/
structure Assign.PassedOn (ctx : TypeContext) (Q : Ty -> Prop) : Prop where
  part : forall given, Q given -> forall s, s ∈ given.parts -> Q s
  unbox : forall given, Q given -> forall inner,
    given.unbox ctx.module ctx.registry = .inner inner -> Q inner
  bound : forall given, Q given -> forall d bound, givenBound? ctx d given = some bound -> Q bound

/-- What holds between the inference at some point and the inferences that follow goes on
to hold through assignments of given types, if it does so through every use of a
parameter being inferred. -/
theorem preserves_of_params {Q : Ty -> Prop} (hQ : PassedOn ctx Q)
    {R : Inference -> Inference -> Prop}
    (hparam : forall depth,
      (forall d t g base, Q g -> (assign ctx depth d t g).Preserves (R base) ∧
        (assignDirectly ctx depth d t g).Preserves (R base)) ->
      forall d index g base, Q g ->
        (inferredParam (assignDirectly ctx depth) (assign ctx depth) d index g).Preserves (R base))
    (depth : Nat) (d : Direction) (t given : Ty) (base : Inference) (hgiven : Q given) :
    (assign ctx depth d t given).Preserves (R base) ∧
      (assignDirectly ctx depth d t given).Preserves (R base) := by
  induction depth generalizing d t given base with
  | zero => exact ⟨ensures_exhausted, ensures_exhausted⟩
  | succ depth ih =>
      constructor
      · rw [assign]
        refine Ensures.bind (Ensures.attempt (Ensures.restoring (ih d t given base hgiven).right))
          fun result _ => ?_
        cases result with
        | ok t => exact ensures_pure trivial
        | error e =>
            exact preserves_afterwards
              (fun inner hunbox => (ih d t inner base (hQ.unbox given hgiven inner hunbox)).left)
              fun inner _ => (ih d inner given base hgiven).left
      · rw [assignDirectly]
        refine preserves_directly
          (fun bound hbound => (ih d t bound base (hQ.bound given hgiven d bound hbound)).left) ?_
        unfold target
        split
        · exact hparam depth ih d _ given base hgiven
        · exact preserves_fixedParam fun bound _ => (ih d bound given base hgiven).left
        · exact preserves_structural
            fun d s g _ hg => (ih d s g base (hQ.part given hgiven g hg)).left

theorem preserves_assign_and_directly {P : Inference -> Prop}
    (hbind : forall i index slot, P i -> P (i.bind index slot))
    (depth : Nat) (d : Direction) (t given : Ty) :
    (assign ctx depth d t given).Preserves P ∧
      (assignDirectly ctx depth d t given).Preserves P := by
  have hpassed : PassedOn ctx fun _ => True := ⟨by simp, by simp, by simp⟩
  refine preserves_of_params (R := fun _ => P) hpassed ?_ depth d t given .disabled trivial
  intro depth ih d index g base _
  exact preserves_inferredParam hbind (fun d t g => (ih d t g base trivial).right)
    fun d t g => (ih d t g base trivial).left

end

end TypeChecker
