import TypeChecker.Proofs.Runs
import TypeChecker.Assign.Basic

/-!
# Answers do not depend on the depth

A run of more depth answers whatever a run of less depth answers. Two runs that both
answer therefore agree.
-/

namespace TypeChecker
namespace Inferring

variable {ε δ α β : Type}

def Extends (x y : Inferring ε α) : Prop :=
  forall i r, x.outcome i = some r -> y.outcome i = some r

theorem Extends.refl (x : Inferring ε α) : Extends x x :=
  fun _ _ h => h

theorem Extends.trans {x y z : Inferring ε α} (hxy : Extends x y) (hyz : Extends y z) :
    Extends x z :=
  fun i r h => hyz i r (hxy i r h)

theorem exhausted_extends (y : Inferring ε α) : Extends exhausted y := by
  intro i r h
  cases h

theorem Extends.bind {x y : Inferring ε α} {f g : α -> Inferring ε β} (hxy : Extends x y)
    (hfg : forall a, Extends (f a) (g a)) : Extends (x >>= f) (y >>= g) := by
  intro i r h
  rw [outcome_bind] at h ⊢
  split at h
  · cases h
  · rename_i a j hrun
    rw [hxy i _ hrun]
    exact hfg a j r h
  · rename_i e j hrun
    rw [hxy i _ hrun]
    exact h

theorem Extends.attempt {x y : Inferring ε α} (hxy : Extends x y) :
    Extends (x.attempt : Inferring δ (Except ε α)) y.attempt := by
  intro i r h
  rw [outcome_attempt] at h ⊢
  rcases Option.map_eq_some_iff.mp h with ⟨r', hrun, rfl⟩
  rw [hxy i r' hrun]
  rfl

theorem Extends.restoring {x y : Inferring ε α} (hxy : Extends x y) :
    Extends x.restoring y.restoring := by
  intro i r h
  rw [outcome_restoring] at h ⊢
  split at h
  · cases h
  · rename_i a j hrun
    rw [hxy i _ hrun]
    exact h
  · rename_i e j hrun
    rw [hxy i _ hrun]
    exact h

end Inferring

namespace Assign

open Inferring

variable {ctx : TypeContext} {assign assign' direct direct' : Assigner} {d : Direction}

theorem extends_items (h : forall d t g, Extends (assign d t g) (assign' d t g))
    (targets givens : List Ty) :
    Extends (items (assign d) targets givens) (items (assign' d) targets givens) := by
  induction targets generalizing givens with
  | nil => cases givens <;> exact Extends.refl _
  | cons t targets ih =>
      cases givens with
      | nil => exact Extends.refl _
      | cons g givens =>
          exact (h d t g).bind fun _ => (ih givens).bind fun _ => Extends.refl _

theorem extends_args (h : forall d t g, Extends (assign d t g) (assign' d t g))
    (params : List Param) (targets givens : List Ty) :
    Extends (args assign d params targets givens) (args assign' d params targets givens) := by
  induction targets generalizing params givens with
  | nil => cases givens <;> exact Extends.refl _
  | cons t targets ih =>
      cases givens with
      | nil => exact Extends.refl _
      | cons g givens =>
          exact (h _ t g).bind fun _ => (ih _ givens).bind fun _ => Extends.refl _

theorem extends_fields (h : forall d t g, Extends (assign d t g) (assign' d t g))
    (givens : Table String (Field Ty)) (targets : List (String × Field Ty)) :
    Extends (fields (assign d) givens targets) (fields (assign' d) givens targets) := by
  induction targets with
  | nil => exact Extends.refl _
  | cons item targets ih =>
      rcases item with ⟨name, field⟩
      refine (Extends.refl _).bind fun given => ?_
      split
      · exact (h _ _ _).bind fun _ => ih.bind fun _ => Extends.refl _
      · exact Extends.refl _

theorem extends_structural (h : forall d t g, Extends (assign d t g) (assign' d t g))
    (target given : Ty) :
    Extends (structural ctx assign d target given) (structural ctx assign' d target given) := by
  unfold structural
  split
  · exact Extends.refl _
  · exact Extends.refl _
  · exact Extends.refl _
  · split
    · split
      · exact Extends.refl _
      · exact (extends_args h _ _ _).bind fun _ => Extends.refl _
    · exact Extends.refl _
  · split
    · exact (extends_items h _ _).bind fun _ => Extends.refl _
    · exact Extends.refl _
  · split
    · exact (extends_fields h _ _).bind fun _ => Extends.refl _
    · exact Extends.refl _
  · exact (h _ _ _).bind fun _ => (h _ _ _).bind fun _ => Extends.refl _
  · exact Extends.refl _

theorem extends_fixedParam (h : forall d t g, Extends (assign d t g) (assign' d t g))
    (index : Nat) (given : Ty) :
    Extends (fixedParam ctx assign d index given) (fixedParam ctx assign' d index given) := by
  unfold fixedParam
  split
  · exact Extends.refl _
  · split
    · exact h _ _ _
    · exact Extends.refl _

theorem extends_inferredParam (hdirect : forall d t g, Extends (direct d t g) (direct' d t g))
    (h : forall d t g, Extends (assign d t g) (assign' d t g)) (index : Nat) (given : Ty) :
    Extends (inferredParam direct assign d index given)
      (inferredParam direct' assign' d index given) := by
  unfold inferredParam
  refine (Extends.refl _).bind fun i => ?_
  split
  · exact Extends.refl _
  · split
    · exact Extends.refl _
    · refine (hdirect _ _ _).attempt.bind fun result => ?_
      split
      · exact Extends.refl _
      · split
        · exact (h _ _ _).bind fun _ => Extends.refl _
        · exact Extends.refl _

theorem extends_target (hdirect : forall d t g, Extends (direct d t g) (direct' d t g))
    (h : forall d t g, Extends (assign d t g) (assign' d t g)) (t given : Ty) :
    Extends (target ctx direct assign d t given) (target ctx direct' assign' d t given) := by
  unfold target
  split
  · exact extends_inferredParam hdirect h _ _
  · exact extends_fixedParam h _ _
  · exact extends_structural h _ _

theorem extends_directly (hdirect : forall d t g, Extends (direct d t g) (direct' d t g))
    (h : forall d t g, Extends (assign d t g) (assign' d t g)) (t given : Ty) :
    Extends (directly ctx direct assign d t given) (directly ctx direct' assign' d t given) := by
  unfold directly
  split
  · exact extends_target hdirect h _ _
  · refine (h _ _ _).attempt.bind fun result => ?_
    split
    · exact Extends.refl _
    · exact extends_target hdirect h _ _

theorem extends_afterwards (h : forall d t g, Extends (assign d t g) (assign' d t g))
    (t given : Ty) :
    Extends (afterwards ctx assign d t given) (afterwards ctx assign' d t given) := by
  unfold afterwards
  cases d with
  | toTarget =>
      simp only
      split
      · exact Extends.refl _
      · split
        · exact Extends.refl _
        · split
          · exact h _ _ _
          · exact Extends.refl _
  | fromTarget =>
      simp only
      split
      · exact Extends.refl _
      · split
        · exact Extends.refl _
        · split
          · exact h _ _ _
          · exact Extends.refl _
  | exact => exact Extends.refl _

end Assign

section

open Inferring

variable {ctx : TypeContext}

theorem assign_extends_succ (depth : Nat) :
    (forall d t g, Extends (assign ctx depth d t g) (assign ctx (depth + 1) d t g)) ∧
      forall d t g,
        Extends (assignDirectly ctx depth d t g) (assignDirectly ctx (depth + 1) d t g) := by
  induction depth with
  | zero => exact ⟨fun _ _ _ => exhausted_extends _, fun _ _ _ => exhausted_extends _⟩
  | succ depth ih =>
      rcases ih with ⟨hassign, hdirect⟩
      constructor
      · intro d t g
        rw [assign, assign]
        refine (hdirect d t g).restoring.attempt.bind fun result => ?_
        cases result with
        | ok t => exact Extends.refl _
        | error e => exact Assign.extends_afterwards hassign t g
      · intro d t g
        rw [assignDirectly, assignDirectly]
        exact Assign.extends_directly hdirect hassign t g

/-- More depth gives the same answer. -/
theorem assign_extends {m n : Nat} (hle : m ≤ n) (d : Direction) (t g : Ty) :
    Extends (assign ctx m d t g) (assign ctx n d t g) := by
  induction hle with
  | refl => exact Extends.refl _
  | step _ ih => exact ih.trans ((assign_extends_succ _).left d t g)

theorem assignDirectly_extends {m n : Nat} (hle : m ≤ n) (d : Direction) (t g : Ty) :
    Extends (assignDirectly ctx m d t g) (assignDirectly ctx n d t g) := by
  induction hle with
  | refl => exact Extends.refl _
  | step _ ih => exact ih.trans ((assign_extends_succ _).right d t g)

theorem assign_agree {m n : Nat} {d : Direction} {t g : Ty} {i : Inference}
    {a b : Except Mismatch Ty × Inference} (ha : (assign ctx m d t g).outcome i = some a)
    (hb : (assign ctx n d t g).outcome i = some b) : a = b := by
  have ha' := assign_extends (Nat.le_max_left m n) d t g i a ha
  have hb' := assign_extends (Nat.le_max_right m n) d t g i b hb
  exact Option.some.inj (ha'.symm.trans hb')

theorem fits_extends {m n : Nat} (hle : m ≤ n) {expected given : Ty} {answer : Bool}
    (h : fits ctx m expected given = some answer) : fits ctx n expected given = some answer := by
  rcases Option.map_eq_some_iff.mp h with ⟨r, hr, rfl⟩
  exact Option.map_eq_some_iff.mpr ⟨r, assign_extends hle .toTarget expected given _ r hr, rfl⟩

theorem fits_agree {m n : Nat} {expected given : Ty} {a b : Bool}
    (ha : fits ctx m expected given = some a) (hb : fits ctx n expected given = some b) :
    a = b := by
  rcases Option.map_eq_some_iff.mp ha with ⟨r, hr, rfl⟩
  rcases Option.map_eq_some_iff.mp hb with ⟨s, hs, rfl⟩
  rw [assign_agree hr hs]

end

end TypeChecker
