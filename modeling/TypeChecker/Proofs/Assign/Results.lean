import TypeChecker.Proofs.Assign.Admission
import TypeChecker.Proofs.Assign.Depth

/-!
# Types that result from assignments

The type that results from an assignment is not refused by the target, whatever the
given type was: the result has the form of the target, or was taken from the given
type where the target accepts it.
-/

namespace TypeChecker

open Assign

/-!
## Matches by structure
-/

namespace Assign

variable {ctx : TypeContext} {assign : Assigner} {d : Direction} {i j : Inference}

theorem parts_results {vs : List Variance} {targets givens results : List Ty}
    (hlen : targets.length = givens.length)
    (h : (parts assign d vs targets givens).outcome i = some (.ok results, j)) :
    results.length = targets.length ∧
      forall (k : Nat) v part result, vs[k]? = some v -> targets[k]? = some part ->
        results[k]? = some result ->
          exists g i' j', (assign (d.within v) part g).outcome i' = some (.ok result, j') := by
  rcases parts_ok h with ⟨hcount, hall⟩
  refine ⟨hcount, ?_⟩
  intro k v part result hv hpart hresult
  have hk : k < givens.length := by
    rw [<- hlen]
    exact (List.getElem?_eq_some_iff.mp hpart).choose
  exact ⟨_, hall k v part _ result hv hpart (List.getElem?_eq_getElem hk) hresult⟩

theorem fields_ok {assign : Ty -> Ty -> Assigning Ty} {table : Table String (Field Ty)}
    {targets result : List (String × Field Ty)} {i j : Inference}
    (h : (fields assign table targets).outcome i = some (.ok result, j)) :
    result.map (fun item => (item.1, item.2.slot)) =
        targets.map (fun item => (item.1, item.2.slot)) ∧
      forall (k : Nat) target found, targets[k]? = some target -> result[k]? = some found ->
        exists given i' j',
          (assign target.2.type given).outcome i' = some (.ok found.2.type, j') := by
  induction targets generalizing i j result with
  | nil =>
      cases h
      exact ⟨rfl, fun k target found htarget => by cases htarget⟩
  | cons target targets ih =>
      rcases target with ⟨name, field⟩
      simp only [fields] at h
      rcases Inferring.outcome_bind_ok.mp h with ⟨given, i₁, _, h⟩
      split at h
      · rcases Inferring.outcome_bind_ok.mp h with ⟨type, i₂, htype, h⟩
        rcases Inferring.outcome_bind_ok.mp h with ⟨rest, i₃, hrest, h⟩
        cases h
        rcases ih hrest with ⟨hheads, hall⟩
        refine ⟨by rw [List.map_cons, List.map_cons, hheads], ?_⟩
        intro k target found htarget hfound
        cases k with
        | zero =>
            cases htarget
            cases hfound
            exact ⟨_, _, _, htype⟩
        | succ k => exact hall k target found htarget hfound
      · cases h

/-- A match by structure gives a type of the form of the target, each of its parts a
result for the part of the target. -/
theorem structural_ok {target given t : Ty}
    (h : (structural ctx assign d target given).outcome i = some (.ok t, j)) :
    t.former = target.former ∧
      forall (k : Nat) v part result, (target.former.positions ctx.registry)[k]? = some v ->
        target.parts[k]? = some part -> t.parts[k]? = some result ->
          exists g i' j', (assign (d.within v) part g).outcome i' = some (.ok result, j') := by
  unfold structural at h
  split at h
  · cases h
    exact ⟨rfl, fun k v part result hv => by cases hv⟩
  · cases h
    exact ⟨rfl, fun k v part result hv => by cases hv⟩
  · cases h
    exact ⟨rfl, fun k v part result hv => by cases hv⟩
  · rename_i name targets other givens
    split at h
    · rename_i hsame
      simp only [Bool.and_eq_true, decide_eq_true_eq, beq_iff_eq] at hsame
      split at h
      · cases h
      · rename_i declaration hd
        rcases Inferring.outcome_bind_ok.mp h with ⟨results, _, hargs, h⟩
        cases h
        rw [args_eq_parts hsame.right] at hargs
        rcases parts_results hsame.right hargs with ⟨hlen, hall⟩
        refine ⟨by rw [Ty.former, Ty.former, hlen], ?_⟩
        intro k v part result hv
        apply hall k v part result
        simpa [Ty.former, Former.positions, Registry.varianceAt, hd] using hv
    · cases h
  · rename_i targets givens
    split at h
    · rename_i hsame
      rcases Inferring.outcome_bind_ok.mp h with ⟨results, _, hitems, h⟩
      cases h
      rw [items_eq_parts hsame] at hitems
      rcases parts_results hsame hitems with ⟨hlen, hall⟩
      exact ⟨by rw [Ty.former, Ty.former, hlen], hall⟩
    · cases h
  · rename_i targets givens
    split at h
    · rcases Inferring.outcome_bind_ok.mp h with ⟨results, _, hfields, h⟩
      cases h
      rcases fields_ok hfields with ⟨hheads, hall⟩
      refine ⟨by rw [Ty.former, Ty.former, hheads], ?_⟩
      intro k v part result hv hpart hresult
      simp only [Ty.parts, List.getElem?_map] at hpart hresult
      rcases Option.map_eq_some_iff.mp hpart with ⟨target, htarget, rfl⟩
      rcases Option.map_eq_some_iff.mp hresult with ⟨found, hfound, rfl⟩
      have hv : v = .covariant := by
        rcases List.mem_map.mp (List.mem_of_getElem? hv) with ⟨_, _, rfl⟩
        rfl
      rw [hv, Direction.within_covariant]
      exact hall k target found htarget hfound
    · cases h
  · rcases Inferring.outcome_bind_ok.mp h with ⟨input, _, hinput, h⟩
    rcases Inferring.outcome_bind_ok.mp h with ⟨output, _, houtput, h⟩
    cases h
    refine ⟨rfl, ?_⟩
    intro k v part result hv hpart hresult
    rcases k with _ | _ | k
    · cases hv
      cases hpart
      cases hresult
      rw [Direction.within_contravariant]
      exact ⟨_, _, _, hinput⟩
    · cases hv
      cases hpart
      cases hresult
      rw [Direction.within_covariant]
      exact ⟨_, _, _, houtput⟩
    · cases hv
  · cases h

end Assign

/-!
## What the target accepts
-/

def TypeContext.BoundsKnown (ctx : TypeContext) : Prop :=
  forall bound, bound ∈ ctx.boundTypes ->
    bound.former.isParam = false ∧ bound.everywhere (Former.isKnown ctx.registry) = true

theorem TypeContext.boundsKnown_of_empty {ctx : TypeContext} (h : ctx.bounds = {}) :
    ctx.BoundsKnown := by
  intro bound hbound
  rw [TypeContext.boundTypes, h] at hbound
  cases hbound

theorem Assign.isParam_of_givenBound {ctx : TypeContext} {d : Direction} {given bound : Ty}
    (h : givenBound? ctx d given = some bound) : given.former.isParam = true := by
  cases given <;> simp_all [givenBound?, Ty.former, Former.isParam]

section

variable {ctx : TypeContext} {d : Direction} {target given t : Ty} {i j : Inference}

theorem Admits.of_bound {index : Nat} {bound : Ty} (hgiven : given.former.isParam = false)
    (hbound : targetBound? ctx d index = some bound) (h : Admits ctx d bound given) :
    Admits ctx d (.param index false) given := by
  apply Admits.of_steps
  intro depth e j e' k hdirect
  have hmatch : target ctx (assignDirectly ctx depth) (assign ctx depth) d (.param index false)
      given = assign ctx depth d bound given := by
    cases given <;> simp_all [Assign.target, fixedParam, Ty.former, Former.isParam]
  rw [assignDirectly_of_not_param hgiven, hmatch] at hdirect
  exact absurd hdirect (h _ _ _)

variable (hbounds : ctx.BoundsKnown)
  (hstores : ctx.registry.Stores (Former.isKnown ctx.registry))

include hbounds hstores

theorem result_not_param {depth : Nat}
    (htarget : target.everywhere (Former.isKnown ctx.registry) = true)
    (hform : (d = .toTarget ∧ target.former.isParam = false) ∨
      (d ≠ .toTarget ∧ given.former.isParam = false))
    (h : (assign ctx depth d target given).outcome i = some (.ok t, j)) :
    t.former.isParam = false := by
  induction depth using Nat.strongRecOn generalizing target given t i j with
  | ind depth ih =>
      rcases assign_ok h with ⟨smaller, rfl, hdirect | hafter⟩
      · rcases assignDirectly_ok hdirect with ⟨depth, rfl, ⟨bound, hbound, hrun⟩ | ⟨k, hrun⟩⟩
        · have hgiven := isParam_of_givenBound hbound
          rcases hform with ⟨hd, hparam⟩ | ⟨_, hparam⟩
          · exact ih depth (by omega) htarget (Or.inl ⟨hd, hparam⟩) hrun
          · rw [hgiven] at hparam
            cases hparam
        · cases hparam : target.former.isParam with
          | false =>
              rw [target_of_not_param hparam] at hrun
              rw [(structural_ok hrun).left]
              exact hparam
          | true =>
              rcases Ty.former_eq_param hparam with ⟨index, inferring, rfl⟩
              have hgiven : d ≠ .toTarget ∧ given.former.isParam = false := by
                rcases hform with ⟨_, hnot⟩ | hgiven
                · cases hnot
                · exact hgiven
              cases inferring with
              | true => cases htarget
              | false =>
                  rcases fixedParam_ok hrun with ⟨inferring, rfl, _⟩ | ⟨_, bound, hbound, hrun⟩
                  · cases hgiven.right
                  · have hknown := (hbounds bound (mem_boundTypes_of_target hbound)).right
                    exact ih depth (by omega) hknown (Or.inr hgiven) hrun
      · cases afterwards_ok hafter with
        | never =>
            rcases hform with ⟨_, hparam⟩ | ⟨hd, _⟩
            · rw [Inference.substitute, Ty.former_replace hparam]
              exact hparam
            · exact absurd rfl hd
        | any => rfl
        | opened _ hrun =>
            rcases hform with hparam | ⟨hd, _⟩
            · exact ih smaller (by omega) htarget (Or.inl hparam) hrun
            · exact absurd rfl hd
        | fromNever =>
            rcases hform with ⟨hd, _⟩ | ⟨_, hgiven⟩
            · cases hd
            · exact hgiven
        | fromAny => rfl
        | fromOpened hunbox hrun =>
            rcases hform with ⟨hd, _⟩ | hgiven
            · cases hd
            · exact ih smaller (by omega) (Ty.everywhere_unbox hstores htarget hunbox)
                (Or.inr hgiven) hrun

/-- The type that results from an assignment is not refused by its target. -/
theorem assign_admits {depth : Nat}
    (htarget : target.everywhere (Former.isKnown ctx.registry) = true)
    (h : (assign ctx depth d target given).outcome i = some (.ok t, j)) :
    Admits ctx d target t := by
  induction depth using Nat.strongRecOn generalizing d target given t i j with
  | ind depth ih =>
      rcases Ty.everywhere_iff.mp htarget with ⟨hhere, hparts⟩
      rcases assign_ok h with ⟨smaller, rfl, hdirect | hafter⟩
      · rcases assignDirectly_ok hdirect with ⟨depth, rfl, ⟨bound, hbound, hrun⟩ | ⟨k, hrun⟩⟩
        · exact ih depth (by omega) htarget hrun
        · cases hparam : target.former.isParam with
          | false =>
              rw [target_of_not_param hparam] at hrun
              rcases structural_ok hrun with ⟨hformer, hall⟩
              apply Admits.of_parts hparam hformer.symm (hformer ▸ hhere)
              intro m v part result hv hpart hresult
              rcases hall m v part result hv hpart hresult with ⟨g, i', j', hassign⟩
              exact ih depth (by omega) (hparts part (List.mem_of_getElem? hpart)) hassign
          | true =>
              rcases Ty.former_eq_param hparam with ⟨index, inferring, rfl⟩
              cases inferring with
              | true => cases hhere
              | false =>
                  rcases fixedParam_ok hrun with
                    ⟨inferring, rfl, rfl⟩ | ⟨hgiven, bound, hbound, hrun⟩
                  · exact Admits.param index inferring
                  · rcases hbounds bound (mem_boundTypes_of_target hbound) with ⟨hnot, hknown⟩
                    have hform : (d = .toTarget ∧ bound.former.isParam = false) ∨
                        (d ≠ .toTarget ∧ given.former.isParam = false) := by
                      by_cases hd : d = .toTarget
                      · exact Or.inl ⟨hd, hnot⟩
                      · exact Or.inr ⟨hd, hgiven⟩
                    exact Admits.of_bound (result_not_param hbounds hstores hknown hform hrun)
                      hbound (ih depth (by omega) hknown hrun)
      · cases afterwards_ok hafter with
        | never =>
            rw [Ty.substitute_eq_self _ (Ty.hasInferring_eq_false htarget)]
            exact Admits.self _ htarget
        | any => exact Admits.any
        | opened _ hrun => exact ih smaller (by omega) htarget hrun
        | fromNever => exact Admits.from_never
        | fromAny => exact Admits.from_any
        | fromOpened hunbox hrun =>
            exact Admits.from_opened hunbox
              (ih smaller (by omega) (Ty.everywhere_unbox hstores htarget hunbox) hrun)

omit hbounds hstores in
theorem Admits.of_fits {depth : Nat} (h : fits ctx depth target given = some true) :
    Admits ctx .toTarget target given := by
  intro other e j hrun
  have hfalse : fits ctx other target given = some false := by
    rw [fits, hrun]
    rfl
  cases fits_agree h hfalse

end

end TypeChecker
