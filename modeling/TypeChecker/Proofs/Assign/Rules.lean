import TypeChecker.Proofs.Assign.Admission

/-!
# The rules of assignment

Where nothing is inferred and no parameter is bounded, an accepted assignment is made by
few rules: a parameter matches itself, types of one former match part by part, `never`
and `any` absorb the other side, and the smaller side is opened. Facts about accepted
runs are proved by induction over these rules.
-/

namespace TypeChecker

open Assign

/-!
## Matches by structure
-/

namespace Assign

variable {ctx : TypeContext} {assign : Assigner} {d : Direction} {target given : Ty}
  {i : Inference}

theorem structural_eq_mismatch (hformer : target.former ≠ given.former)
    (hbundles : forall ts gs, target = .bundle ts -> given ≠ .bundle gs) :
    structural ctx assign d target given = Assigning.mismatch := by
  cases target <;> cases given <;>
    simp only [Ty.former, ne_eq, not_true_eq_false, Former.named.injEq, Former.tuple.injEq]
      at hformer
  case named.named name targets other givens =>
    rw [structural, if_neg (by simpa using hformer)]
  case tuple.tuple targets givens => rw [structural, if_neg hformer]
  case bundle.bundle targets givens => exact absurd rfl (hbundles targets givens rfl)
  all_goals rfl

theorem structural_eq_mismatch_of_unknown (hplain : target.former.isPlain = true)
    (hunknown : target.former.isKnown ctx.registry = false) :
    structural ctx assign d target given = Assigning.mismatch := by
  cases target with
  | named name args =>
      have hget : Table.get? ctx.registry name = none := by
        simpa [Ty.former, Former.isKnown, Table.contains] using hunknown
      cases given with
      | named other givens =>
          rw [structural, hget]
          split <;> rfl
      | _ => rfl
  | _ =>
      rw [Former.isKnown_of_isPlain hplain (by simp [Ty.former])] at hunknown
      cases hunknown

theorem known_of_structural_ok {t : Ty} {j : Inference} (htarget : target.former.isPlain = true)
    (hgiven : given.former.isPlain = true)
    (h : (structural ctx assign d target given).outcome i = some (.ok t, j)) :
    target.former.isKnown ctx.registry = true ∧ given.former.isKnown ctx.registry = true := by
  have hknown : target.former.isKnown ctx.registry = true := by
    cases hunknown : target.former.isKnown ctx.registry with
    | true => rfl
    | false =>
        rw [structural_eq_mismatch_of_unknown htarget hunknown] at h
        cases h
  refine ⟨hknown, Former.isKnown_of_isPlain hgiven fun name arity hnamed => ?_⟩
  have hformer : target.former = given.former := by
    refine Classical.byContradiction fun hne => ?_
    rw [structural_eq_mismatch hne ?_] at h
    · cases h
    · rintro ts gs rfl rfl
      cases hnamed
  rw [hformer, hnamed] at hknown
  exact hknown

end Assign

/-!
## Derivations
-/

/-- A given type is assigned to a target in a direction, with the type that results. -/
inductive Derives (ctx : TypeContext) : Direction -> Ty -> Ty -> Ty -> Prop where
  | param {d : Direction} {index : Nat} :
      Derives ctx d (.param index false) (.param index false) (.param index false)
  | parts {d : Direction} {target given : Ty} {results : List Ty}
      (apart : target.former.isParam = false) (former : target.former = given.former)
      (known : target.former.isKnown ctx.registry = true)
      (length : results.length = target.parts.length)
      (each : forall (k : Nat) v x y r, (target.former.positions ctx.registry)[k]? = some v ->
        target.parts[k]? = some x -> given.parts[k]? = some y -> results[k]? = some r ->
          Derives ctx (d.within v) x y r) :
      Derives ctx d target given (target.former.build results)
  | never {target : Ty} (plain : target.hasInferring = false) :
      Derives ctx .toTarget target .never target
  | any {given : Ty} : Derives ctx .toTarget .any given .any
  | opened {target given inner t : Ty}
      (unboxes : given.unbox ctx.module ctx.registry = .inner inner)
      (rest : Derives ctx .toTarget target inner t) : Derives ctx .toTarget target given t
  | fromNever {given : Ty} (plain : given.hasInferring = false) :
      Derives ctx .fromTarget .never given given
  | fromAny {target : Ty} : Derives ctx .fromTarget target .any .any
  | fromOpened {target given inner t : Ty}
      (unboxes : target.unbox ctx.module ctx.registry = .inner inner)
      (rest : Derives ctx .fromTarget inner given t) : Derives ctx .fromTarget target given t

section

variable {ctx : TypeContext} {d : Direction} {target given t : Ty}

/-- Every accepted assignment is made by the rules. -/
theorem assign_derives (hbounds : ctx.bounds = {}) (hstores : ctx.registry.Stores Former.isPlain)
    {depth : Nat} {i j : Inference} (htarget : target.everywhere Former.isPlain = true)
    (hgiven : given.everywhere Former.isPlain = true)
    (h : (assign ctx depth d target given).outcome i = some (.ok t, j)) :
    Derives ctx d target given t := by
  induction depth using Nat.strongRecOn generalizing d target given t i j with
  | ind depth ih =>
      rcases assign_ok h with ⟨smaller, rfl, hdirect | hafter⟩
      · cases smaller with
        | zero => cases hdirect
        | succ depth =>
            rcases Ty.everywhere_iff.mp htarget with ⟨hhere, hparts⟩
            rcases Ty.everywhere_iff.mp hgiven with ⟨hghere, hgparts⟩
            rw [assignDirectly_unbounded hbounds] at hdirect
            cases hparam : target.former.isParam with
            | true =>
                rcases Ty.former_eq_param hparam with ⟨index, inferring, rfl⟩
                cases inferring with
                | true => cases hhere
                | false =>
                    have hfixed : given ≠ .param index true := by
                      rintro rfl
                      cases hghere
                    rcases fixedParam_unbounded_ok hbounds hfixed hdirect with ⟨rfl, rfl, _⟩
                    exact Derives.param
            | false =>
                rw [target_of_not_param hparam] at hdirect
                rcases known_of_structural_ok hhere hghere hdirect with ⟨hknown, hgknown⟩
                rcases structural_parts_ok hknown hgknown hdirect with
                  ⟨hformer, results, hrun, rfl⟩
                rcases parts_ok hrun with ⟨hlen, hall⟩
                refine Derives.parts hparam hformer hknown hlen ?_
                intro k v x y r hv hx hy hr
                rcases hall k v x y r hv hx hy hr with ⟨i', j', hassign⟩
                exact ih depth (by omega) (hparts x (List.mem_of_getElem? hx))
                  (hgparts y (List.mem_of_getElem? hy)) hassign
      · cases afterwards_ok hafter with
        | never =>
            have hplain := Ty.hasInferring_of_plain htarget
            rw [Ty.substitute_eq_self _ hplain]
            exact Derives.never hplain
        | any => exact Derives.any
        | opened hunbox hrun =>
            exact Derives.opened hunbox (ih smaller (by omega) htarget
              (Ty.everywhere_unbox hstores hgiven hunbox) hrun)
        | fromNever => exact Derives.fromNever (Ty.hasInferring_of_plain hgiven)
        | fromAny => exact Derives.fromAny
        | fromOpened hunbox hrun =>
            exact Derives.fromOpened hunbox (ih smaller (by omega)
              (Ty.everywhere_unbox hstores htarget hunbox) hgiven hrun)

end

end TypeChecker
