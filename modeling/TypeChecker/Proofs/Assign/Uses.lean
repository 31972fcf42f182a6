import TypeChecker.Proofs.Assign.Bindings

/-!
# Uses of parameters being inferred

A binding may change after a use of its parameter was accepted, so that the accepted
use need not hold in the end. It does if the binding is fixed or the use has the
direction of its leeway. Types all of whose uses are of this kind suit the bindings;
opening a box leads from such types to such types.
-/

namespace TypeChecker

/-- A type assigned in direction `d` uses the parameter `k`, which is being inferred, in
some direction. -/
inductive Ty.Uses (registry : Registry) : Direction -> Ty -> Nat -> Direction -> Prop where
  | here (d : Direction) (k : Nat) : Uses registry d (.param k true) k d
  | part {d used : Direction} {t s : Ty} {k m : Nat} {v : Variance}
      (position : (t.former.positions registry)[m]? = some v) (part : t.parts[m]? = some s)
      (use : Uses registry (d.within v) s k used) : Uses registry d t k used

def Inference.Suits (registry : Registry) (i : Inference) (d : Direction) (t : Ty) : Prop :=
  forall k used s, t.Uses registry d k used -> i.slot? k = some s ->
    s.leeway = .fixed ∨ s.leeway = used.leeway

theorem Direction.within_within (d : Direction) {v w : Variance} (hv : v ≠ .bivariant)
    (hw : w ≠ .bivariant) : (d.within v).within w = d.within (v.within w) := by
  cases d <;> cases v <;> cases w <;>
    simp_all [Direction.within, Direction.ofVariance, Direction.inverse, Variance.within,
      Variance.inverse]

theorem Variance.eq_bivariant_of_within {v w : Variance} (hv : v ≠ .bivariant)
    (h : v.within w = .bivariant) : w = .bivariant := by
  cases v <;> cases w <;> simp_all [Variance.within, Variance.inverse]

theorem Ty.Uses.of_exact {registry : Registry} {d used : Direction} {t : Ty} {k : Nat}
    (h : t.Uses registry d k used) : t.Uses registry .exact k .exact := by
  induction h with
  | here d k => exact Ty.Uses.here .exact k
  | part position part _ ih => exact Ty.Uses.part position part ih

namespace Inference.Suits

variable {registry : Registry} {i : Inference} {d : Direction}

theorem of_exact {t : Ty} (h : i.Suits registry .exact t) (d : Direction) :
    i.Suits registry d t := by
  intro k used s huse hs
  left
  rcases h k .exact s huse.of_exact hs with hfixed | hfixed
  · exact hfixed
  · exact hfixed

theorem of_plain {t : Ty} (h : t.hasInferring = false) : i.Suits registry d t := by
  intro k used s huse
  induction huse with
  | here d k => cases h
  | part position part _ ih =>
      have hparts := (Ty.everywhere_iff.mp (Ty.anyParam_eq_false.mp h)).right
      exact ih (Ty.anyParam_eq_false.mpr (hparts _ (List.mem_of_getElem? part)))

theorem param {k : Nat} (h : forall s, i.slot? k = some s ->
    s.leeway = .fixed ∨ s.leeway = d.leeway) : i.Suits registry d (.param k true) := by
  intro k' used s huse hs
  cases huse with
  | here => exact h s hs
  | part position part _ => cases part

theorem implied {t : Ty} {v w : Variance} (himplies : v.implies w = true)
    (h : v = .bivariant ∨ i.Suits registry (d.within v) t) :
    w = .bivariant ∨ i.Suits registry (d.within w) t := by
  by_cases hw : w = .bivariant
  · exact Or.inl hw
  · right
    by_cases hvw : v = w
    · rcases h with h | h
      · exact absurd (hvw ▸ h) hw
      · exact hvw ▸ h
    · have hv : v = .invariant := by
        cases v <;> cases w <;> simp_all [Variance.implies]
      rcases h with h | h
      · rw [hv] at h
        cases h
      · have hexact : d.within .invariant = .exact := by cases d <;> rfl
        rw [hv, hexact] at h
        exact h.of_exact _

theorem instantiate {arity : Nat} (hsigned : registry.Signed) {t : Ty}
    (hplain : t.hasInferring = false)
    (happlied : t.everywhere (Former.isApplied registry) = true) {args : List Ty}
    (hargs : args.length = arity)
    (h : forall (index : Nat) arg, args[index]? = some arg ->
      (Variance.usage registry arity t).getD index .bivariant = .bivariant ∨
        i.Suits registry
          (d.within ((Variance.usage registry arity t).getD index .bivariant)) arg) :
    i.Suits registry d (t.instantiate args) := by
  induction t using Ty.induction_parts generalizing d with
  | step t ih =>
      rcases Ty.everywhere_iff.mp happlied with ⟨hhere, hparts⟩
      have hplains := (Ty.everywhere_iff.mp (Ty.anyParam_eq_false.mp hplain)).right
      cases hparam : t.former.isParam with
      | true =>
          rcases Ty.former_eq_param hparam with ⟨index, inferring, rfl⟩
          cases inferring with
          | true => cases hplain
          | false =>
              cases harg : args[index]? with
              | none =>
                  intro k used s huse _
                  simp only [Ty.instantiate, Ty.replace, harg, Option.getD_none] at huse
                  cases huse with
                  | part _ part _ => cases part
              | some arg =>
                  have hindex : index < arity := hargs ▸ (List.getElem?_eq_some_iff.mp harg).choose
                  have hsuits := h index arg harg
                  rw [Variance.usage_param hindex, Direction.within_covariant] at hsuits
                  simpa [Ty.instantiate, Ty.replace, harg] using hsuits
      | false =>
          have hformer : (t.instantiate args).former = t.former := Ty.former_replace hparam
          intro k used s huse hs
          revert hformer
          generalize hinstance : t.instantiate args = u at huse
          intro hformer
          cases huse with
          | here =>
              rw [<- hformer] at hparam
              cases hparam
          | @part _ _ _ _ _ m v position part use =>
              rw [hformer] at position
              rw [<- hinstance, Ty.instantiate, Ty.parts_replace hparam, List.getElem?_map] at part
              rcases Option.map_eq_some_iff.mp part with ⟨component, hcomponent, rfl⟩
              have hmem := List.mem_of_getElem? hcomponent
              have hv := Variance.positions_ne_bivariant hsigned position
              refine ih component hmem
                (Ty.anyParam_eq_false.mpr (hplains component hmem)) (hparts component hmem)
                ?_ k used s use hs
              intro index arg harg
              have hindex : index < arity := hargs ▸ (List.getElem?_eq_some_iff.mp harg).choose
              have himplies := Variance.usage_implies_part hparam
                (Former.isApplicable_of_isApplied hhere) hindex position hcomponent
              rcases implied himplies (h index arg harg) with hbi | hsuits
              · exact Or.inl (Variance.eq_bivariant_of_within hv hbi)
              · by_cases hused : (Variance.usage registry arity component).getD index
                    .bivariant = .bivariant
                · exact Or.inl hused
                · rw [Direction.within_within d hv hused]
                  exact Or.inr hsuits

theorem unbox {ctx : TypeContext} (hlawful : ctx.registry.Lawful)
    (happlied : ctx.registry.FullyApplied) {t inner : Ty}
    (ht : t.former.isApplied ctx.registry = true) (h : i.Suits ctx.registry d t)
    (hunbox : t.unbox ctx.module ctx.registry = .inner inner) : i.Suits ctx.registry d inner := by
  rcases Ty.unbox_inner hunbox with ⟨name, args, decl, boxed, rfl, hd, hboxed, _, rfl⟩
  simp only [Ty.former, Former.isApplied, hd, beq_iff_eq] at ht
  have hmem := Declaration.mem_types_of_boxed hboxed
  rw [Ty.instantiateWith_full hlawful hd ht]
  apply instantiate hlawful.signed
    (Ty.hasInferring_eq_false (hlawful.known name decl hd _ hmem))
    (happlied name decl hd _ hmem) ht
  intro index arg harg
  rcases Variance.position_of_arg hd ht harg with ⟨p, hp, hposition⟩
  have hallows := hlawful.respected name decl boxed hd hboxed index p hp
  have hsuits : i.Suits ctx.registry (d.within p.variance) arg :=
    fun k used s huse hs => h k used s (Ty.Uses.part hposition harg huse) hs
  exact implied (Variance.allows_implies hallows) (Or.inr hsuits)

end Inference.Suits

/-- What stood for a type that suits the bindings stands to what stands for it later as
the direction asks for. -/
theorem Inference.Evolves.holds_substitute {ctx : TypeContext} {d : Direction}
    {i final : Inference} {t : Ty} (h : i.Evolves ctx final)
    (hsuits : final.Suits ctx.registry d t) (hclosed : (i.substitute t).hasInferring = false) :
    d.Holds ctx (final.substitute t) (i.substitute t) := by
  induction t using Ty.induction_parts generalizing d with
  | step t ih =>
      cases hparam : t.former.isParam with
      | true =>
          rcases Ty.former_eq_param hparam with ⟨k, inferring, rfl⟩
          cases inferring with
          | false => exact Direction.holds_self d _
          | true =>
              cases hslot : i.slot? k with
              | none =>
                  simp [substitute, Ty.replace, hslot, Ty.hasInferring, Ty.anyParam] at hclosed
              | some s =>
                  rcases h.slot k s hslot with ⟨later, hlater, hleeway, hholds⟩
                  rw [substitute_param hslot, substitute_param hlater]
                  rcases hsuits k d later (Ty.Uses.here d k) hlater with hfixed | hown
                  · rw [<- hleeway, hfixed] at hholds
                    rcases hholds with ⟨_, hsame⟩
                    rw [show later.type = s.type from hsame]
                    exact Direction.holds_self d _
                  · rw [<- hleeway, hown, Direction.direction_leeway] at hholds
                    exact hholds
      | false =>
          have hfinal : (final.substitute t).former = t.former := Ty.former_replace hparam
          have hearlier : (i.substitute t).former = t.former := Ty.former_replace hparam
          have hparts := (Ty.everywhere_iff.mp (Ty.anyParam_eq_false.mp hclosed)).right
          apply Direction.holds_of_parts (hfinal.trans hearlier.symm)
          intro m v a b hv ha hb
          rw [hfinal] at hv
          rw [substitute, Ty.parts_replace hparam, List.getElem?_map] at ha hb
          rcases Option.map_eq_some_iff.mp ha with ⟨part, hpart, rfl⟩
          rw [hpart] at hb
          cases hb
          have hmem : i.substitute part ∈ (i.substitute t).parts := by
            rw [substitute, Ty.parts_replace hparam]
            exact List.mem_map.mpr ⟨part, List.mem_of_getElem? hpart, rfl⟩
          exact ih part (List.mem_of_getElem? hpart)
            (fun k used s huse => hsuits k used s (Ty.Uses.part hv hpart huse))
            (Ty.anyParam_eq_false.mpr (hparts _ hmem))

end TypeChecker
