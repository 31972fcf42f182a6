import TypeChecker.Proofs.Assign.Variance

/-!
# Usage and occurrences

A parameter occurs in a type at places of different variance. The usage that is read off
the type sums them up: it is the least that is enough for every place at which the
parameter occurs. So a parameter is used covariantly or contravariantly if it occurs at
places of that variance only, and in no way if it does not occur.
-/

namespace TypeChecker

/-- A parameter occurs in a type at a place of some variance. -/
inductive Ty.OccursAt (registry : Registry) (index : Nat) : Variance -> Ty -> Prop where
  | param (inferring : Bool) : OccursAt registry index .covariant (.param index inferring)
  | part {t s : Ty} {k : Nat} {v w : Variance}
      (position : (t.former.positions registry)[k]? = some v) (part : t.parts[k]? = some s)
      (inside : OccursAt registry index w s) : OccursAt registry index (v.within w) t

/-- A parameter occurs somewhere in a type. -/
def Ty.Mentions (registry : Registry) (t : Ty) (index : Nat) : Prop :=
  exists v, t.OccursAt registry index v

/-- A parameter occurs at an invariant place, or both at a covariant and at a contravariant
one. -/
def Ty.OccursInvariantly (registry : Registry) (t : Ty) (index : Nat) : Prop :=
  t.OccursAt registry index .invariant ∨
    t.OccursAt registry index .covariant ∧ t.OccursAt registry index .contravariant

namespace Variance

def SufficesFor (v : Variance) (registry : Registry) (t : Ty) (index : Nat) : Prop :=
  forall w, t.OccursAt registry index w -> v.implies w = true

theorem implies_both {u v w : Variance} (hv : u.implies v = true) (hw : u.implies w = true) :
    u.implies (v.both w) = true := by
  cases u <;> cases v <;> cases w <;> simp_all [implies, both]

theorem invariant_implies (v : Variance) : invariant.implies v = true := by
  cases v <;> rfl

theorem implies_bivariant (v : Variance) : v.implies .bivariant = true := rfl

theorem eq_bivariant_of_implies {v : Variance} (h : bivariant.implies v = true) :
    v = .bivariant := by
  cases v <;> simp_all [implies]

theorem eq_invariant_of_implies {v : Variance} (h : v.implies .invariant = true) :
    v = .invariant := by
  cases v <;> simp_all [implies]

theorem eq_invariant_of_both {v : Variance} (hco : v.implies .covariant = true)
    (hcontra : v.implies .contravariant = true) : v = .invariant := by
  cases v <;> simp_all [implies]

theorem implies_inverse {v w : Variance} : v.implies w.inverse = v.inverse.implies w := by
  cases v <;> cases w <;> rfl

theorem contravariant_within (v : Variance) : contravariant.within v = v.inverse := by
  cases v <;> rfl

theorem invariant_within {v : Variance} (h : v ≠ .bivariant) :
    invariant.within v = .invariant := by
  cases v <;> simp_all [within]

theorem foldl_both_least {α : Type} {f : α -> Variance} {parts : List α} {start v : Variance}
    (hstart : v.implies start = true)
    (hparts : forall part, part ∈ parts -> v.implies (f part) = true) :
    v.implies (parts.foldl (fun w part => w.both (f part)) start) = true := by
  induction parts generalizing start with
  | nil => exact hstart
  | cons first rest ih =>
      rw [List.forall_mem_cons] at hparts
      exact ih (implies_both hstart hparts.left) hparts.right

theorem ofComponents_least {arity index : Nat} (hindex : index < arity)
    {positions : List Variance} {components : List (List Variance)} {v : Variance}
    (h : forall position component, (position, component) ∈ positions.zip components ->
      v.implies (position.within (component.getD index .bivariant)) = true) :
    v.implies ((ofComponents arity positions components).getD index .bivariant) = true := by
  have hfold := foldl_both_least (implies_bivariant v)
    (fun (part : Variance × List Variance) hpart => h part.1 part.2 hpart)
  simpa [ofComponents, List.getD_eq_getElem?_getD, hindex] using hfold

variable {registry : Registry} {arity index : Nat}

theorem occursAt_ne_bivariant {t : Ty} {v : Variance}
    (h : t.OccursAt registry index v) : v ≠ .bivariant := by
  induction h with
  | param inferring => simp
  | part position _ _ ih => exact within_ne_bivariant ih

theorem implies_within_of_least {s : Ty} {used v position : Variance}
    (hleast : forall v : Variance, v.SufficesFor registry s index -> v.implies used = true)
    (hposition : position ≠ .bivariant)
    (h : forall w, s.OccursAt registry index w -> v.implies (position.within w) = true) :
    v.implies (position.within used) = true := by
  cases position with
  | covariant =>
      rw [within_of_covariant]
      apply hleast
      intro w hw
      rw [<- within_of_covariant w]
      exact h w hw
  | contravariant =>
      rw [contravariant_within, implies_inverse]
      apply hleast
      intro w hw
      rw [<- implies_inverse, <- contravariant_within]
      exact h w hw
  | invariant =>
      by_cases hmentions : s.Mentions registry index
      · rcases hmentions with ⟨w, hw⟩
        have hv := h w hw
        rw [invariant_within (occursAt_ne_bivariant hw)] at hv
        rw [eq_invariant_of_implies hv]
        exact invariant_implies _
      · have hunused : used = .bivariant :=
          eq_bivariant_of_implies (hleast .bivariant fun w hw => absurd ⟨w, hw⟩ hmentions)
        rw [hunused]
        rfl
  | bivariant => exact absurd rfl hposition

/-- The usage of a parameter is enough for every place at which it occurs, and whatever is
enough for these is enough for the usage. -/
theorem usage_least (hsigned : registry.Signed) (hindex : index < arity) {t : Ty}
    (happlicable : t.everywhere (Former.isApplicable registry) = true) :
    ((usage registry arity t).getD index .bivariant).SufficesFor registry t index ∧
      forall v : Variance, v.SufficesFor registry t index ->
        v.implies ((usage registry arity t).getD index .bivariant) = true := by
  induction t using Ty.induction_parts with
  | step t ih =>
      rcases Ty.everywhere_iff.mp happlicable with ⟨hhere, hparts⟩
      cases hparam : t.former.isParam with
      | true =>
          rcases Ty.former_eq_param hparam with ⟨other, inferring, rfl⟩
          by_cases hother : other = index
          · subst hother
            rw [usage_param hindex]
            constructor
            · intro w hw
              cases hw with
              | param => rfl
              | part position part _ => cases part
            · intro v hv
              exact hv .covariant (.param inferring)
          · have hunused : (usage registry arity (.param other inferring)).getD index .bivariant =
                .bivariant := by
              simp [usage, single, List.getD_eq_getElem?_getD, hindex, Ne.symm hother]
            rw [hunused]
            constructor
            · intro w hw
              cases hw with
              | param => exact absurd rfl hother
              | part position part _ => cases part
            · exact fun v _ => implies_bivariant v
      | false =>
          constructor
          · intro u hu
            cases hu with
            | param inferring => cases hparam
            | @part _ s k v w position part inside =>
                have hs := List.mem_of_getElem? part
                have hinside := (ih s hs (hparts s hs)).left w inside
                exact implies_trans (usage_implies_part hparam hhere hindex position part)
                  (within_implies v hinside)
          · intro v hv
            rw [usage_eq hparam hhere]
            apply ofComponents_least hindex
            intro position component hmem
            rcases List.mem_iff_getElem?.mp hmem with ⟨k, hk⟩
            rcases List.getElem?_zip_eq_some.mp hk with ⟨hposition, hcomponent⟩
            rw [List.getElem?_map] at hcomponent
            rcases Option.map_eq_some_iff.mp hcomponent with ⟨s, hs, rfl⟩
            have hmem := List.mem_of_getElem? hs
            apply implies_within_of_least (ih s hmem (hparts s hmem)).right
            · exact positions_ne_bivariant hsigned hposition
            · exact fun w hw => hv _ (.part hposition hs hw)

section

variable (hsigned : registry.Signed) (hindex : index < arity) {t : Ty}
  (happlicable : t.everywhere (Former.isApplicable registry) = true)

include hsigned hindex happlicable

theorem usage_eq_bivariant : (usage registry arity t).getD index .bivariant = .bivariant ↔
    ¬ t.Mentions registry index := by
  rcases usage_least hsigned hindex happlicable with ⟨hsuffices, hleast⟩
  constructor
  · intro hunused hmentions
    rcases hmentions with ⟨w, hw⟩
    have himplies := hsuffices w hw
    rw [hunused] at himplies
    exact occursAt_ne_bivariant hw (eq_bivariant_of_implies himplies)
  · intro hmentions
    exact eq_bivariant_of_implies (hleast .bivariant fun w hw => absurd ⟨w, hw⟩ hmentions)

theorem usage_eq_invariant : (usage registry arity t).getD index .bivariant = .invariant ↔
    t.OccursInvariantly registry index := by
  rcases usage_least hsigned hindex happlicable with ⟨hsuffices, hleast⟩
  constructor
  · intro hused
    rw [hused] at hleast
    by_contra hnot
    rcases not_or.mp hnot with ⟨hinvariant, hboth⟩
    -- without an invariant place and with one of the two others only, less would be enough
    have hless : forall v : Variance, v.SufficesFor registry t index -> v = .invariant :=
      fun v hv => eq_invariant_of_implies (hleast v hv)
    by_cases hcovariant : t.OccursAt registry index .covariant
    · have hcontravariant := fun h => hboth ⟨hcovariant, h⟩
      cases hless .covariant fun w hw => by
        cases w with
        | covariant => rfl
        | invariant => exact absurd hw hinvariant
        | contravariant => exact absurd hw hcontravariant
        | bivariant => rfl
    · cases hless .contravariant fun w hw => by
        cases w with
        | contravariant => rfl
        | invariant => exact absurd hw hinvariant
        | covariant => exact absurd hw hcovariant
        | bivariant => rfl
  · intro hoccurs
    rcases hoccurs with hinvariant | ⟨hcovariant, hcontravariant⟩
    · exact eq_invariant_of_implies (hsuffices _ hinvariant)
    · exact eq_invariant_of_both (hsuffices _ hcovariant) (hsuffices _ hcontravariant)

end

end Variance
end TypeChecker
