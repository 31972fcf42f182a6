import TypeChecker.Proofs.Formers

/-!
# Laws of replacing parameters

Replacing parameters keeps every former that is not a parameter. Two replacements
in a row are one, and only the parameters that occur in a type matter.
-/

namespace TypeChecker

namespace Former

def onParams (q : Nat -> Bool -> Bool) (p : Former -> Bool) : Former -> Bool
  | .param index inferring => q index inferring
  | f => p f

theorem onParams_of_not_param {q : Nat -> Bool -> Bool} {p : Former -> Bool} {f : Former}
    (h : f.isParam = false) : f.onParams q p = p f := by
  cases f <;> simp_all [onParams, isParam]

theorem onParams_self (p : Former -> Bool) :
    onParams (fun index inferring => p (.param index inferring)) p = p := by
  funext f
  cases f <;> rfl

end Former

namespace Ty

variable {choose : Nat -> Bool -> Option Ty}

theorem replaceList_eq (choose : Nat -> Bool -> Option Ty) (ts : List Ty) :
    replaceList choose ts = ts.map (replace choose) := by
  induction ts with
  | nil => rfl
  | cons t ts ih => rw [replaceList, ih, List.map_cons]

theorem replaceFields_eq (choose : Nat -> Bool -> Option Ty)
    (fields : List (String × Field Ty)) :
    replaceFields choose fields =
      fields.map fun item => (item.1, ⟨item.2.slot, item.2.type.replace choose⟩) := by
  induction fields with
  | nil => rfl
  | cons item fields ih =>
      rcases item with ⟨name, ⟨slot, t⟩⟩
      rw [replaceFields, ih, List.map_cons]

theorem former_eq_param {t : Ty} (h : t.former.isParam = true) :
    exists index inferring, t = .param index inferring := by
  cases t with
  | param index inferring => exact ⟨index, inferring, rfl⟩
  | _ => simp [former, Former.isParam] at h

theorem former_replace {t : Ty} (h : t.former.isParam = false) :
    (t.replace choose).former = t.former := by
  cases t <;>
    simp_all [former, Former.isParam, replace, replaceList_eq, replaceFields_eq, List.map_map]

theorem parts_replace {t : Ty} (h : t.former.isParam = false) :
    (t.replace choose).parts = t.parts.map (replace choose) := by
  cases t <;>
    simp_all [former, Former.isParam, parts, replace, replaceList_eq, replaceFields_eq,
      List.map_map]

theorem everywhere_replace_iff {p : Former -> Bool} {t : Ty} :
    (t.replace choose).everywhere p = true ↔
      t.everywhere (Former.onParams (fun index inferring =>
        ((choose index inferring).getD (.param index inferring)).everywhere p) p) = true := by
  induction t using induction_parts with
  | step t ih =>
      cases hparam : t.former.isParam with
      | true =>
          rcases former_eq_param hparam with ⟨index, inferring, rfl⟩
          rfl
      | false =>
          rw [everywhere_iff, everywhere_iff, former_replace hparam, parts_replace hparam,
            Former.onParams_of_not_param hparam, List.forall_mem_map]
          constructor
          · rintro ⟨hhere, hparts⟩
            exact ⟨hhere, fun s hs => (ih s hs).mp (hparts s hs)⟩
          · rintro ⟨hhere, hparts⟩
            exact ⟨hhere, fun s hs => (ih s hs).mpr (hparts s hs)⟩

theorem everywhere_mono {p q : Former -> Bool} {t : Ty}
    (hpq : forall f, p f = true -> q f = true) (ht : t.everywhere p = true) :
    t.everywhere q = true := by
  induction t using induction_parts with
  | step t ih =>
      rcases everywhere_iff.mp ht with ⟨hhere, hparts⟩
      exact everywhere_iff.mpr ⟨hpq _ hhere, fun s hs => ih s hs (hparts s hs)⟩

/-- Replacing parameters gives formers that satisfy `p` throughout if the type has
them outside its parameters and every parameter that may occur becomes such a type. -/
theorem everywhere_replace {q : Nat -> Bool -> Bool} {p : Former -> Bool} {t : Ty}
    (ht : t.everywhere (Former.onParams q p) = true)
    (hchoose : forall index inferring, q index inferring = true ->
      ((choose index inferring).getD (.param index inferring)).everywhere p = true) :
    (t.replace choose).everywhere p = true := by
  refine everywhere_replace_iff.mpr (everywhere_mono ?_ ht)
  intro f hf
  cases f with
  | param index inferring => exact hchoose index inferring hf
  | _ => exact hf

theorem replace_congr {q : Nat -> Bool -> Bool} {other : Nat -> Bool -> Option Ty} {t : Ty}
    (ht : t.everywhere (Former.onParams q fun _ => true) = true)
    (hsame : forall index inferring, q index inferring = true ->
      (choose index inferring).getD (.param index inferring) =
        (other index inferring).getD (.param index inferring)) :
    t.replace choose = t.replace other := by
  induction t using induction_parts with
  | step t ih =>
      rcases everywhere_iff.mp ht with ⟨hhere, hparts⟩
      cases hparam : t.former.isParam with
      | true =>
          rcases former_eq_param hparam with ⟨index, inferring, rfl⟩
          exact hsame index inferring hhere
      | false =>
          apply eq_of_former_eq
          · rw [former_replace hparam, former_replace hparam]
          · rw [parts_replace hparam, parts_replace hparam]
            exact List.map_congr_left fun s hs => ih s hs (hparts s hs)

theorem replace_eq_self {q : Nat -> Bool -> Bool} {t : Ty}
    (ht : t.everywhere (Former.onParams q fun _ => true) = true)
    (hstay : forall index inferring, q index inferring = true ->
      (choose index inferring).getD (.param index inferring) = .param index inferring) :
    t.replace choose = t := by
  induction t using induction_parts with
  | step t ih =>
      rcases everywhere_iff.mp ht with ⟨hhere, hparts⟩
      cases hparam : t.former.isParam with
      | true =>
          rcases former_eq_param hparam with ⟨index, inferring, rfl⟩
          exact hstay index inferring hhere
      | false =>
          apply eq_of_former_eq (former_replace hparam)
          rw [parts_replace hparam]
          have hsame : t.parts.map (replace choose) = t.parts.map id :=
            List.map_congr_left fun s hs => ih s hs (hparts s hs)
          rw [hsame, List.map_id]

theorem replace_replace (choose later : Nat -> Bool -> Option Ty) (t : Ty) :
    (t.replace choose).replace later =
      t.replace fun index inferring =>
        some (((choose index inferring).getD (.param index inferring)).replace later) := by
  induction t using induction_parts with
  | step t ih =>
      cases hparam : t.former.isParam with
      | true =>
          rcases former_eq_param hparam with ⟨index, inferring, rfl⟩
          simp [replace]
      | false =>
          have hformer : (t.replace choose).former = t.former := former_replace hparam
          have hagain : (t.replace choose).former.isParam = false := by rw [hformer]; exact hparam
          apply eq_of_former_eq
          · rw [former_replace hagain, hformer, former_replace hparam]
          · rw [parts_replace hagain, parts_replace hparam, parts_replace hparam, List.map_map]
            exact List.map_congr_left fun s hs => ih s hs

/-!
## Occurring parameters
-/

theorem anyParamList_eq (p : Nat -> Bool -> Bool) (ts : List Ty) :
    anyParamList p ts = ts.any (anyParam p) := by
  induction ts with
  | nil => rfl
  | cons t ts ih => rw [anyParamList, ih, List.any_cons]

theorem anyParamFields_eq (p : Nat -> Bool -> Bool) (fields : List (String × Field Ty)) :
    anyParamFields p fields = (fields.map fun item => item.2.type).any (anyParam p) := by
  induction fields with
  | nil => rfl
  | cons item fields ih =>
      rcases item with ⟨name, ⟨slot, t⟩⟩
      rw [anyParamFields, ih, List.map_cons, List.any_cons]

theorem anyParam_eq_false {p : Nat -> Bool -> Bool} {t : Ty} :
    t.anyParam p = false ↔
      t.everywhere (Former.onParams (fun index inferring => !p index inferring) fun _ => true) =
        true := by
  induction t using induction_parts with
  | step t ih =>
      have hparts : (t.parts.any (anyParam p) = false) ↔
          forall s, s ∈ t.parts -> s.everywhere
            (Former.onParams (fun index inferring => !p index inferring) fun _ => true) = true := by
        rw [List.any_eq_false]
        constructor
        · intro h s hs
          exact (ih s hs).mp (by simpa using h s hs)
        · intro h s hs
          simpa using (ih s hs).mpr (h s hs)
      rw [everywhere_iff, <- hparts]
      cases t <;>
        simp [anyParam, anyParamList_eq, anyParamFields_eq, former, parts, Former.onParams]

theorem everywhere_mentions (t : Ty) :
    t.everywhere (Former.onParams
      (fun index _ => t.anyParam fun k _ => k == index) fun _ => true) = true := by
  have hwithin : forall s : Ty, (forall p, s.anyParam p = true -> t.anyParam p = true) ->
      s.everywhere (Former.onParams
        (fun index _ => t.anyParam fun k _ => k == index) fun _ => true) = true := by
    intro s
    induction s using induction_parts with
    | step s ih =>
        intro hmentions
        refine everywhere_iff.mpr ⟨?_, ?_⟩
        · cases hparam : s.former.isParam with
          | true =>
              rcases former_eq_param hparam with ⟨index, inferring, rfl⟩
              exact hmentions _ (by simp [anyParam])
          | false => exact Former.onParams_of_not_param hparam
        · intro part hpart
          refine ih part hpart fun p hp => hmentions p ?_
          cases hwhole : s.anyParam p with
          | true => rfl
          | false =>
              have hparts := (everywhere_iff.mp (anyParam_eq_false.mp hwhole)).right
              rw [anyParam_eq_false.mpr (hparts part hpart)] at hp
              cases hp
  exact hwithin t fun _ h => h

end Ty
end TypeChecker
