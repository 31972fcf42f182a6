import TypeChecker.Proofs.Assign.Order
import TypeChecker.Variance.Usage

/-!
# Instantiation respects variance

A type that uses its parameters as their variance allows grows with covariant
arguments, shrinks with contravariant ones, and does not depend on parameters that
do not occur in it.
-/

namespace TypeChecker

namespace Variance

def implies (v w : Variance) : Bool :=
  w == .bivariant || v == .invariant || v == w

theorem implies_refl (v : Variance) : v.implies v = true := by
  cases v <;> rfl

theorem implies_trans {u v w : Variance} (huv : u.implies v = true) (hvw : v.implies w = true) :
    u.implies w = true := by
  cases u <;> cases v <;> cases w <;> simp_all [implies]

theorem both_implies_left (v w : Variance) : (v.both w).implies v = true := by
  cases v <;> cases w <;> rfl

theorem both_implies_right (v w : Variance) : (v.both w).implies w = true := by
  cases v <;> cases w <;> rfl

theorem within_implies {v w : Variance} (u : Variance) (h : v.implies w = true) :
    (u.within v).implies (u.within w) = true := by
  cases u <;> cases v <;> cases w <;> simp_all [implies, within, inverse]

theorem within_within {u v : Variance} (w : Variance) (hu : u ≠ .bivariant)
    (hv : v ≠ .bivariant) : u.within (v.within w) = (u.within v).within w := by
  cases u <;> cases v <;> cases w <;> simp_all [within, inverse]

theorem within_covariant {v : Variance} (h : v ≠ .bivariant) : v.within .covariant = v := by
  cases v <;> simp_all [within, inverse]

theorem within_of_covariant (v : Variance) : covariant.within v = v := by
  cases v <;> rfl

theorem within_ne_bivariant {v w : Variance} (hw : w ≠ .bivariant) :
    v.within w ≠ .bivariant := by
  cases v <;> cases w <;> simp_all [within, inverse]

theorem allows_implies {declared used : Variance} (h : declared.allows used = true) :
    declared.implies used = true := by
  cases declared <;> cases used <;> simp_all [allows, implies]

theorem ofVariance_within {v w : Variance} (hv : v ≠ .bivariant) (hw : w ≠ .bivariant) :
    (Direction.ofVariance v).within w = Direction.ofVariance (v.within w) := by
  cases v <;> cases w <;> simp_all [Direction.ofVariance, Direction.within, within, inverse,
    Direction.inverse]

def Relates (ctx : TypeContext) (n : Nat) (v : Variance) (a b : Ty) : Prop :=
  v = .bivariant ∨ (Direction.ofVariance v).HoldsWithin ctx n b a

variable {ctx : TypeContext} {n : Nat}

theorem relates_self (v : Variance) (t : Ty) : v.Relates ctx n t t :=
  Or.inr (Direction.holdsWithin_self n _ t)

theorem Relates.implied {v w : Variance} {a b : Ty} (himplies : v.implies w = true)
    (h : v.Relates ctx n a b) : w.Relates ctx n a b := by
  by_cases hw : w = .bivariant
  · exact Or.inl hw
  · by_cases hvw : v = w
    · exact hvw ▸ h
    · have hv : v = .invariant := by
        cases v <;> cases w <;> simp_all [implies]
      rcases h with h | h
      · rw [hv] at h
        cases h
      · rw [hv] at h
        rw [show b = a from h]
        exact relates_self w a

/-!
## Usage by parts
-/

theorem usageList_eq (registry : Registry) (arity : Nat) (ts : List Ty) :
    usageList registry arity ts = ts.map (usage registry arity) := by
  induction ts with
  | nil => rfl
  | cons t ts ih => rw [usageList, ih, List.map_cons]

theorem usageFields_eq (registry : Registry) (arity : Nat) (fields : List (String × Field Ty)) :
    usageFields registry arity fields =
      (fields.map fun item => item.2.type).map (usage registry arity) := by
  induction fields with
  | nil => rfl
  | cons item fields ih =>
      rcases item with ⟨name, ⟨slot, t⟩⟩
      rw [usageFields, ih, List.map_cons, List.map_cons]

theorem positions_named_of_le {registry : Registry} {name : Symbol} {d : Declaration}
    (hd : Table.get? registry name = some d) {given : Nat} (hgiven : given ≤ d.arity) :
    (Former.named name given).positions registry = (d.params.map Param.variance).take given := by
  apply List.ext_getElem?
  intro k
  rw [Declaration.arity] at hgiven
  by_cases hk : k < given
  · have hparam : k < d.params.length := by omega
    simp [Former.positions, Registry.varianceAt, hd, hk, hparam]
  · rw [List.getElem?_take, if_neg hk]
    simp [Former.positions, hk]

theorem positions_named {registry : Registry} {name : Symbol} {d : Declaration}
    (hd : Table.get? registry name = some d) :
    (Former.named name d.arity).positions registry = d.params.map Param.variance := by
  rw [positions_named_of_le hd (Nat.le_refl _)]
  exact List.take_of_length_le (by simp [Declaration.arity])

theorem position_of_arg {registry : Registry} {name : Symbol} {d : Declaration}
    (hd : Table.get? registry name = some d) {args : List Ty} (hargs : args.length = d.arity)
    {index : Nat} {arg : Ty} (harg : args[index]? = some arg) :
    exists p, d.params[index]? = some p ∧
      ((Former.named name args.length).positions registry)[index]? = some p.variance := by
  have hindex : index < d.params.length := by
    have hlt := (List.getElem?_eq_some_iff.mp harg).choose
    rw [hargs] at hlt
    exact hlt
  refine ⟨d.params.get ⟨index, hindex⟩, by simp, ?_⟩
  rw [hargs, positions_named hd, List.getElem?_map]
  simp [hindex]

theorem replicate_eq_ofComponents (arity : Nat) :
    List.replicate arity Variance.bivariant = ofComponents arity [] [] := by
  simp [ofComponents]

theorem ofComponents_take (arity : Nat) (positions : List Variance)
    (components : List (List Variance)) :
    ofComponents arity (positions.take components.length) components =
      ofComponents arity positions components := by
  have hzip : (positions.take components.length).zip components = positions.zip components := by
    induction components generalizing positions with
    | nil => simp
    | cons component components ih =>
        cases positions with
        | nil => rfl
        | cons position positions => simp [ih]
  rw [ofComponents, hzip, ofComponents]

/-- The usage of a type is put together from that of its parts. -/
theorem usage_eq {registry : Registry} {arity : Nat} {t : Ty}
    (hparam : t.former.isParam = false) (happlicable : t.former.isApplicable registry = true) :
    usage registry arity t =
      ofComponents arity (t.former.positions registry) (t.parts.map (usage registry arity)) := by
  cases t with
  | named name args =>
      rcases Former.exists_of_isApplicable happlicable with ⟨d, hd, hargs⟩
      have hlen : args.length = (args.map (usage registry arity)).length :=
        (List.length_map _).symm
      rw [usage, hd]
      simp only [Ty.former, Ty.parts, usageList_eq, positions_named_of_le hd hargs]
      rw [hlen, ofComponents_take]
  | param index inferring => cases hparam
  | tuple items => simp [usage, Ty.former, Ty.parts, Former.positions, usageList_eq]
  | bundle fields =>
      simp [usage, Ty.former, Ty.parts, Former.positions, usageFields_eq, Function.comp_def]
  | func input output => simp [usage, Ty.former, Ty.parts, Former.positions]
  | _ => simp [usage, Ty.former, Ty.parts, Former.positions, replicate_eq_ofComponents]

theorem foldl_both_implies {α : Type} (f : α -> Variance) (parts : List α) (start : Variance) :
    (parts.foldl (fun v part => v.both (f part)) start).implies start = true ∧
      forall part, part ∈ parts ->
        (parts.foldl (fun v part => v.both (f part)) start).implies (f part) = true := by
  induction parts generalizing start with
  | nil => exact ⟨implies_refl start, fun part hpart => by cases hpart⟩
  | cons first rest ih =>
      rcases ih (start.both (f first)) with ⟨hstart, hrest⟩
      constructor
      · exact implies_trans hstart (both_implies_left _ _)
      · intro part hpart
        rcases List.mem_cons.mp hpart with rfl | hpart
        · exact implies_trans hstart (both_implies_right _ _)
        · exact hrest part hpart

theorem ofComponents_implies {arity : Nat} {positions : List Variance}
    {components : List (List Variance)} {k index : Nat} {position : Variance}
    {component : List Variance} (hindex : index < arity)
    (hposition : positions[k]? = some position) (hcomponent : components[k]? = some component) :
    ((ofComponents arity positions components).getD index .bivariant).implies
      (position.within (component.getD index .bivariant)) = true := by
  have hmem : (position, component) ∈ positions.zip components := by
    have hzip : (positions.zip components)[k]? = some (position, component) := by
      simp [List.getElem?_zip_eq_some, hposition, hcomponent]
    exact List.mem_of_getElem? hzip
  have hfold := (foldl_both_implies
    (fun part : Variance × List Variance => part.1.within (part.2.getD index .bivariant))
    (positions.zip components) .bivariant).right _ hmem
  simpa [ofComponents, List.getD_eq_getElem?_getD, hindex] using hfold

theorem usage_param {registry : Registry} {arity index : Nat} {inferring : Bool}
    (hindex : index < arity) :
    (usage registry arity (.param index inferring)).getD index .bivariant = .covariant := by
  simp [usage, single, List.getD_eq_getElem?_getD, hindex]

theorem usage_implies_part {registry : Registry} {arity k index : Nat} {t part : Ty}
    {v : Variance} (hparam : t.former.isParam = false)
    (happlicable : t.former.isApplicable registry = true) (hindex : index < arity)
    (hv : (t.former.positions registry)[k]? = some v) (hpart : t.parts[k]? = some part) :
    ((usage registry arity t).getD index .bivariant).implies
      (v.within ((usage registry arity part).getD index .bivariant)) = true := by
  have husage : (t.parts.map (usage registry arity))[k]? = some (usage registry arity part) := by
    rw [List.getElem?_map, hpart]
    rfl
  rw [usage_eq hparam happlicable]
  exact ofComponents_implies hindex hv husage

/-!
## Instantiation
-/

theorem positions_ne_bivariant {registry : Registry} (hsigned : registry.Signed) {f : Former}
    {k : Nat} {v : Variance} (h : (f.positions registry)[k]? = some v) : v ≠ .bivariant := by
  have hmem := List.mem_of_getElem? h
  cases f with
  | named name arity =>
      rcases List.mem_map.mp hmem with ⟨index, _, rfl⟩
      unfold Registry.varianceAt
      cases hd : Table.get? registry name with
      | none => simp
      | some d =>
          cases hparam : d.params[index]? with
          | none => simp [hparam]
          | some param =>
              simpa [hparam] using hsigned name d hd param (List.mem_of_getElem? hparam)
  | tuple size =>
      rw [(List.mem_replicate.mp hmem).right]
      simp
  | bundle fields =>
      rcases List.mem_map.mp hmem with ⟨field, _, rfl⟩
      simp
  | func =>
      simp only [Former.positions, List.mem_cons, List.not_mem_nil, or_false] at hmem
      rcases hmem with rfl | rfl <;> simp
  | _ => simp [Former.positions] at hmem

def Demands (Q : Direction -> Ty -> Ty -> Prop) (v : Variance) (a b : Ty) : Prop :=
  forall w : Variance, v.implies w = true -> w ≠ .bivariant -> Q (Direction.ofVariance w) b a

theorem Demands.implied {Q : Direction -> Ty -> Ty -> Prop} {v w : Variance} {a b : Ty}
    (h : v.Demands Q a b) (himplies : v.implies w = true) : w.Demands Q a b :=
  fun u hu => h u (implies_trans himplies hu)

/-- A relation that passes from parts to the whole passes from arguments, related as the
use of their parameters asks for, to instances. Parameters without an argument stay. -/
theorem instantiate_related {registry : Registry} {arity : Nat} (hsigned : registry.Signed)
    {Q : Direction -> Ty -> Ty -> Prop} {p : Former -> Bool}
    (hstays : forall d index inferring, p (.param index inferring) = true ->
      Q d (.param index inferring) (.param index inferring))
    (hcompose : forall d target given, target.former.isParam = false ->
      target.former = given.former -> p target.former = true ->
      (forall (k : Nat) w x y, (target.former.positions registry)[k]? = some w ->
        target.parts[k]? = some x -> given.parts[k]? = some y -> Q (d.within w) x y) ->
      Q d target given)
    {t : Ty} (happlicable : t.everywhere (Former.isApplicable registry) = true)
    (ht : t.everywhere (Former.onParams (fun index inferring =>
      decide (index < arity) || p (.param index inferring)) p) = true)
    {as bs : List Ty} (has : as.length = arity) (hbs : bs.length = arity) {v : Variance}
    (hv : v ≠ .bivariant)
    (h : forall (index : Nat) a b, as[index]? = some a -> bs[index]? = some b ->
      (v.within ((usage registry arity t).getD index .bivariant)).Demands Q a b) :
    Q (Direction.ofVariance v) (t.instantiate bs) (t.instantiate as) := by
  induction t using Ty.induction_parts generalizing v with
  | step t ih =>
      rcases Ty.everywhere_iff.mp happlicable with ⟨hhere, hparts⟩
      rcases Ty.everywhere_iff.mp ht with ⟨hformer, hformers⟩
      cases hparam : t.former.isParam with
      | true =>
          rcases Ty.former_eq_param hparam with ⟨index, inferring, rfl⟩
          by_cases hindex : index < arity
          · have ha : as[index]? = some (as.get ⟨index, has ▸ hindex⟩) := by simp
            have hb : bs[index]? = some (bs.get ⟨index, hbs ▸ hindex⟩) := by simp
            have hab := h index _ _ ha hb
            rw [usage_param hindex, within_covariant hv] at hab
            simpa [Ty.instantiate, Ty.replace, ha, hb] using hab v (implies_refl v) hv
          · have ha : as[index]? = none := List.getElem?_eq_none (by omega)
            have hb : bs[index]? = none := List.getElem?_eq_none (by omega)
            have hp : p (.param index inferring) = true := by
              simpa [Ty.former, Former.onParams, hindex] using hformer
            simpa [Ty.instantiate, Ty.replace, ha, hb] using hstays _ index inferring hp
      | false =>
          have hsame : forall args, (t.instantiate args).former = t.former :=
            fun args => Ty.former_replace hparam
          rw [Former.onParams_of_not_param hparam] at hformer
          apply hcompose
          · rw [hsame, hparam]
          · rw [hsame, hsame]
          · rw [hsame, hformer]
          intro k w y x hw hy hx
          unfold Ty.instantiate at hw hy hx
          rw [Ty.former_replace hparam] at hw
          rw [Ty.parts_replace hparam, List.getElem?_map] at hy hx
          rcases Option.map_eq_some_iff.mp hx with ⟨part, hpart, rfl⟩
          rcases Option.map_eq_some_iff.mp hy with ⟨part', hpart', rfl⟩
          cases hpart.symm.trans hpart'
          have hwne := positions_ne_bivariant hsigned hw
          have hmem := List.mem_of_getElem? hpart
          rw [ofVariance_within hv hwne]
          apply ih part hmem (hparts part hmem) (hformers part hmem) (within_ne_bivariant hwne)
          intro index a b ha hb
          have hindex : index < arity := has ▸ (List.getElem?_eq_some_iff.mp ha).choose
          have himplies := usage_implies_part hparam hhere hindex hw hpart
          rw [<- within_within _ hv hwne]
          exact (h index a b ha hb).implied (within_implies v himplies)

theorem relates_instantiate {arity : Nat} (hsigned : ctx.registry.Signed) {t : Ty}
    (happlied : t.everywhere (Former.isApplied ctx.registry) = true) {as bs : List Ty}
    (has : as.length = arity) (hbs : bs.length = arity) {v : Variance} (hv : v ≠ .bivariant)
    (h : forall (index : Nat) a b, as[index]? = some a -> bs[index]? = some b ->
      (v.within ((usage ctx.registry arity t).getD index .bivariant)).Relates ctx n a b) :
    v.Relates ctx n (t.instantiate as) (t.instantiate bs) := by
  have happlicable : t.everywhere (Former.isApplicable ctx.registry) = true :=
    Ty.everywhere_mono (fun _ => Former.isApplicable_of_isApplied) happlied
  refine Or.inr (instantiate_related hsigned (p := fun _ => true) ?_ ?_ happlicable
    (Ty.everywhere_mono ?_ happlied) has hbs hv ?_)
  · exact fun d index inferring _ => Direction.holdsWithin_self n d _
  · exact fun d target given _ hformer _ => Direction.holdsWithin_of_parts hformer
  · intro f _
    cases f <;> simp [Former.onParams]
  · intro index a b ha hb w himplies hw
    rcases (h index a b ha hb).implied himplies with hbi | hrelated
    · exact absurd hbi hw
    · exact hrelated

end Variance
end TypeChecker
