import TypeChecker.Proofs.Assign.Bindings
import TypeChecker.Proofs.Assign.Frame

/-!
# Conditions that assignments keep

A condition on formers that holds of both types, of the bindings, and of what the
context brings in also holds of the result of an assignment and of the bindings it
leaves, whether it accepts or rejects. The target need not satisfy it where it has
parameters being inferred: these do not get into the result.
-/

namespace TypeChecker

open Assign Inferring

namespace Former

def isUnmarked : Former -> Bool :=
  onParams (fun _ inferring => !inferring) fun _ => true

/-- `q` asks what `p` asks, except of parameters being inferred, of which it asks no more. -/
structure Relaxes (q p : Former -> Bool) : Prop where
  weaker : forall f, p f = true -> q f = true
  same : forall f, f.isUnmarked = true -> q f = true -> p f = true

theorem Relaxes.refl (p : Former -> Bool) : Relaxes p p :=
  ⟨fun _ h => h, fun _ _ h => h⟩

theorem relaxes_unmarked : Relaxes (fun _ => true) isUnmarked :=
  ⟨fun _ _ => rfl, fun _ h _ => h⟩

end Former

/-- All types that a context brings in satisfy `p` throughout. -/
structure TypeContext.Brings (ctx : TypeContext) (p : Former -> Bool) : Prop where
  registry : ctx.registry.Stores p
  bounds : forall bound, bound ∈ ctx.boundTypes -> bound.everywhere p = true

namespace Inference

variable {p : Former -> Bool} {i : Inference}

def Binds (p : Former -> Bool) (i : Inference) : Prop :=
  forall index slot, i.slot? index = some slot -> slot.type.everywhere p = true

theorem binds_of_slots
    (h : forall slot, some slot ∈ i.slots -> slot.type.everywhere p = true) : i.Binds p :=
  fun _ slot hslot => h slot (List.mem_of_getElem? (Option.join_eq_some_iff.mp hslot))

theorem Binds.slot (h : i.Binds p) {slot : Slot} (hslot : some slot ∈ i.slots) :
    slot.type.everywhere p = true := by
  rcases List.mem_iff_getElem?.mp hslot with ⟨index, hindex⟩
  exact h index slot (Option.join_eq_some_iff.mpr hindex)

theorem Binds.bind (h : i.Binds p) {index : Nat} {slot : Slot}
    (hslot : slot.type.everywhere p = true) : (i.bind index slot).Binds p := by
  apply binds_of_slots
  intro other hother
  rcases List.mem_or_eq_of_mem_set hother with hold | hnew
  · exact h.slot hold
  · cases hnew
    exact hslot

theorem binds_disabled : Inference.disabled.Binds p := by
  apply binds_of_slots
  intro slot hslot
  cases hslot

theorem binds_start (params : List Param) (bounds : Bounds) :
    (Inference.start params bounds).Binds p := by
  apply binds_of_slots
  intro slot hslot
  rcases List.mem_map.mp hslot with ⟨_, _, hnone⟩
  cases hnone

theorem Binds.adopt {other : Inference} (h : i.Binds p) (hother : other.Binds p) :
    (i.adopt other).Binds p := by
  intro index slot hslot
  rcases i.slot?_adopt other index with hsame | hsame
  · exact hother index slot (hsame ▸ hslot)
  · exact h index slot (hsame ▸ hslot)

theorem Binds.substitute (h : i.Binds p) {t : Ty} (ht : t.everywhere p = true) :
    (i.substitute t).everywhere p = true := by
  rw [<- Former.onParams_self p] at ht
  apply Ty.everywhere_replace ht
  intro index inferring hparam
  cases inferring with
  | false => simpa [Ty.everywhere] using hparam
  | true =>
      cases hslot : i.slot? index with
      | none => simpa [Ty.everywhere] using hparam
      | some slot => simpa using h index slot hslot

theorem Binds.substitute_relaxed {q : Former -> Bool} (hq : Former.Relaxes q p) (h : i.Binds p)
    {t : Ty} (ht : t.everywhere q = true) (hclosed : (i.substitute t).hasInferring = false) :
    (i.substitute t).everywhere p = true := by
  have hbinds : i.Binds q := fun index slot hslot =>
    Ty.everywhere_mono hq.weaker (h index slot hslot)
  refine Ty.everywhere_mono ?_
    (Ty.everywhere_and.mpr ⟨hbinds.substitute ht, Ty.anyParam_eq_false.mp hclosed⟩)
  intro f hf
  rcases Bool.and_eq_true_iff.mp hf with ⟨hrelaxed, hunmarked⟩
  exact hq.same f hunmarked hrelaxed

theorem Binds.certain (h : i.Binds p) {t certain : Ty} (ht : t.everywhere p = true)
    (hcertain : i.certain? t = some certain) : certain.everywhere p = true := by
  rw [certain?] at hcertain
  split at hcertain
  · cases hcertain
  · cases hcertain
    exact h.substitute ht

theorem Binds.bindings (h : i.Binds p) {types : List Ty} (htypes : i.bindings? = some types) :
    forall t, t ∈ types -> t.everywhere p = true := by
  intro t ht
  have hslots := Inference.slots_of_bindings htypes
  have hmem : some t ∈ i.slots.map (Option.map Slot.type) :=
    hslots ▸ List.mem_map.mpr ⟨t, ht, rfl⟩
  rcases List.mem_map.mp hmem with ⟨slot, hslot, hbound⟩
  rcases Option.map_eq_some_iff.mp hbound with ⟨found, rfl, rfl⟩
  exact h.slot hslot

end Inference

namespace Assign

variable {ctx : TypeContext} {direct assign : Assigner} {d : Direction}
  {q p : Former -> Bool}

def Closed (q p : Former -> Bool) (assign : Assigner) : Prop :=
  forall d t given, t.everywhere q = true -> given.everywhere p = true ->
    (assign d t given).Ensures (Inference.Binds p) fun result => result.everywhere p = true

theorem items_closed (hassign : Closed q p assign) {targets givens : List Ty}
    (htargets : forall t, t ∈ targets -> t.everywhere q = true)
    (hgivens : forall t, t ∈ givens -> t.everywhere p = true) :
    (items (assign d) targets givens).Ensures (Inference.Binds p) fun results =>
      results.length = targets.length ∧ forall t, t ∈ results -> t.everywhere p = true := by
  induction targets generalizing givens with
  | nil =>
      cases givens with
      | nil => exact ensures_pure ⟨rfl, fun t ht => by cases ht⟩
      | cons given givens => exact ensures_throw _
  | cons target targets ih =>
      cases givens with
      | nil => exact ensures_throw _
      | cons given givens =>
          rw [List.forall_mem_cons] at htargets hgivens
          apply Ensures.bind (hassign d _ _ htargets.left hgivens.left)
          intro first hfirst
          apply Ensures.bind (ih htargets.right hgivens.right)
          intro rest hrest
          exact ensures_pure ⟨congrArg Nat.succ hrest.left,
            List.forall_mem_cons.mpr ⟨hfirst, hrest.right⟩⟩

theorem args_closed (hassign : Closed q p assign) {params : List Param} {targets givens : List Ty}
    (htargets : forall t, t ∈ targets -> t.everywhere q = true)
    (hgivens : forall t, t ∈ givens -> t.everywhere p = true) :
    (args assign d params targets givens).Ensures (Inference.Binds p) fun results =>
      results.length = targets.length ∧ forall t, t ∈ results -> t.everywhere p = true := by
  induction targets generalizing params givens with
  | nil =>
      cases givens with
      | nil => exact ensures_pure ⟨rfl, fun t ht => by cases ht⟩
      | cons given givens => exact ensures_throw _
  | cons target targets ih =>
      cases givens with
      | nil => exact ensures_throw _
      | cons given givens =>
          rw [List.forall_mem_cons] at htargets hgivens
          apply Ensures.bind (hassign _ _ _ htargets.left hgivens.left)
          intro first hfirst
          apply Ensures.bind (ih htargets.right hgivens.right)
          intro rest hrest
          exact ensures_pure ⟨congrArg Nat.succ hrest.left,
            List.forall_mem_cons.mpr ⟨hfirst, hrest.right⟩⟩

theorem fields_closed (hassign : Closed q p assign) {givens : Table String (Field Ty)}
    {targets : List (String × Field Ty)}
    (htargets : forall item, item ∈ targets -> item.2.type.everywhere q = true)
    (hgivens : forall item, item ∈ givens -> item.2.type.everywhere p = true) :
    (fields (assign d) givens targets).Ensures (Inference.Binds p) fun results =>
      (results.map fun item => (item.1, item.2.slot)) =
          (targets.map fun item => (item.1, item.2.slot)) ∧
        forall item, item ∈ results -> item.2.type.everywhere p = true := by
  induction targets with
  | nil => exact ensures_pure ⟨rfl, fun item hitem => by cases hitem⟩
  | cons target targets ih =>
      rcases target with ⟨name, field⟩
      rw [List.forall_mem_cons] at htargets
      have hfound : (Assigning.ofOption (Table.get? givens name)).Ensures (Inference.Binds p)
          fun given => given.type.everywhere p = true := by
        cases hget : Table.get? givens name with
        | none => exact ensures_throw _
        | some given => exact ensures_pure (hgivens _ (Table.mem_of_get? hget))
      apply hfound.bind
      intro given hgiven
      split
      · apply Ensures.bind (hassign d _ _ htargets.left hgiven)
        intro first hfirst
        apply Ensures.bind (ih htargets.right)
        intro rest hrest
        exact ensures_pure ⟨by rw [List.map_cons, List.map_cons, hrest.left],
          List.forall_mem_cons.mpr ⟨hfirst, hrest.right⟩⟩
      · exact ensures_throw _

theorem structural_closed (hq : Former.Relaxes q p) (hassign : Closed q p assign) {t given : Ty}
    (ht : t.everywhere q = true) (hgiven : given.everywhere p = true) :
    (structural ctx assign d t given).Ensures (Inference.Binds p) fun result =>
      result.everywhere p = true := by
  have hsame := hgiven
  rw [Ty.everywhere_iff] at ht hgiven
  unfold structural
  split
  · exact ensures_pure hsame
  · exact ensures_pure hsame
  · exact ensures_pure hsame
  · split
    · split
      · exact ensures_throw _
      · apply Ensures.bind (args_closed hassign ht.right hgiven.right)
        intro results hresults
        refine ensures_pure (Ty.everywhere_iff.mpr ⟨?_, hresults.right⟩)
        rw [Ty.former, hresults.left]
        exact hq.same _ rfl ht.left
    · exact ensures_throw _
  · split
    · apply Ensures.bind (items_closed hassign ht.right hgiven.right)
      intro results hresults
      refine ensures_pure (Ty.everywhere_iff.mpr ⟨?_, hresults.right⟩)
      rw [Ty.former, hresults.left]
      exact hq.same _ rfl ht.left
    · exact ensures_throw _
  · split
    · apply Ensures.bind (fields_closed hassign (List.forall_mem_map.mp ht.right)
        (List.forall_mem_map.mp hgiven.right))
      intro results hresults
      refine ensures_pure (Ty.everywhere_iff.mpr ⟨?_, List.forall_mem_map.mpr hresults.right⟩)
      rw [Ty.former, hresults.left]
      exact hq.same _ rfl ht.left
    · exact ensures_throw _
  · apply Ensures.bind (hassign _ _ _ (ht.right _ (by simp [Ty.parts]))
      (hgiven.right _ (by simp [Ty.parts])))
    intro input hinput
    apply Ensures.bind (hassign _ _ _ (ht.right _ (by simp [Ty.parts]))
      (hgiven.right _ (by simp [Ty.parts])))
    intro output houtput
    refine ensures_pure (Ty.everywhere_iff.mpr ⟨hq.same _ rfl ht.left, ?_⟩)
    simp [Ty.parts, hinput, houtput]
  · exact ensures_throw _

theorem inferredParam_closed (hq : Former.Relaxes q p) (hdirect : Closed q p direct)
    (hassign : Closed q p assign) {index : Nat} {given : Ty} (hgiven : given.everywhere p = true) :
    (inferredParam direct assign d index given).Ensures (Inference.Binds p) fun result =>
      result.everywhere p = true := by
  unfold inferredParam
  apply Ensures.bind ensures_state
  intro i hi
  split
  · exact ensures_throw _
  · split
    · exact Preserves.bind (ensures_modify fun j hj => hj.bind hgiven) fun _ => ensures_pure hgiven
    · rename_i slot hslot
      have hbound := Ty.everywhere_mono hq.weaker (hi index slot hslot)
      apply Ensures.bind (Ensures.attempt (hdirect d _ _ hbound hgiven))
      intro result hresult
      cases result with
      | ok t => exact ensures_pure (hresult t rfl)
      | error e =>
          dsimp only
          split
          · apply Preserves.bind (hassign _ _ _ hbound hgiven).preserves
            intro _
            exact Preserves.bind (ensures_modify fun j hj => hj.bind hgiven)
              fun _ => ensures_pure hgiven
          · exact ensures_throw _

variable (hq : Former.Relaxes q p) (hctx : ctx.Brings p)

include hq hctx

theorem directly_closed (hdirect : Closed q p direct) (hassign : Closed q p assign) :
    Closed q p (directly ctx direct assign) := by
  intro d t given ht hgiven
  have htarget : (target ctx direct assign d t given).Ensures (Inference.Binds p) fun result =>
      result.everywhere p = true := by
    unfold target
    split
    · exact inferredParam_closed hq hdirect hassign hgiven
    · unfold fixedParam
      split
      · split
        · exact ensures_pure hgiven
        · exact ensures_throw _
      · split
        · rename_i bound hbound
          refine hassign d bound given (Ty.everywhere_mono hq.weaker ?_) hgiven
          exact hctx.bounds bound (mem_boundTypes_of_target hbound)
        · exact ensures_throw _
    · exact structural_closed hq hassign ht hgiven
  rw [directly]
  split
  · exact htarget
  · rename_i bound hbound
    apply Ensures.bind (Ensures.attempt (hassign d t bound ht ?_))
    · intro result hresult
      cases result with
      | ok assigned => exact ensures_pure (hresult assigned rfl)
      | error e => exact htarget
    · exact hctx.bounds bound (mem_boundTypes_of_given hbound)

theorem afterwards_closed (hassign : Closed q p assign) : Closed q p (afterwards ctx assign) := by
  intro d t given ht hgiven
  unfold afterwards
  cases d with
  | toTarget =>
      dsimp only
      split
      · apply Ensures.bind ensures_state
        intro i hi
        split
        · exact ensures_throw _
        · rename_i hclosed
          exact ensures_pure (hi.substitute_relaxed hq ht (Bool.eq_false_iff.mpr hclosed))
      · split
        · rename_i hany
          subst hany
          exact ensures_pure (Ty.everywhere_iff.mpr
            ⟨hq.same _ rfl (Ty.everywhere_iff.mp ht).left, List.forall_mem_nil _⟩)
        · split
          · rename_i inner hunbox
            exact hassign _ _ _ ht (Ty.everywhere_unbox hctx.registry hgiven hunbox)
          · exact ensures_throw _
  | fromTarget =>
      dsimp only
      split
      · exact ensures_pure hgiven
      · split
        · rename_i hany
          exact ensures_pure (hany ▸ hgiven)
        · split
          · rename_i inner hunbox
            have hstores : ctx.registry.Stores q := fun name d hd s hs =>
              Ty.everywhere_mono hq.weaker (hctx.registry name d hd s hs)
            exact hassign _ _ _ (Ty.everywhere_unbox hstores ht hunbox) hgiven
          · exact ensures_throw _
  | exact => exact ensures_throw _

/-- Assignments keep a condition on formers, at every depth. -/
theorem assign_closed (depth : Nat) :
    Closed q p (TypeChecker.assign ctx depth) ∧ Closed q p (assignDirectly ctx depth) := by
  induction depth with
  | zero => exact ⟨fun _ _ _ _ _ => ensures_exhausted, fun _ _ _ _ _ => ensures_exhausted⟩
  | succ depth ih =>
      rcases ih with ⟨hassign, hdirect⟩
      constructor
      · intro d t given ht hgiven
        rw [TypeChecker.assign]
        apply Ensures.bind (Ensures.attempt (Ensures.restoring (hdirect d t given ht hgiven)))
        intro result hresult
        cases result with
        | ok assigned => exact ensures_pure (hresult assigned rfl)
        | error e => exact afterwards_closed hq hctx hassign d t given ht hgiven
      · intro d t given ht hgiven
        rw [assignDirectly]
        exact directly_closed hq hctx hdirect hassign d t given ht hgiven

end Assign
end TypeChecker
