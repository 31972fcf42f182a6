import TypeChecker.Proofs.Assign.Inferred

/-!
# Bindings over whole runs

Assignments are made one after another in the same inference. One that rejects leaves
all bindings as they were; one that accepts lets a binding change only as its leeway
allows. So does any number of them, whatever types they are about.
-/

namespace TypeChecker

open Assign Inferring

variable {ctx : TypeContext}

/-!
## Rejected assignments
-/

theorem afterwards_error {assign : Assigner} {d : Direction} {target given : Ty}
    {e : Mismatch} {i j : Inference}
    (hassign : forall d t g, (assign d t g).outcome i = some (.error e, j) -> j = i)
    (h : (afterwards ctx assign d target given).outcome i = some (.error e, j)) : j = i := by
  cases d with
  | toTarget =>
      rw [afterwards_toTarget] at h
      split at h
      · split at h <;> cases h
        rfl
      · split at h
        · cases h
        · split at h
          · exact hassign _ _ _ h
          · cases h
            rfl
  | fromTarget =>
      rw [afterwards_fromTarget] at h
      split at h
      · cases h
      · split at h
        · cases h
        · split at h
          · exact hassign _ _ _ h
          · cases h
            rfl
  | exact =>
      cases h
      rfl

/-- An assignment that rejects leaves the inference as it was. -/
theorem assign_error_eq {depth : Nat} {d : Direction} {target given : Ty} {e : Mismatch}
    {i j : Inference} (h : (assign ctx depth d target given).outcome i = some (.error e, j)) :
    j = i := by
  induction depth generalizing d target given with
  | zero => cases h
  | succ depth ih =>
      rcases assign_error h with ⟨_, hdepth, _, hafter⟩
      cases hdepth
      exact afterwards_error (fun d t g => ih) hafter

/-!
## Bindings that stay

This needs nothing of the types, of the registry or of the bounds.
-/

namespace Inference

/-- Every binding of `i` is still there in `j` with its leeway, and with its type if
that is fixed. -/
def Advances (i j : Inference) : Prop :=
  forall k s, i.slot? k = some s -> exists later, j.slot? k = some later ∧
    later.leeway = s.leeway ∧ (s.leeway = .fixed -> later.type = s.type)

theorem Advances.refl (i : Inference) : i.Advances i :=
  fun _ s hs => ⟨s, hs, rfl, fun _ => rfl⟩

theorem Advances.adopt {i j other : Inference} (h : i.Advances j) (hother : i.Advances other) :
    i.Advances (j.adopt other) := by
  intro k s hs
  rcases j.slot?_adopt other k with hsame | hsame
  · rw [hsame]
    exact hother k s hs
  · rw [hsame]
    exact h k s hs

theorem Advances.trans {i j k : Inference} (hij : i.Advances j) (hjk : j.Advances k) :
    i.Advances k := by
  intro index s hs
  rcases hij index s hs with ⟨middle, hmiddle, hleeway, htype⟩
  rcases hjk index middle hmiddle with ⟨last, hlast, hleeway', htype'⟩
  refine ⟨last, hlast, hleeway'.trans hleeway, ?_⟩
  intro hfixed
  rw [htype' (hleeway.trans hfixed), htype hfixed]

theorem bind_of_length_le {i : Inference} {index : Nat} (h : i.slots.length ≤ index)
    (slot : Slot) : i.bind index slot = i := by
  unfold bind
  rw [List.set_eq_of_length_le h]

theorem advances_bind {i : Inference} {index : Nat} {new : Slot}
    (h : forall s, i.slot? index = some s -> new.leeway = s.leeway ∧ s.leeway ≠ .fixed) :
    i.Advances (i.bind index new) := by
  intro k s hs
  by_cases hk : index = k
  · subst hk
    rcases h s hs with ⟨hleeway, hloose⟩
    refine ⟨new, ?_, hleeway, fun hfixed => absurd hfixed hloose⟩
    rw [slot?_bind i (lt_length_of_slot? hs), if_pos rfl]
  · refine ⟨s, ?_, rfl, fun _ => rfl⟩
    rcases Nat.lt_or_ge index i.slots.length with hlt | hge
    · rw [slot?_bind i hlt, if_neg hk, hs]
    · rw [bind_of_length_le hge, hs]

end Inference

theorem Direction.not_fixed_of_adjusts {d : Direction} {leeway : Leeway}
    (h : d.adjusts leeway = true) : leeway ≠ .fixed := by
  cases d <;> cases leeway <;> simp_all [adjusts]

theorem preserves_advances_inferredParam {direct assign : Assigner}
    (hdirect : forall d t g base, (direct d t g).Preserves (Inference.Advances base))
    (hassign : forall d t g base, (assign d t g).Preserves (Inference.Advances base))
    (d : Direction) (index : Nat) (given : Ty) (base : Inference) :
    (inferredParam direct assign d index given).Preserves (Inference.Advances base) := by
  intro i r j hi hrun
  refine ⟨hi.trans ?_, fun _ _ => trivial⟩
  have hstart := Inference.Advances.refl i
  cases inferredParam_infers hrun with
  | disabled => exact hstart
  | bound hunbound =>
      apply Inference.advances_bind
      intro s hs
      cases hunbound.symm.trans hs
  | matched _ hmatch => exact (hdirect _ _ _ i i _ _ hstart hmatch).left
  | refused _ hunmatched hrefused =>
      have hmiddle := (hdirect _ _ _ i i _ _ hstart hunmatched).left
      exact (hassign _ _ _ i _ _ _ hmiddle hrefused).left
  | @adjusted slot _ _ _ l hfound hunmatched hadjusts haccepted =>
      have hmiddle := (hdirect _ _ _ i i _ _ hstart hunmatched).left
      have hlast := (hassign _ _ _ i _ _ _ hmiddle haccepted).left
      refine hlast.trans (Inference.advances_bind ?_)
      -- The binding may have changed on the way here, but not its leeway.
      intro s hs
      rcases hlast index slot hfound with ⟨later, hlater, hleeway, _⟩
      cases hlater.symm.trans hs
      exact ⟨hleeway.symm, hleeway ▸ Direction.not_fixed_of_adjusts hadjusts⟩

theorem assign_advances {depth : Nat} {d : Direction} {target given : Ty}
    {r : Except Mismatch Ty} {i j : Inference}
    (h : (assign ctx depth d target given).outcome i = some (r, j)) : i.Advances j := by
  have hpassed : PassedOn ctx fun _ => True := ⟨by simp, by simp, by simp⟩
  have hpreserves := preserves_of_params (R := Inference.Advances) hpassed
    (fun depth ih d index g base _ => preserves_advances_inferredParam
      (fun d t g base => (ih d t g base trivial).right)
      (fun d t g base => (ih d t g base trivial).left) d index g base)
    depth d target given i trivial
  exact (hpreserves.left i r j (Inference.Advances.refl i) h).left

/-!
## Bindings that grow and shrink

Over a lawful registry a binding is only ever compared with given types. Neither has
parameters being inferred, so the comparison itself binds nothing.
-/

section

variable (hbounds : ctx.bounds = {}) (hlawful : ctx.registry.Lawful)
  (happlied : ctx.registry.FullyApplied)

include hlawful happlied

include hbounds in
theorem passedOn_isOver : PassedOn ctx fun given => given.isOver ctx.registry = true where
  part := fun _ hgiven => (Ty.everywhere_iff.mp hgiven).right
  unbox := fun _ hgiven _ hunbox => by
    have hstores : ctx.registry.Stores (Former.isOver ctx.registry) := fun name d hd t ht =>
      Ty.isOver_iff.mpr ⟨hlawful.known name d hd t ht, happlied name d hd t ht⟩
    exact Ty.everywhere_unbox hstores hgiven hunbox
  bound := fun given _ d bound hbound => by
    rw [givenBound?_unbounded hbounds] at hbound
    cases hbound

def Inference.EvolvesOver (ctx : TypeContext) (i j : Inference) : Prop :=
  i.Evolves ctx j ∧ j.IsOver ctx.registry

theorem Inference.EvolvesOver.bind {i j : Inference} {index : Nat} {new : Slot}
    (hij : i.EvolvesOver ctx j) (hindex : index < j.slots.length)
    (hbind : j.Evolves ctx (j.bind index new)) (hnew : new.type.isOver ctx.registry = true) :
    i.EvolvesOver ctx (j.bind index new) :=
  ⟨hij.left.trans hlawful happlied hij.right hbind,
    Inference.isOver_bind hindex hij.right hnew⟩

include hbounds in
theorem preserves_evolvesOver_inferredParam (depth : Nat) (d : Direction) (index : Nat)
    {given : Ty} (hgiven : given.isOver ctx.registry = true) (base : Inference) :
    (inferredParam (assignDirectly ctx depth) (assign ctx depth) d index given).Preserves
      (Inference.EvolvesOver ctx base) := by
  have hplain := TypeContext.plain_of_lawful hlawful hbounds
  have hclosed : forall {i : Inference} {slot : Slot}, i.IsOver ctx.registry ->
      i.slot? index = some slot -> slot.type.BindsNothing i := fun hover hslot =>
    Or.inr (Ty.hasInferring_eq_false (Ty.isOver_iff.mp (hover _ _ hslot)).left)
  intro i r j hi hrun
  refine ⟨?_, fun _ _ => trivial⟩
  cases inferredParam_infers hrun with
  | disabled => exact hi
  | bound hunbound =>
      rcases Nat.lt_or_ge index i.slots.length with hlt | hge
      · refine hi.bind hlawful happlied hlt (Inference.evolves_bind hlt ?_) hgiven
        intro s hs
        cases hunbound.symm.trans hs
      · rw [Inference.bind_of_length_le hge]
        exact hi
  | matched hfound hmatch =>
      rw [(assignDirectly_keeps (Or.inr hplain) (hclosed hi.right hfound)).eq hmatch]
      exact hi
  | refused hfound hunmatched hrefused =>
      have hsame := (assignDirectly_keeps (Or.inr hplain) (hclosed hi.right hfound)).eq hunmatched
      subst hsame
      rw [(assign_keeps (Or.inr hplain) (hclosed hi.right hfound)).eq hrefused]
      exact hi
  | adjusted hfound hunmatched hadjusts haccepted =>
      rcases adjusted_evolves hbounds hlawful hi.right hgiven hfound hunmatched hadjusts
        haccepted with ⟨rfl, hbind⟩
      exact hi.bind hlawful happlied (Inference.lt_length_of_slot? hfound) hbind hgiven

include hbounds in
theorem assign_evolves {depth : Nat} {d : Direction} {target given : Ty}
    {r : Except Mismatch Ty} {i j : Inference} (hgiven : given.isOver ctx.registry = true)
    (hi : i.IsOver ctx.registry)
    (h : (assign ctx depth d target given).outcome i = some (r, j)) :
    i.EvolvesOver ctx j := by
  have hpreserves := preserves_of_params (passedOn_isOver hbounds hlawful happlied)
    (fun depth _ d index g base hg =>
      preserves_evolvesOver_inferredParam hbounds hlawful happlied depth d index hg base)
    depth d target given i hgiven
  exact (hpreserves.left i r j ⟨Inference.Evolves.refl i, hi⟩ h).left

end

/-!
## Sequences of assignments
-/

structure Assignment where
  ctx : TypeContext
  depth : Nat
  direction : Direction
  target : Ty
  given : Ty

namespace Assignment

def outcome (a : Assignment) (i : Inference) : Bounded (Except Mismatch Ty × Inference) :=
  (assign a.ctx a.depth a.direction a.target a.given).outcome i

/-- An assignment of a type over a registry, without bounds on parameters. -/
structure IsOver (registry : Registry) (a : Assignment) : Prop where
  sameRegistry : a.ctx.registry = registry
  unbounded : a.ctx.bounds = {}
  given : a.given.isOver registry = true

end Assignment

namespace Inference

/-- Some assignments, one after another and each accepted or rejected, lead from `i`
to `j`. -/
inductive Undergoes (i : Inference) : List Assignment -> Inference -> Prop where
  | nil : Undergoes i [] i
  | snoc {j k : Inference} {earlier : List Assignment} {a : Assignment}
      {r : Except Mismatch Ty} (before : Undergoes i earlier j)
      (last : a.outcome j = some (r, k)) : Undergoes i (earlier ++ [a]) k

theorem Undergoes.advances {i j : Inference} {assignments : List Assignment}
    (h : i.Undergoes assignments j) : i.Advances j := by
  induction h with
  | nil => exact Advances.refl i
  | snoc _ last ih => exact ih.trans (assign_advances last)

theorem Undergoes.isOver {registry : Registry} (hdeclared : registry.Declared)
    (happlied : registry.FullyApplied) {i j : Inference} {assignments : List Assignment}
    (hall : forall a, a ∈ assignments -> a.IsOver registry) (hi : i.IsOver registry)
    (h : i.Undergoes assignments j) : j.IsOver registry := by
  induction h with
  | nil => exact hi
  | @snoc j k earlier a r _ last ih =>
      have hj := ih fun b hb => hall b (List.mem_append_left _ hb)
      rcases hall a (by simp) with ⟨rfl, hbounds, hgiven⟩
      exact (assign_evolves hbounds hdeclared.lawful happlied hgiven hj last).right

end Inference

/-- Through any sequence of assignments and one more, of whatever types: a rejected
assignment changes nothing, and bindings stay with their leeway, the fixed ones as they
are. Where the given types and the first bindings are types over a registry declared
without problems, what may grow has only grown, and what may shrink has only shrunk. -/
theorem assignments_evolve_bindings {i j k : Inference} {earlier : List Assignment}
    {last : Assignment} {r : Except Mismatch Ty} (hearlier : i.Undergoes earlier j)
    (hlast : last.outcome j = some (r, k)) :
    (forall e, r = .error e -> k = j) ∧ j.Advances k ∧ i.Advances k ∧
      forall registry : Registry, registry.Declared -> registry.FullyApplied ->
        i.IsOver registry -> (forall a, a ∈ earlier ++ [last] -> a.IsOver registry) ->
        forall index s, j.slot? index = some s -> exists later, k.slot? index = some later ∧
          (s.leeway = .mayGrow -> forall depth answer,
            fits last.ctx depth later.type s.type = some answer -> answer = true) ∧
          (s.leeway = .mayShrink -> forall depth answer,
            fits last.ctx depth s.type later.type = some answer -> answer = true) := by
  have hstep : j.Advances k := assign_advances hlast
  refine ⟨?_, hstep, hearlier.advances.trans hstep, ?_⟩
  · rintro e rfl
    exact assign_error_eq hlast
  · intro registry hdeclared happlied hi hall index s hs
    have hj := hearlier.isOver hdeclared happlied
      (fun a ha => hall a (List.mem_append_left _ ha)) hi
    rcases hall last (by simp) with ⟨rfl, hbounds, hgiven⟩
    have hlawful := hdeclared.lawful
    rcases assign_evolves hbounds hlawful happlied hgiven hj hlast with ⟨hevolves, hk⟩
    rcases hevolves.slot index s hs with ⟨later, hlater, _, m, hm⟩
    have hold := hj index s hs
    have hnew := hk index later hlater
    refine ⟨later, hlater, ?_, ?_⟩
    · intro hgrows
      rw [hgrows] at hm
      exact Below.answer_eq_true hlawful hold hnew hm
    · intro hshrinks
      rw [hshrinks] at hm
      exact Below.answer_eq_true hlawful hnew hold hm

/-- `T` is bound to `N`, keeps this when `unit` is given for it, and grows to `Int`. -/
theorem grown_binding_evolves :
    let n := Ty.named ⟨"Main", "N"⟩ []
    let use := fun given : Ty =>
      Assignment.mk aliasContext 8 .toTarget (.param 0 true) given
    let bound := fun t : Ty =>
      { Inference.start [{ name := "T", variance := .invariant }] {} with
        slots := [some { type := t, leeway := .mayGrow }] }
    (bound n).Undergoes [use .unit] (bound n) ∧
      (use (Ty.core "Int")).outcome (bound n) = some (.ok (Ty.core "Int"), bound (Ty.core "Int")) ∧
      forall depth answer,
        fits aliasContext depth (Ty.core "Int") n = some answer -> answer = true := by
  intro n use bound
  have heval :
      (use .unit).outcome (bound n) = some (.error .mismatch, bound n) ∧
      (use (Ty.core "Int")).outcome (bound n) =
        some (.ok (Ty.core "Int"), bound (Ty.core "Int")) ∧
      n.isOver aliasContext.registry = true ∧
      (Ty.core "Int").isOver aliasContext.registry = true := by decide +kernel
  rcases heval with ⟨hunit, hlast, hn, hint⟩
  have hearlier : (bound n).Undergoes [use .unit] (bound n) := .snoc .nil hunit
  refine ⟨hearlier, hlast, ?_⟩
  have hover : (bound n).IsOver aliasContext.registry := by
    intro index s hs
    cases index with
    | zero =>
        cases hs
        exact hn
    | succ index => cases hs
  have hall : forall a, a ∈ [use .unit] ++ [use (Ty.core "Int")] ->
      a.IsOver aliasContext.registry := by
    intro a ha
    have hcases : a = use .unit ∨ a = use (Ty.core "Int") := by simpa using ha
    rcases hcases with rfl | rfl
    · exact ⟨rfl, rfl, rfl⟩
    · exact ⟨rfl, rfl, hint⟩
  rcases assignments_evolve_bindings hearlier hlast with ⟨_, _, _, hgrown⟩
  rcases hgrown _ aliasContext_declared aliasContext_applied hover hall 0 _ rfl with
    ⟨later, hlater, hfits, _⟩
  cases hlater
  exact hfits rfl

end TypeChecker
