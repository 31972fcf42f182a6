import TypeChecker.Proofs.Assign.Preorder
import TypeChecker.Proofs.Slots

/-!
# How bindings change

A binding may grow, shrink, or neither, and keeps this leeway for good. So a run leaves
every binding it finds where its leeway allows, and what held of a binding in the
direction of its leeway goes on to hold.
-/

namespace TypeChecker

deriving instance DecidableEq for Bounds, Inference

variable {ctx : TypeContext}

/-!
## Leeway and direction
-/

def Leeway.direction : Leeway -> Direction
  | .mayGrow => .toTarget
  | .mayShrink => .fromTarget
  | .fixed => .exact

@[simp] theorem Direction.direction_leeway (d : Direction) : d.leeway.direction = d := by
  cases d <;> rfl

theorem Direction.leeway_of_adjusts {d : Direction} {leeway : Leeway}
    (h : d.adjusts leeway = true) : leeway = d.leeway := by
  cases d <;> cases leeway <;> simp_all [adjusts, Direction.leeway]

theorem Direction.Holds.trans (hlawful : ctx.registry.Lawful)
    (happlied : ctx.registry.FullyApplied) {d : Direction} {a b c : Ty}
    (hb : b.everywhere (Former.isApplied ctx.registry) = true) (hab : d.Holds ctx a b)
    (hbc : d.Holds ctx b c) : d.Holds ctx a c := by
  rcases hab with ⟨m, hab⟩
  rcases hbc with ⟨n, hbc⟩
  cases d with
  | toTarget => exact Below.trans hlawful happlied hb hbc hab
  | fromTarget => exact Below.trans hlawful happlied hb hab hbc
  | exact => exact ⟨0, hab.trans hbc⟩

/-!
## Evolution
-/

namespace Inference

def IsOver (registry : Registry) (i : Inference) : Prop :=
  forall k s, i.slot? k = some s -> s.type.isOver registry = true

/-- The bindings of `j` came about from those of `i`: every one is still there with its
leeway, and has changed only as that allows. -/
structure Evolves (ctx : TypeContext) (i j : Inference) : Prop where
  enabled : j.enabled = i.enabled
  arity : j.slots.length = i.slots.length
  slot : forall k s, i.slot? k = some s -> exists later, j.slot? k = some later ∧
    later.leeway = s.leeway ∧ s.leeway.direction.Holds ctx later.type s.type

theorem Evolves.refl (i : Inference) : i.Evolves ctx i where
  enabled := rfl
  arity := rfl
  slot := fun _ s hs => ⟨s, hs, rfl, Direction.holds_self _ _⟩

theorem Evolves.trans (hlawful : ctx.registry.Lawful) (happlied : ctx.registry.FullyApplied)
    {i j k : Inference} (hj : j.IsOver ctx.registry) (hij : i.Evolves ctx j)
    (hjk : j.Evolves ctx k) : i.Evolves ctx k where
  enabled := hjk.enabled.trans hij.enabled
  arity := hjk.arity.trans hij.arity
  slot := by
    intro index s hs
    rcases hij.slot index s hs with ⟨middle, hmiddle, hleeway, hfirst⟩
    rcases hjk.slot index middle hmiddle with ⟨last, hlast, hleeway', hsecond⟩
    rw [hleeway] at hleeway' hsecond
    have happliedMiddle := (Ty.isOver_iff.mp (hj index middle hmiddle)).right
    exact ⟨last, hlast, hleeway', hsecond.trans hlawful happlied happliedMiddle hfirst⟩

variable {i : Inference} {index : Nat}

theorem evolves_bind (hindex : index < i.slots.length) {new : Slot}
    (h : forall s, i.slot? index = some s -> new.leeway = s.leeway ∧
      s.leeway.direction.Holds ctx new.type s.type) : i.Evolves ctx (i.bind index new) where
  enabled := rfl
  arity := List.length_set
  slot := by
    intro k s hs
    rw [slot?_bind i hindex]
    by_cases hk : index = k
    · subst hk
      rcases h s hs with ⟨hleeway, hholds⟩
      exact ⟨new, if_pos rfl, hleeway, hholds⟩
    · rw [if_neg hk]
      exact ⟨s, hs, rfl, Direction.holds_self _ _⟩

theorem isOver_bind {registry : Registry} (hindex : index < i.slots.length)
    (hi : i.IsOver registry) {new : Slot} (hnew : new.type.isOver registry = true) :
    (i.bind index new).IsOver registry := by
  intro k s hs
  rw [slot?_bind i hindex] at hs
  split at hs
  · cases hs
    exact hnew
  · exact hi k s hs

theorem slots_of_bindings {types : List Ty} (h : i.bindings? = some types) :
    i.slots.map (Option.map Slot.type) = types.map some := by
  have hslots : forall (slots : List (Option Slot)) (types : List Ty),
      slots.mapM (Option.map Slot.type) = some types ->
        slots.map (Option.map Slot.type) = types.map some := by
    intro slots
    induction slots with
    | nil =>
        intro types h
        cases h
        rfl
    | cons slot rest ih =>
        intro types h
        rw [List.mapM_cons] at h
        rcases Option.bind_eq_some_iff.mp h with ⟨first, hfirst, h⟩
        rcases Option.bind_eq_some_iff.mp h with ⟨others, hothers, h⟩
        cases h
        rw [List.map_cons, List.map_cons, ih others hothers, hfirst]
  exact hslots i.slots types h

theorem length_bindings {types : List Ty} (h : i.bindings? = some types) :
    types.length = i.arity := by
  simpa [arity] using (congrArg List.length (slots_of_bindings h)).symm

/-!
## Substitution
-/

theorem substitute_param {index : Nat} {s : Slot} (h : i.slot? index = some s) :
    i.substitute (.param index true) = s.type := by
  simp [substitute, Ty.replace, h]

theorem substitute_named (name : Symbol) (args : List Ty) :
    i.substitute (.named name args) = .named name (args.map i.substitute) := by
  unfold substitute
  rw [Ty.replace, Ty.replaceList_eq]

theorem substitute_instantiate {t : Ty} (ht : t.hasInferring = false) (args : List Ty) :
    i.substitute (t.instantiate args) = t.instantiate (args.map i.substitute) := by
  unfold substitute Ty.instantiate
  rw [Ty.replace_replace]
  apply Ty.replace_congr (Ty.anyParam_eq_false.mp ht)
  intro index inferring hplain
  cases inferring with
  | true => cases hplain
  | false =>
      rw [List.getElem?_map]
      cases harg : args[index]? with
      | none => simp [Ty.replace]
      | some arg => simp

theorem substitute_instantiateWith {t : Ty} (ht : t.hasInferring = false) {defaults : TypeMap}
    (hdefaults : forall k s, Table.get? defaults k = some s -> s.hasInferring = false)
    (args : List Ty) :
    i.substitute (t.instantiateWith defaults args) =
      t.instantiateWith defaults (args.map i.substitute) := by
  unfold Ty.instantiateWith
  rw [substitute, Ty.replace_replace]
  apply Ty.replace_congr (Ty.anyParam_eq_false.mp ht)
  intro index inferring hplain
  cases inferring with
  | true => cases hplain
  | false =>
      rw [List.getElem?_map]
      cases harg : args[index]? with
      | some arg => simp [substitute]
      | none =>
          cases hdefault : Table.get? defaults index with
          | none => simp [Ty.replace]
          | some default =>
              have hsame := substitute_instantiate (i := i) (hdefaults index default hdefault) args
              simpa [substitute] using hsame

theorem unbox_substitute (hlawful : ctx.registry.Lawful) {t inner : Ty}
    (happlied : t.former.isApplied ctx.registry = true)
    (h : t.unbox ctx.module ctx.registry = .inner inner) :
    (i.substitute t).unbox ctx.module ctx.registry = .inner (i.substitute inner) := by
  rcases Ty.unbox_inner h with ⟨name, args, d, boxed, rfl, hd, hboxed, hvisible, rfl⟩
  simp only [Ty.former, Former.isApplied, hd, beq_iff_eq] at happlied
  have hknown := hlawful.known name d hd _ (Declaration.mem_types_of_boxed hboxed)
  have hmapped : (args.map i.substitute).length = d.arity := by
    rw [List.length_map, happlied]
  rw [substitute_named, Ty.instantiateWith_full hlawful hd happlied,
    substitute_instantiate (Ty.hasInferring_eq_false hknown)]
  simp only [Ty.unbox, hd, hboxed, hvisible, Bool.false_eq_true, if_false,
    Ty.instantiateWith_full hlawful hd hmapped]

end Inference

open Assign

/-- A binding gives way to what it was assigned the other way round, and no other
binding has changed by then. -/
theorem adjusted_evolves (hbounds : ctx.bounds = {}) (hlawful : ctx.registry.Lawful)
    {i k j : Inference} {d : Direction} {depth index : Nat} {slot : Slot} {given t : Ty}
    {e : Mismatch} (hi : i.IsOver ctx.registry) (hgiven : given.isOver ctx.registry = true)
    (hslot : i.slot? index = some slot)
    (hrefused : (assignDirectly ctx depth d slot.type given).outcome i = some (.error e, k))
    (hadjusts : d.adjusts slot.leeway = true)
    (hassign : (assign ctx depth d.inverse slot.type given).outcome k = some (.ok t, j)) :
    j = i ∧ j.Evolves ctx (j.bind index { slot with type := given }) := by
  have hplain := TypeContext.plain_of_lawful hlawful hbounds
  have hknown := (Ty.isOver_iff.mp (hi index slot hslot)).left
  have hclosed := Ty.hasInferring_eq_false hknown
  have hsame := (assignDirectly_keeps (Or.inr hplain) (Or.inr hclosed)).eq hrefused
  subst hsame
  have hsame := (assign_keeps (Or.inr hplain) (Or.inr hclosed)).eq hassign
  subst hsame
  refine ⟨rfl, Inference.evolves_bind (Inference.lt_length_of_slot? hslot) ?_⟩
  intro old hold
  cases hslot.symm.trans hold
  refine ⟨rfl, ?_⟩
  rw [Direction.leeway_of_adjusts hadjusts, Direction.direction_leeway]
  rcases assign_holds hbounds hlawful.known hknown (Ty.isOver_iff.mp hgiven).left hassign with
    ⟨m, hm⟩
  exact ⟨m, hm.inverse⟩

end TypeChecker
