import TypeChecker.Proofs.Assign.Preorder

/-!
# The assigned type lies between the two sides

An accepted assignment gives a type put together from both sides: a part of the target
where the given type is `never`, a part of the given type where it matches, `any` where
the target takes everything, and the contents of opened boxes. Whichever rule gave a
part, the result stands between the target and the given type in the same direction.
-/

namespace TypeChecker

open Assign

section

variable {ctx : TypeContext} {d : Direction} {target given t : Ty}

/-- `t` stands between a target and a given type, and is known to the registry. -/
structure Direction.Between (ctx : TypeContext) (d : Direction) (target t given : Ty) : Prop where
  lower : d.Holds ctx target t
  upper : d.Holds ctx t given
  known : t.everywhere (Former.isKnown ctx.registry) = true

namespace Direction.Between

theorem target_itself (h : d.Holds ctx target given)
    (htarget : target.everywhere (Former.isKnown ctx.registry) = true) :
    d.Between ctx target target given :=
  ⟨holds_self d target, h, htarget⟩

theorem given_itself (h : d.Holds ctx target given)
    (hgiven : given.everywhere (Former.isKnown ctx.registry) = true) :
    d.Between ctx target given given :=
  ⟨h, holds_self d given, hgiven⟩

theorem of_parts {results : List Ty} (hformer : target.former = given.former)
    (hhere : target.former.isKnown ctx.registry = true)
    (hlen : results.length = target.parts.length)
    (hparts : forall (k : Nat) v x r y, (target.former.positions ctx.registry)[k]? = some v ->
      target.parts[k]? = some x -> results[k]? = some r -> given.parts[k]? = some y ->
        (d.within v).Between ctx x r y) :
    d.Between ctx target (target.former.build results) given := by
  have hresult : (target.former.build results).former = target.former :=
    Former.former_build hlen
  have hresults : (target.former.build results).parts = results := Former.parts_build hlen
  have hat : forall k, k < results.length -> exists v x y,
      (target.former.positions ctx.registry)[k]? = some v ∧ target.parts[k]? = some x ∧
        given.parts[k]? = some y := by
    intro k hk
    have hkt : k < target.parts.length := hlen ▸ hk
    have hkv : k < (target.former.positions ctx.registry).length := by
      rw [Ty.length_positions]
      exact hkt
    have hkg : k < given.parts.length := Ty.parts_length_eq hformer ▸ hkt
    exact ⟨_, _, _, List.getElem?_eq_getElem hkv, List.getElem?_eq_getElem hkt,
      List.getElem?_eq_getElem hkg⟩
  constructor
  · apply holds_of_parts hresult.symm
    intro k v x r hv hx hr
    rw [hresults] at hr
    rcases hat k (List.getElem?_eq_some_iff.mp hr).choose with ⟨_, _, y, _, _, hy⟩
    exact (hparts k v x r y hv hx hr hy).lower
  · apply holds_of_parts (hresult.trans hformer)
    intro k v r y hv hr hy
    rw [hresult] at hv
    rw [hresults] at hr
    rcases hat k (List.getElem?_eq_some_iff.mp hr).choose with ⟨_, x, _, _, hx, _⟩
    exact (hparts k v x r y hv hx hr hy).upper
  · rw [Ty.everywhere_iff, hresult, hresults]
    refine ⟨hhere, ?_⟩
    intro r hr
    rcases List.mem_iff_getElem?.mp hr with ⟨k, hk⟩
    rcases hat k (List.getElem?_eq_some_iff.mp hk).choose with ⟨v, x, y, hv, hx, hy⟩
    exact (hparts k v x r y hv hx hk hy).known

end Direction.Between

/-- The type that an accepted assignment gives stands between its two sides. -/
theorem Derives.between (hstores : ctx.registry.Stores (Former.isKnown ctx.registry))
    (htarget : target.everywhere (Former.isKnown ctx.registry) = true)
    (hgiven : given.everywhere (Former.isKnown ctx.registry) = true)
    (h : Derives ctx d target given t) : d.Between ctx target t given := by
  induction h with
  | param => exact Direction.Between.given_itself (Direction.holds_self _ _) hgiven
  | parts _ former known length _ ih =>
      apply Direction.Between.of_parts former known length
      intro k v x r y hv hx hr hy
      exact ih k v x y r hv hx hy hr
        ((Ty.everywhere_iff.mp htarget).right x (List.mem_of_getElem? hx))
        ((Ty.everywhere_iff.mp hgiven).right y (List.mem_of_getElem? hy))
  | never =>
      refine Direction.Between.target_itself ?_ htarget
      exact ⟨0, Below.never 0 _⟩
  | any =>
      refine Direction.Between.target_itself ?_ htarget
      exact ⟨0, Below.any 0 _⟩
  | opened unboxes _ ih =>
      have hinner := ih htarget (Ty.everywhere_unbox hstores hgiven unboxes)
      rcases hinner.upper with ⟨n, hn⟩
      exact ⟨hinner.lower, ⟨n + 1, Below.opened unboxes hn⟩, hinner.known⟩
  | fromNever =>
      refine Direction.Between.given_itself ?_ hgiven
      exact ⟨0, Below.never 0 _⟩
  | fromAny =>
      refine Direction.Between.given_itself ?_ hgiven
      exact ⟨0, Below.any 0 _⟩
  | fromOpened unboxes _ ih =>
      have hinner := ih (Ty.everywhere_unbox hstores htarget unboxes) hgiven
      rcases hinner.lower with ⟨n, hn⟩
      exact ⟨⟨n + 1, Below.opened unboxes hn⟩, hinner.upper, hinner.known⟩

/-- Over a registry declared without problems, the type that an assignment gives lies
between its two sides: the target takes it and it takes the given type in the same
direction, whenever this is decided. An exact match gives the given type. -/
theorem assigned_type_between (hdeclared : ctx.registry.Declared) (hbounds : ctx.bounds = {})
    (htarget : target.isOver ctx.registry = true) (hgiven : given.isOver ctx.registry = true)
    {depth : Nat} {j : Inference}
    (h : (assign ctx depth d target given).outcome .disabled = some (.ok t, j)) :
    (forall m result k, (assign ctx m d target t).outcome .disabled = some (result, k) ->
      result.isOk = true) ∧
    (forall m result k, (assign ctx m d t given).outcome .disabled = some (result, k) ->
      result.isOk = true) ∧
    (d = .exact -> t = given) := by
  have hstores := hdeclared.lawful.known
  have htargetKnown := (Ty.isOver_iff.mp htarget).left
  have hgivenKnown := (Ty.isOver_iff.mp hgiven).left
  have hderives := assign_derives hbounds hstores.plain (Ty.plain_of_known htargetKnown)
    (Ty.plain_of_known hgivenKnown) h
  have hbetween := hderives.between hstores htargetKnown hgivenKnown
  have hlower := hbetween.lower.admits hstores htargetKnown hbetween.known
  have hupper := hbetween.upper.admits hstores hbetween.known hgivenKnown
  refine ⟨fun m result k hrun => hlower.isOk hrun, fun m result k hrun => hupper.isOk hrun, ?_⟩
  rintro rfl
  rcases hbetween.upper with ⟨_, hsame⟩
  exact hsame

end

/-- A function from `Num` to a doubly boxed `never` goes where a function from `Box[Num]`
to `Num` is asked for. The type assigned is neither of the two. -/
theorem assigned_function_between :
    let num := Ty.named ⟨"Main", "Num"⟩ []
    let box := fun t => Ty.named ⟨"Main", "Box"⟩ [t]
    let expected := Ty.func (box num) num
    let given := Ty.func num (box (box .never))
    let assigned := Ty.func num num
    (assign boxContext 8 .toTarget expected given).outcome .disabled =
        some (.ok assigned, .disabled) ∧
      (forall m result k, (assign boxContext m .toTarget expected assigned).outcome .disabled =
        some (result, k) -> result.isOk = true) ∧
      (forall m result k, (assign boxContext m .toTarget assigned given).outcome .disabled =
        some (result, k) -> result.isOk = true) := by
  intro num box expected given assigned
  have hrun : (assign boxContext 8 .toTarget expected given).outcome .disabled =
      some (.ok assigned, .disabled) := by rfl
  have hbetween := assigned_type_between boxContext_declared rfl (by decide +kernel)
    (by decide +kernel) hrun
  exact ⟨hrun, hbetween.left, hbetween.right.left⟩

end TypeChecker
