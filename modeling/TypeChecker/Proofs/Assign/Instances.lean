import TypeChecker.Proofs.Assign.Preorder

/-!
# Instances of assignable types

What fits while its parameters are left in place fits at every instance, as long as a
box holds no parameter but its own. Opening then commutes with instantiation, and
every rule of assignment leads from instances to instances.
-/

namespace TypeChecker

/-!
## Opening an instance
-/

/-- The inner type of every box mentions only parameters of its declaration. -/
def Registry.Scoped (registry : Registry) : Prop :=
  forall name d boxed, Table.get? registry name = some d -> d.boxed? = some boxed ->
    boxed.inner.anyParam (fun index _ => decide (d.arity ≤ index)) = false

theorem Registry.scoped_of_all {registry : Registry}
    (h : registry.all (fun item => item.2.boxed?.all fun boxed =>
      !boxed.inner.anyParam fun index _ => decide (item.2.arity ≤ index)) = true) :
    registry.Scoped := by
  intro name d boxed hd hboxed
  have hentry := List.all_eq_true.mp h _ (Table.mem_of_get? hd)
  rw [hboxed] at hentry
  simpa using hentry

namespace Ty

theorem instantiate_instantiate {t : Ty} {args : List Ty}
    (h : t.anyParam (fun index _ => decide (args.length ≤ index)) = false) (later : List Ty) :
    (t.instantiate args).instantiate later =
      t.instantiate (args.map fun arg => arg.instantiate later) := by
  unfold instantiate
  rw [replace_replace]
  apply replace_congr (anyParam_eq_false.mp h)
  intro index inferring hindex
  have hlt : index < args.length := by simpa using hindex
  simp [hlt]

theorem instantiate_named (name : Symbol) (args later : List Ty) :
    (Ty.named name args).instantiate later =
      .named name (args.map fun arg => arg.instantiate later) := by
  unfold instantiate
  rw [replace, replaceList_eq]

theorem part_of_instance {t x : Ty} {args : List Ty} {k : Nat} (h : t.former.isParam = false)
    (hx : (t.instantiate args).parts[k]? = some x) :
    exists part, t.parts[k]? = some part ∧ part.instantiate args = x := by
  rw [instantiate, parts_replace h, List.getElem?_map] at hx
  exact Option.map_eq_some_iff.mp hx

theorem unbox_instantiate {module : String} {registry : Registry} (hlawful : registry.Lawful)
    (hscoped : registry.Scoped) {t inner : Ty} (happlied : t.former.isApplied registry = true)
    (h : t.unbox module registry = .inner inner) (later : List Ty) :
    (t.instantiate later).unbox module registry = .inner (inner.instantiate later) := by
  rcases unbox_inner h with ⟨name, args, d, boxed, rfl, hd, hboxed, hvisible, rfl⟩
  simp only [former, Former.isApplied, hd, beq_iff_eq] at happlied
  have hmapped : (args.map fun arg => arg.instantiate later).length = d.arity := by
    rw [List.length_map, happlied]
  have hown := hscoped name d boxed hd hboxed
  rw [<- happlied] at hown
  rw [instantiate_named, instantiateWith_full hlawful hd happlied, instantiate_instantiate hown]
  simp only [unbox, hd, hboxed, hvisible, Bool.false_eq_true, if_false,
    instantiateWith_full hlawful hd hmapped]

end Ty

/-!
## The order between instances
-/

section

variable {ctx : TypeContext}

/-- Types below each other have instances below each other, at no more opened boxes. -/
theorem Below.instantiate (hlawful : ctx.registry.Lawful)
    (happlied : ctx.registry.FullyApplied) (hscoped : ctx.registry.Scoped) {n : Nat} {a b : Ty}
    (ha : a.everywhere (Former.isApplied ctx.registry) = true)
    (hb : b.everywhere (Former.isApplied ctx.registry) = true) (h : Below ctx n a b)
    (args : List Ty) : Below ctx n (a.instantiate args) (b.instantiate args) := by
  induction h with
  | never n b => exact Below.never n _
  | any n a => exact Below.any n _
  | @parts n a b former _ _ fixed ihco ihcontra =>
      rcases Ty.everywhere_iff.mp ha with ⟨_, haParts⟩
      rcases Ty.everywhere_iff.mp hb with ⟨_, hbParts⟩
      cases hparam : b.former.isParam with
      | true =>
          rcases Ty.former_eq_param hparam with ⟨index, inferring, rfl⟩
          rw [Ty.eq_of_parts_nil former rfl]
          exact Below.refl n _
      | false =>
          have hparamA : a.former.isParam = false := former ▸ hparam
          have hformerA : (a.instantiate args).former = a.former := Ty.former_replace hparamA
          have hformerB : (b.instantiate args).former = b.former := Ty.former_replace hparam
          apply Direction.below_of_parts (by rw [hformerA, hformerB, former])
          intro k v y x hv hy hx
          rw [hformerB] at hv
          rcases Ty.part_of_instance hparamA hx with ⟨part, hpart, rfl⟩
          rcases Ty.part_of_instance hparam hy with ⟨whole, hwhole, rfl⟩
          have hpartApplied := haParts part (List.mem_of_getElem? hpart)
          have hwholeApplied := hbParts whole (List.mem_of_getElem? hwhole)
          cases v with
          | covariant => exact ihco k part whole hv hpart hwhole hpartApplied hwholeApplied
          | contravariant => exact ihcontra k part whole hv hpart hwhole hwholeApplied hpartApplied
          | invariant =>
              rw [fixed k _ part whole hv (by simp) (by simp) hpart hwhole]
              exact Direction.holdsWithin_self n _ _
          | bivariant =>
              rw [fixed k _ part whole hv (by simp) (by simp) hpart hwhole]
              exact Direction.holdsWithin_self n _ _
  | opened unboxes _ ih =>
      have hunbox := Ty.unbox_instantiate hlawful hscoped (Ty.everywhere_iff.mp ha).left unboxes
        args
      exact Below.opened hunbox (ih (Ty.everywhere_unbox happlied ha unboxes) hb)

theorem Ty.isOver_instantiate {registry : Registry} {t : Ty} {args : List Ty}
    (ht : t.isOver registry = true) (hargs : forall arg, arg ∈ args -> arg.isOver registry = true) :
    (t.instantiate args).isOver registry = true :=
  Ty.everywhere_instantiate ht hargs

/-- Over a registry declared without problems whose boxes hold no parameters but their
own, what fits with its parameters in place fits at every instance. -/
theorem instances_fit (hdeclared : ctx.registry.Declared) (happlied : ctx.registry.FullyApplied)
    (hscoped : ctx.registry.Scoped) (hbounds : ctx.bounds = {}) {a b : Ty}
    (ha : a.isOver ctx.registry = true) (hb : b.isOver ctx.registry = true) {args : List Ty}
    (hargs : forall arg, arg ∈ args -> arg.isOver ctx.registry = true) {depth : Nat}
    (h : fits ctx depth b a = some true) :
    forall depth answer, fits ctx depth (b.instantiate args) (a.instantiate args) = some answer ->
      answer = true := by
  have hlawful := hdeclared.lawful
  rcases Ty.isOver_iff.mp ha with ⟨haKnown, haApplied⟩
  rcases Ty.isOver_iff.mp hb with ⟨hbKnown, hbApplied⟩
  rcases fits_eq_true.mp h with ⟨_, _, hrun⟩
  rcases assign_holds hbounds hlawful.known hbKnown haKnown hrun with ⟨n, hbelow⟩
  have hinstance : Below ctx n (a.instantiate args) (b.instantiate args) :=
    Below.instantiate hlawful happlied hscoped haApplied hbApplied hbelow args
  exact hinstance.answer_eq_true hlawful (Ty.isOver_instantiate ha hargs)
    (Ty.isOver_instantiate hb hargs)

end

/-- A function that takes less and gives more, at the types `Num` and `Box[Num]`. -/
theorem boxed_function_fits_at_instance :
    let num := Ty.named ⟨"Main", "Num"⟩ []
    let box := fun t => Ty.named ⟨"Main", "Box"⟩ [t]
    fits boxContext 8 (.func (box (.param 0 false)) (.param 1 false))
        (.func (.param 0 false) (box (.param 1 false))) = some true ∧
    forall depth answer,
      fits boxContext depth (.func (box num) (box num)) (.func num (box (box num))) =
        some answer -> answer = true := by
  intro num box
  have hfits : fits boxContext 8 (.func (box (.param 0 false)) (.param 1 false))
      (.func (.param 0 false) (box (.param 1 false))) = some true := by decide +kernel
  have hargs : forall arg, arg ∈ [num, box num] -> arg.isOver boxContext.registry = true := by
    decide +kernel
  have hscoped : boxContext.registry.Scoped := Registry.scoped_of_all (by decide +kernel)
  exact ⟨hfits, instances_fit boxContext_declared boxContext_applied hscoped rfl
    (by decide +kernel) (by decide +kernel) hargs hfits⟩

def leakyModules : List Source.Module :=
  [{ name := "Main"
     types := [
      .native { name := { name := "Num" } },
      .native
        { name := { name := "Pair" }
          params := [{ name := { name := "T" } },
            { name := { name := "U" }, default := some { value := .ref { name := "U" } [] } }] },
      .boxed { name := { name := "Half" }, params := [{ name := { name := "A" } }] }
        { inner := some
            { value := .ref { name := "Pair" } [{ value := .ref { name := "A" } [] }] } }] }]

def leakyContext : TypeContext :=
  { module := "Main"
    registry := ((Registration.ofModules {} 8 leakyModules).getD {}).registry }

/-- `Half[Num]` opens to `Pair[Num, U]`, where `U` is no parameter of `Half`: it fits as
long as the second parameter in scope is left in place, and not at an instance. -/
theorem leaked_default_breaks_instance :
    let num := Ty.named ⟨"Main", "Num"⟩ []
    let pair := Ty.named ⟨"Main", "Pair"⟩ [num, .param 1 false]
    let half := Ty.named ⟨"Main", "Half"⟩ [num]
    leakyContext.registry.Declared ∧ leakyContext.registry.FullyApplied ∧
      pair.isOver leakyContext.registry = true ∧ half.isOver leakyContext.registry = true ∧
      fits leakyContext 8 pair half = some true ∧
      fits leakyContext 8 (pair.instantiate [num, num]) (half.instantiate [num, num]) =
        some false := by
  refine ⟨?_, Registry.stores_of_all (by decide +kernel), by decide +kernel⟩
  dsimp only [leakyContext]
  exact Registry.declared_of_clean (by decide +kernel)

end TypeChecker
