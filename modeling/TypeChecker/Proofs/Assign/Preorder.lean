import TypeChecker.Proofs.Assign.Variance
import TypeChecker.Proofs.Registry.Defaults
import TypeChecker.Proofs.Registry.Registered

/-!
# Assignability is a preorder

Every type is assigned to itself and stays what it is. What is assignable to a type
that is itself assignable to a third is not refused there.

To chain two steps, the smaller type may have to be opened after a match by name.
Variance then relates the inner types, at no more opened boxes than the arguments
needed, so that the number of boxes left to open goes down.
-/

namespace TypeChecker

open Assign

variable {ctx : TypeContext}

/-!
## Chaining
-/

/-- Opening two types of one name that are below each other part by part gives types
below each other, at no more opened boxes. -/
theorem Below.unbox (hlawful : ctx.registry.Lawful) (happlied : ctx.registry.FullyApplied)
    {n : Nat} {a b inner : Ty} (hb : b.former.isApplied ctx.registry = true)
    (hformer : a.former = b.former)
    (hparts : forall (k : Nat) v x y, (b.former.positions ctx.registry)[k]? = some v ->
      a.parts[k]? = some x -> b.parts[k]? = some y ->
        (Direction.ofVariance v).HoldsWithin ctx n y x)
    (hunbox : b.unbox ctx.module ctx.registry = .inner inner) :
    exists inner', a.unbox ctx.module ctx.registry = .inner inner' ∧
      Below ctx n inner' inner := by
  rcases Ty.unbox_inner hunbox with ⟨name, bs, d, boxed, rfl, hd, hboxed, hvisible, rfl⟩
  cases a with
  | named name' as =>
      simp only [Ty.former, Former.named.injEq] at hformer
      rcases hformer with ⟨rfl, hlen⟩
      simp only [Ty.former, Former.isApplied, hd, beq_iff_eq] at hb
      refine ⟨boxed.inner.instantiateWith d.defaults as, ?_, ?_⟩
      · simp only [Ty.unbox, hd, hboxed, hvisible, Bool.false_eq_true, if_false]
      · rw [Ty.instantiateWith_full hlawful hd (hlen.trans hb),
          Ty.instantiateWith_full hlawful hd hb]
        have hinner := happlied _ d hd _ (Declaration.mem_types_of_boxed hboxed)
        have hargs : forall (index : Nat) x y, as[index]? = some x -> bs[index]? = some y ->
            (Variance.covariant.within ((Variance.usage ctx.registry d.arity boxed.inner).getD
              index .bivariant)).Relates ctx n x y := by
          intro index x y hx hy
          rcases Variance.position_of_arg hd hb hy with ⟨p, hp, hposition⟩
          have hholds := hparts index _ x y hposition hx hy
          have hallows := hlawful.respected name' d boxed hd hboxed index p hp
          have hsame : forall v : Variance, Variance.covariant.within v = v := by
            intro v
            cases v <;> rfl
          rw [hsame]
          exact Variance.Relates.implied (Variance.allows_implies hallows) (Or.inr hholds)
        rcases Variance.relates_instantiate hlawful.signed hinner (hlen.trans hb) hb
          (by simp) hargs with h | h
        · cases h
        · exact h
  | _ => cases hformer

theorem Below.holdsWithin_parts {n : Nat} {a b : Ty}
    (covariant : forall (k : Nat) x y,
      (b.former.positions ctx.registry)[k]? = some .covariant ->
      a.parts[k]? = some x -> b.parts[k]? = some y -> Below ctx n x y)
    (contravariant : forall (k : Nat) x y,
      (b.former.positions ctx.registry)[k]? = some .contravariant ->
      a.parts[k]? = some x -> b.parts[k]? = some y -> Below ctx n y x)
    (fixed : forall (k : Nat) v x y, (b.former.positions ctx.registry)[k]? = some v ->
      v ≠ .covariant -> v ≠ .contravariant ->
      a.parts[k]? = some x -> b.parts[k]? = some y -> x = y)
    (k : Nat) (v : Variance) (x y : Ty) (hv : (b.former.positions ctx.registry)[k]? = some v)
    (hx : a.parts[k]? = some x) (hy : b.parts[k]? = some y) :
    (Direction.ofVariance v).HoldsWithin ctx n y x := by
  cases v with
  | covariant => exact covariant k x y hv hx hy
  | contravariant => exact contravariant k x y hv hx hy
  | invariant => exact (fixed k _ x y hv (by simp) (by simp) hx hy).symm
  | bivariant => exact (fixed k _ x y hv (by simp) (by simp) hx hy).symm

/-- Two steps make one. Matching parts goes on inside the middle type; every other rule
leaves fewer boxes to open. -/
theorem Below.trans (hlawful : ctx.registry.Lawful) (happlied : ctx.registry.FullyApplied)
    {m n : Nat} {a b c : Ty} (hb : b.everywhere (Former.isApplied ctx.registry) = true)
    (hab : Below ctx m a b) (hbc : Below ctx n b c) : exists k, Below ctx k a c := by
  -- Opening a box takes one off the total and may lead to a larger type in the middle;
  -- matching parts keeps the total and leads to a smaller one. A contravariant part swaps
  -- the two premises, which the total does not notice.
  induction htotal : m + n using Nat.strongRecOn generalizing m n a b c with
  | ind total outer =>
      subst htotal
      induction b using Ty.induction_parts generalizing m n a c with
      | step b inner =>
          rcases Ty.everywhere_iff.mp hb with ⟨hbHere, hbParts⟩
          cases hab with
          | never => exact ⟨0, Below.never 0 c⟩
          | any =>
              cases hbc with
              | any => exact ⟨0, Below.any 0 a⟩
              | parts former =>
                  rw [Ty.eq_of_parts_nil former.symm rfl]
                  exact ⟨0, Below.any 0 a⟩
              | opened unboxes => cases unboxes
          | @opened m a ia _ unboxes rest =>
              rcases outer (m + n) (by omega) hb rest hbc rfl with ⟨k, hk⟩
              exact ⟨k + 1, Below.opened unboxes hk⟩
          | parts former covariant contravariant fixed =>
              have habParts := Below.holdsWithin_parts covariant contravariant fixed
              cases hbc with
              | never =>
                  rw [Ty.eq_of_parts_nil former rfl]
                  exact ⟨0, Below.never 0 c⟩
              | any => exact ⟨0, Below.any 0 a⟩
              | @opened n _ ib _ unboxes rest =>
                  rcases Below.unbox hlawful happlied hbHere former habParts unboxes with
                    ⟨ia, hia, hinner⟩
                  have hib := Ty.everywhere_unbox happlied hb unboxes
                  rcases outer (m + n) (by omega) hib hinner rest rfl with ⟨k, hk⟩
                  exact ⟨k + 1, Below.opened hia hk⟩
              | parts former' covariant' contravariant' fixed' =>
                  have hbcParts := Below.holdsWithin_parts covariant' contravariant' fixed'
                  have hparts : forall (k : Nat) v z x,
                      (c.former.positions ctx.registry)[k]? = some v ->
                      c.parts[k]? = some z -> a.parts[k]? = some x ->
                        (Direction.toTarget.within v).Holds ctx z x := by
                    intro k v z x hv hz hx
                    have hvb : (b.former.positions ctx.registry)[k]? = some v := former' ▸ hv
                    have hk : k < b.parts.length := by
                      rw [Ty.parts_length_eq former']
                      exact (List.getElem?_eq_some_iff.mp hz).choose
                    have hy := List.getElem?_eq_getElem hk
                    have hmem := List.mem_of_getElem? hy
                    have hxy := habParts k v x _ hvb hx hy
                    have hyz := hbcParts k v _ z hv hy hz
                    cases v with
                    | covariant => exact inner _ hmem (hbParts _ hmem) hxy hyz outer
                    | contravariant =>
                        rw [Nat.add_comm] at outer
                        exact inner _ hmem (hbParts _ hmem) hyz hxy outer
                    | invariant => exact ⟨0, hyz.trans hxy⟩
                    | bivariant => exact ⟨0, hyz.trans hxy⟩
                  exact Direction.holds_of_parts (former.trans former').symm hparts

/-!
## Every type fits itself
-/

theorem Assign.parts_self {recurse : Assigner} {d : Direction}
    {i : Inference} {vs : List Variance} {ts : List Ty} (hlen : vs.length = ts.length)
    (h : forall t, t ∈ ts -> forall d', (recurse d' t t).outcome i = some (.ok t, i)) :
    (Assign.parts recurse d vs ts ts).outcome i = some (.ok ts, i) := by
  induction ts generalizing vs with
  | nil =>
      cases vs with
      | nil => rfl
      | cons v vs => cases hlen
  | cons t ts ih =>
      cases vs with
      | nil => cases hlen
      | cons v vs =>
          have hrest := ih (Nat.succ.inj hlen) fun s hs => h s (List.mem_cons_of_mem t hs)
          simp only [Assign.parts, Inferring.outcome_bind, h t List.mem_cons_self, hrest,
            Inferring.outcome_pure]

theorem assign_self (hbounds : ctx.bounds = {}) (t : Ty)
    (ht : t.everywhere (Former.isKnown ctx.registry) = true) :
    exists enough, forall depth, enough ≤ depth -> forall d i,
      (assign ctx depth d t t).outcome i = some (.ok t, i) := by
  induction t using Ty.induction_parts with
  | step t ih =>
      rcases Ty.everywhere_iff.mp ht with ⟨hhere, hparts⟩
      let runs := fun (k enough : Nat) => forall s, t.parts[k]? = some s ->
        forall depth, enough ≤ depth -> forall d i,
          (assign ctx depth d s s).outcome i = some (.ok s, i)
      have hmono : forall k n m, n ≤ m -> runs k n -> runs k m :=
        fun k n m hle h s hs depth hdepth => h s hs depth (Nat.le_trans hle hdepth)
      have hsome : forall k, k < t.parts.length -> exists n, runs k n := by
        intro k hk
        have hget := List.getElem?_eq_getElem hk
        have hmem := List.mem_of_getElem? hget
        rcases ih _ hmem (hparts _ hmem) with ⟨enough, h⟩
        refine ⟨enough, ?_⟩
        intro s hs
        cases hget.symm.trans hs
        exact h
      rcases exists_common_bound hmono t.parts.length hsome with ⟨enough, hall⟩
      refine ⟨enough + 2, ?_⟩
      intro depth hdepth d i
      obtain ⟨depth, rfl⟩ : exists k, depth = k + 2 := ⟨depth - 2, by omega⟩
      have hdirect : (assignDirectly ctx (depth + 1) d t t).outcome i = some (.ok t, i) := by
        rw [assignDirectly_unbounded hbounds]
        cases hparam : t.former.isParam with
        | true =>
            rcases Ty.former_eq_param hparam with ⟨index, inferring, rfl⟩
            cases inferring with
            | true => cases hhere
            | false =>
                rw [Assign.target, fixedParam_outcome hbounds, if_pos (Or.inr rfl)]
        | false =>
            have hrun : (Assign.parts (assign ctx depth) d (t.former.positions ctx.registry)
                t.parts t.parts).outcome i = some (.ok t.parts, i) := by
              apply Assign.parts_self (Ty.length_positions ctx.registry t)
              intro s hs d'
              rcases List.mem_iff_getElem?.mp hs with ⟨k, hk⟩
              exact hall k (List.getElem?_eq_some_iff.mp hk).choose s hk depth (by omega) d' i
            rw [target_of_not_param hparam, structural_eq_parts hparam rfl hhere,
              Inferring.outcome_map, hrun]
            have hsame : t.former.build t.parts = t :=
              Ty.eq_of_former_eq (Former.former_build rfl) (Former.parts_build rfl)
            simp only [hsame]
      rw [assign_outcome, hdirect]

/-!
## Over a declared registry
-/

theorem fits_eq_true {depth : Nat} {expected given : Ty} :
    fits ctx depth expected given = some true ↔
      exists t i, (assign ctx depth .toTarget expected given).outcome .disabled =
        some (.ok t, i) := by
  rw [fits, Option.map_eq_some_iff]
  constructor
  · rintro ⟨⟨result, i⟩, hrun, hok⟩
    cases result with
    | ok t => exact ⟨t, i, hrun⟩
    | error e => cases hok
  · rintro ⟨t, i, hrun⟩
    exact ⟨_, hrun, rfl⟩

theorem Below.answer_eq_true (hlawful : ctx.registry.Lawful) {n : Nat} {a b : Ty}
    (ha : a.isOver ctx.registry = true) (hb : b.isOver ctx.registry = true)
    (h : Below ctx n a b) :
    forall depth answer, fits ctx depth b a = some answer -> answer = true := by
  have haKnown := (Ty.isOver_iff.mp ha).left
  have hbKnown := (Ty.isOver_iff.mp hb).left
  intro depth answer hanswer
  exact (Below.admits hlawful.known haKnown hbKnown h).left.answer_eq hanswer

theorem fits_trans (hbounds : ctx.bounds = {}) (hlawful : ctx.registry.Lawful)
    (happlied : ctx.registry.FullyApplied) {a b c : Ty} (ha : a.isOver ctx.registry = true)
    (hb : b.isOver ctx.registry = true) (hc : c.isOver ctx.registry = true) {m n : Nat}
    (hab : fits ctx m b a = some true) (hbc : fits ctx n c b = some true) :
    Admits ctx .toTarget c a := by
  rcases Ty.isOver_iff.mp ha with ⟨haKnown, _⟩
  rcases Ty.isOver_iff.mp hb with ⟨hbKnown, hbApplied⟩
  rcases Ty.isOver_iff.mp hc with ⟨hcKnown, _⟩
  rcases fits_eq_true.mp hab with ⟨_, _, hrunAB⟩
  rcases fits_eq_true.mp hbc with ⟨_, _, hrunBC⟩
  rcases assign_holds hbounds hlawful.known hbKnown haKnown hrunAB with ⟨_, hbelowAB⟩
  rcases assign_holds hbounds hlawful.known hcKnown hbKnown hrunBC with ⟨_, hbelowBC⟩
  rcases Below.trans hlawful happlied hbApplied hbelowAB hbelowBC with ⟨k, hbelow⟩
  exact (Below.admits hlawful.known haKnown hcKnown hbelow).left

/-- Over a registry declared without problems, assignability is a preorder: every type
is assigned to itself and stays as it is, in each direction, and two accepted
assignments in a row make one that is accepted whenever it is decided. -/
theorem assignability_preorder (hdeclared : ctx.registry.Declared)
    (happlied : ctx.registry.FullyApplied) (hbounds : ctx.bounds = {}) :
    (forall a : Ty, a.isOver ctx.registry = true ->
      exists enough, forall depth, enough ≤ depth -> fits ctx depth a a = some true ∧
        forall d, (assign ctx depth d a a).outcome .disabled = some (.ok a, .disabled)) ∧
    forall a b c : Ty, a.isOver ctx.registry = true -> b.isOver ctx.registry = true ->
      c.isOver ctx.registry = true -> forall m n : Nat,
      fits ctx m b a = some true -> fits ctx n c b = some true ->
        forall depth answer, fits ctx depth c a = some answer -> answer = true := by
  constructor
  · intro a ha
    rcases assign_self hbounds a (Ty.isOver_iff.mp ha).left with ⟨enough, hself⟩
    refine ⟨enough, ?_⟩
    intro depth hdepth
    exact ⟨fits_eq_true.mpr ⟨a, _, hself depth hdepth .toTarget .disabled⟩,
      fun d => hself depth hdepth d .disabled⟩
  · intro a b c ha hb hc m n hab hbc depth answer hanswer
    have hadmits := fits_trans hbounds hdeclared.lawful happlied ha hb hc hab hbc
    exact hadmits.answer_eq hanswer

def boxModules : List Source.Module :=
  [{ name := "Main"
     types := [
      .native { name := { name := "Num" } },
      .boxed { name := { name := "Box" }, params := [{ name := { name := "+T" } }] }
        { inner := some { value := .ref { name := "T" } [] } }] }]

def boxContext : TypeContext :=
  { module := "Main"
    registry := ((Registration.ofModules {} 8 boxModules).getD {}).registry }

theorem boxContext_declared : boxContext.registry.Declared := by
  dsimp only [boxContext]
  exact Registry.declared_of_clean (by decide +kernel)

theorem boxContext_applied : boxContext.registry.FullyApplied :=
  Registry.stores_of_all (by decide +kernel)

theorem boxed_boxes_fit :
    let num := Ty.named ⟨"Main", "Num"⟩ []
    let box := fun t => Ty.named ⟨"Main", "Box"⟩ [t]
    (exists enough, forall depth, enough ≤ depth ->
      fits boxContext depth (box num) (box num) = some true ∧
        forall d, (assign boxContext depth d (box num) (box num)).outcome .disabled =
          some (.ok (box num), .disabled)) ∧
    forall depth answer, fits boxContext depth num (box (box num)) = some answer ->
      answer = true := by
  have hpreorder := assignability_preorder boxContext_declared boxContext_applied rfl
  exact ⟨hpreorder.left _ (by decide +kernel),
    hpreorder.right _ (.named ⟨"Main", "Box"⟩ [.named ⟨"Main", "Num"⟩ []]) _
      (by decide +kernel) (by decide +kernel) (by decide +kernel) 6 6
      (by decide +kernel) (by decide +kernel)⟩

end TypeChecker
