import TypeChecker.Proofs.Assign.Depth
import TypeChecker.Proofs.Assign.Mirror
import TypeChecker.Proofs.Assign.Results

/-!
# Instances and opened boxes grow with their arguments

How a type uses its parameters tells how its instances follow their arguments: in the
same direction where the use is covariant, in the other where it is contravariant. This
is a fact about runs. Instances are matched part by part until the arguments meet, so
the runs that compare the arguments make up the run that compares the instances.

A box whose inner type keeps to the declared variances therefore opens to types that
stand as its arguments do.
-/

namespace TypeChecker

open Assign

namespace Assign

variable {assign : Assigner} {d : Direction} {i : Inference}

theorem parts_verdict_true (hkeeps : forall d t g, (assign d t g).Keeps i) {vs : List Variance}
    {targets givens : List Ty} (hvs : vs.length = targets.length)
    (hgivens : givens.length = targets.length) :
    (parts assign d vs targets givens).verdict i = some true ↔
      forall (k : Nat) v x y, vs[k]? = some v -> targets[k]? = some x -> givens[k]? = some y ->
        (assign (d.within v) x y).verdict i = some true := by
  induction targets generalizing vs givens with
  | nil =>
      rw [List.length_eq_zero_iff.mp hvs, List.length_eq_zero_iff.mp hgivens]
      simp [parts, Inferring.verdict, Except.isOk, Except.toBool]
  | cons target targets ih =>
      cases vs with
      | nil => simp at hvs
      | cons v vs =>
          cases givens with
          | nil => simp at hgivens
          | cons given givens =>
              simp only [List.length_cons, Nat.add_right_cancel_iff] at hvs hgivens
              rw [parts, Inferring.verdict_pair (hkeeps _ _ _), Bounded.andAlso_eq_true,
                ih hvs hgivens]
              constructor
              · intro h k v' x y hv hx hy
                cases k with
                | zero =>
                    cases hv
                    cases hx
                    cases hy
                    exact h.left
                | succ k => exact h.right k v' x y hv hx hy
              · intro h
                exact ⟨h 0 v target given rfl rfl rfl,
                  fun k v' x y hv hx hy => h (k + 1) v' x y hv hx hy⟩

end Assign

def Assigns (ctx : TypeContext) (d : Direction) (target given : Ty) : Prop :=
  exists depth, (assign ctx depth d target given).verdict .disabled = some true

section

variable {ctx : TypeContext} {d : Direction} {target given : Ty}

theorem assign_verdict_mono {m n : Nat} (hle : m ≤ n) {answer : Bool}
    (h : (assign ctx m d target given).verdict .disabled = some answer) :
    (assign ctx n d target given).verdict .disabled = some answer := by
  rcases Option.map_eq_some_iff.mp h with ⟨result, hrun, rfl⟩
  rw [Inferring.verdict, assign_extends hle d target given _ _ hrun]
  rfl

theorem keeps_disabled (depth : Nat) (d : Direction) (t g : Ty) :
    (assign ctx depth d t g).Keeps .disabled :=
  assign_keeps (Or.inl rfl) (Or.inl rfl)

namespace Assigns

theorem self (hbounds : ctx.bounds = {}) (d : Direction) {t : Ty}
    (hknown : t.everywhere (Former.isKnown ctx.registry) = true) : Assigns ctx d t t := by
  rcases assign_self hbounds t hknown with ⟨enough, hself⟩
  exact ⟨enough, Inferring.verdict_eq_true.mpr
    ⟨t, _, hself enough (Nat.le_refl _) d .disabled⟩⟩

theorem of_parts (hparam : target.former.isParam = false)
    (hformer : target.former = given.former)
    (hknown : target.former.isKnown ctx.registry = true)
    (hparts : forall (k : Nat) v x y, (target.former.positions ctx.registry)[k]? = some v ->
      target.parts[k]? = some x -> given.parts[k]? = some y -> Assigns ctx (d.within v) x y) :
    Assigns ctx d target given := by
  have hmono : forall v x y m n, m ≤ n ->
      (assign ctx m (d.within v) x y).verdict .disabled = some true ->
      (assign ctx n (d.within v) x y).verdict .disabled = some true :=
    fun v x y m n hle h => assign_verdict_mono hle h
  rcases exists_common_parts hformer hmono hparts with ⟨depth, hdepth⟩
  have hrun : (parts (assign ctx depth) d (target.former.positions ctx.registry) target.parts
      given.parts).verdict .disabled = some true :=
    (parts_verdict_true (keeps_disabled depth) (Ty.length_positions ctx.registry target)
      (Ty.parts_length_eq hformer).symm).mpr hdepth
  refine ⟨depth + 2, ?_⟩
  rw [assign_verdict, assignDirectly_of_not_param (hformer ▸ hparam), target_of_not_param hparam,
    structural_eq_parts hparam hformer (hformer ▸ hknown), Inferring.verdict_map, hrun]
  rfl

theorem of_admits (h : Admits ctx d target given)
    (hends : exists depth, (assign ctx depth d target given).outcome .disabled ≠ none) :
    Assigns ctx d target given := by
  rcases hends with ⟨depth, hanswer⟩
  rcases Option.ne_none_iff_exists'.mp hanswer with ⟨⟨result, j⟩, hresult⟩
  refine ⟨depth, ?_⟩
  rw [Inferring.verdict, hresult, Option.map_some, h.isOk hresult]

theorem mirror (hbounds : ctx.bounds = {}) (hstores : ctx.registry.Stores Former.isPlain)
    (htarget : target.everywhere Former.isPlain = true)
    (hgiven : given.everywhere Former.isPlain = true) (h : Assigns ctx d target given)
    (hends : exists depth, (assign ctx depth d.inverse given target).outcome .disabled ≠ none) :
    Assigns ctx d.inverse given target := by
  rcases h with ⟨_, hverdict⟩
  rcases Inferring.verdict_eq_true.mp hverdict with ⟨t, i, hrun⟩
  exact of_admits (assign_derives hbounds hstores htarget hgiven hrun).mirror_admits hends

theorem of_extreme (hbounds : ctx.bounds = {}) (hgiven : given = .never ∨ given = .any)
    (hadmits : Admits ctx d target given)
    (hafter : (afterwards ctx (assign ctx 1) d target given).outcome .disabled ≠ none) :
    Assigns ctx d target given := by
  have hdirect : (assignDirectly ctx 1 d target given).outcome .disabled ≠ none := by
    rw [assignDirectly_unbounded hbounds]
    cases target with
    | param index inferring =>
        cases inferring with
        | true => exact Option.some_ne_none _
        | false =>
            rw [Assign.target, fixedParam_outcome hbounds]
            split <;> exact Option.some_ne_none _
    | _ => rcases hgiven with rfl | rfl <;> exact Option.some_ne_none _
  apply of_admits hadmits
  refine ⟨2, ?_⟩
  rw [assign_outcome]
  split
  · contradiction
  · exact Option.some_ne_none _
  · exact hafter

theorem never (hbounds : ctx.bounds = {}) (hplain : target.hasInferring = false) :
    Assigns ctx .toTarget target .never := by
  apply of_extreme hbounds (Or.inl rfl) (Admits.never hplain)
  rw [afterwards_toTarget, if_pos rfl]
  split <;> exact Option.some_ne_none _

theorem from_any (hbounds : ctx.bounds = {}) (target : Ty) :
    Assigns ctx .fromTarget target .any := by
  apply of_extreme hbounds (Or.inr rfl) Admits.from_any
  rw [afterwards_fromTarget]
  split
  · exact Option.some_ne_none _
  · exact Option.some_ne_none _

end Assigns

theorem Derives.exact_eq {t : Ty} (h : Derives ctx d target given t) (hexact : d = .exact) :
    target = given ∧ target.everywhere (Former.isKnown ctx.registry) = true := by
  induction h with
  | param => exact ⟨rfl, rfl⟩
  | @parts d target given results _ former known length _ ih =>
      cases hexact
      have hsame : forall (k : Nat) x y, target.parts[k]? = some x -> given.parts[k]? = some y ->
          x = y ∧ x.everywhere (Former.isKnown ctx.registry) = true := by
        intro k x y hx hy
        have hk := (List.getElem?_eq_some_iff.mp hx).choose
        have hkr : k < results.length := length ▸ hk
        have hkv : k < (target.former.positions ctx.registry).length := by
          rw [Ty.length_positions]
          exact hk
        exact ih k _ x y _ (List.getElem?_eq_getElem hkv) hx hy (List.getElem?_eq_getElem hkr) rfl
      constructor
      · have hholds : Direction.HoldsWithin ctx 0 .exact target given :=
          Direction.holdsWithin_of_parts former fun k v x y _ hx hy => (hsame k x y hx hy).left
        exact hholds
      · refine Ty.everywhere_iff.mpr ⟨known, ?_⟩
        intro x hx
        rcases List.mem_iff_getElem?.mp hx with ⟨k, hk⟩
        have hkg : k < given.parts.length := by
          rw [<- Ty.parts_length_eq former]
          exact (List.getElem?_eq_some_iff.mp hk).choose
        exact (hsame k x _ hk (List.getElem?_eq_getElem hkg)).right
  | _ => cases hexact

theorem Assigns.args_of_direct {name : Symbol} {as bs : List Ty} {depth : Nat} {t : Ty}
    {j : Inference}
    (h : (assignDirectly ctx depth d (.named name bs) (.named name as)).outcome .disabled =
      some (.ok t, j)) {k : Nat} {v : Variance} {a b : Ty}
    (hv : ((Former.named name bs.length).positions ctx.registry)[k]? = some v)
    (ha : as[k]? = some a) (hb : bs[k]? = some b) : Assigns ctx (d.within v) b a := by
  cases depth with
  | zero => cases h
  | succ depth =>
      rw [assignDirectly_of_not_param rfl, target_of_not_param rfl] at h
      rcases known_of_structural_ok rfl rfl h with ⟨hknown, hgknown⟩
      rcases structural_parts_ok hknown hgknown h with ⟨hformer, results, hrun, _⟩
      have hverdict := Inferring.verdict_eq_true.mpr ⟨results, j, hrun⟩
      have hparts := (parts_verdict_true (keeps_disabled depth)
        (Ty.length_positions ctx.registry _) (Ty.parts_length_eq hformer).symm).mp hverdict
      exact ⟨depth, hparts k v b a hv hb ha⟩

/-!
## Arguments and instances
-/

def Variance.Assignable (ctx : TypeContext) (v : Variance) (a b : Ty) : Prop :=
  match v with
  | .covariant => exists depth, fits ctx depth b a = some true
  | .contravariant => exists depth, fits ctx depth a b = some true
  | .invariant => a = b
  | .bivariant => True

namespace Variance

theorem demands_of_cases {Q : Direction -> Ty -> Ty -> Prop} {v : Variance} {a b : Ty}
    (hcovariant : v = .covariant -> Q .toTarget b a)
    (hcontravariant : v = .contravariant -> Q .fromTarget b a)
    (hinvariant : v = .invariant -> forall d, Q d b a) : v.Demands Q a b := by
  intro w himplies hw
  cases v with
  | covariant =>
      cases w with
      | covariant => exact hcovariant rfl
      | bivariant => exact absurd rfl hw
      | _ => cases himplies
  | contravariant =>
      cases w with
      | contravariant => exact hcontravariant rfl
      | bivariant => exact absurd rfl hw
      | _ => cases himplies
  | invariant => exact hinvariant rfl _
  | bivariant =>
      cases w with
      | bivariant => exact absurd rfl hw
      | _ => cases himplies

variable {a b : Ty} {v : Variance}

theorem Assignable.admits (hbounds : ctx.bounds = {})
    (hstores : ctx.registry.Stores Former.isPlain)
    (ha : a.everywhere (Former.isKnown ctx.registry) = true)
    (hb : b.everywhere (Former.isKnown ctx.registry) = true) (h : v.Assignable ctx a b) :
    v.Demands (Admits ctx) a b := by
  apply demands_of_cases
  · rintro rfl
    rcases h with ⟨depth, hfits⟩
    exact Admits.of_fits hfits
  · rintro rfl
    rcases h with ⟨depth, hfits⟩
    rcases fits_eq_true.mp hfits with ⟨_, _, hrun⟩
    exact (assign_derives hbounds hstores (Ty.plain_of_known ha) (Ty.plain_of_known hb)
      hrun).mirror_admits
  · rintro rfl d
    cases h
    exact Admits.self d ha

theorem Assignable.assigns (hbounds : ctx.bounds = {})
    (hstores : ctx.registry.Stores Former.isPlain)
    (ha : a.everywhere (Former.isKnown ctx.registry) = true)
    (hb : b.everywhere (Former.isKnown ctx.registry) = true) (h : v.Assignable ctx a b)
    (hends : v = .contravariant ->
      exists depth, (assign ctx depth .fromTarget b a).outcome .disabled ≠ none) :
    v.Demands (Assigns ctx) a b := by
  apply demands_of_cases
  · rintro rfl
    exact h
  · rintro rfl
    have haccepted : Assigns ctx .toTarget a b := h
    exact haccepted.mirror hbounds hstores (Ty.plain_of_known ha) (Ty.plain_of_known hb)
      (hends rfl)
  · rintro rfl d
    cases h
    exact Assigns.self hbounds d ha

theorem demands_of_declared (hbounds : ctx.bounds = {})
    (hstores : ctx.registry.Stores Former.isPlain)
    (ha : a.everywhere Former.isPlain = true) (hb : b.everywhere Former.isPlain = true)
    (h : Assigns ctx (Direction.ofVariance v) b a) : v.Demands (Assigns ctx) a b := by
  apply demands_of_cases
  · rintro rfl
    exact h
  · rintro rfl
    exact h
  · rintro rfl d
    rcases h with ⟨depth, hverdict⟩
    rcases Inferring.verdict_eq_true.mp hverdict with ⟨t, i, hrun⟩
    rcases (assign_derives hbounds hstores hb ha hrun).exact_eq rfl with ⟨rfl, hknown⟩
    exact Assigns.self hbounds d hknown

end Variance

/-- Two lists of arguments stand as a type uses its parameters. -/
def Ty.Follows (ctx : TypeContext) (t : Ty) (as bs : List Ty) : Prop :=
  forall (index : Nat) v a b, (Variance.usage ctx.registry as.length t)[index]? = some v ->
    as[index]? = some a -> bs[index]? = some b -> v.Assignable ctx a b

/-- For each parameter that a type uses contravariantly, assigning from the second
argument to the first comes to an end. -/
def Ty.MirrorsEnd (ctx : TypeContext) (t : Ty) (as bs : List Ty) : Prop :=
  forall (index : Nat) a b,
    (Variance.usage ctx.registry as.length t)[index]? = some .contravariant ->
    as[index]? = some a -> bs[index]? = some b ->
      exists depth, (assign ctx depth .fromTarget b a).outcome .disabled ≠ none

/-- The parameters of a type are among the first `n`, and apart from them it is over a
registry. -/
def Ty.isOverWith (registry : Registry) (n : Nat) (t : Ty) : Bool :=
  t.everywhere (Former.onParams (fun index _ => decide (index < n)) (Former.isOver registry))

theorem Variance.length_usage (registry : Registry) (arity : Nat) (t : Ty) :
    (usage registry arity t).length = arity := by
  cases t with
  | named name args =>
      rw [usage]
      split <;> simp [ofComponents]
  | _ => simp [usage, single, ofComponents]

theorem Variance.usage_at {registry : Registry} {arity index : Nat} (hindex : index < arity)
    (t : Ty) : (usage registry arity t)[index]? =
      some ((usage registry arity t).getD index .bivariant) := by
  have hlt : index < (usage registry arity t).length := by rw [length_usage]; exact hindex
  simp [List.getD_eq_getElem?_getD, hlt]

namespace Ty

theorem isApplicable_of_isOverWith {registry : Registry} {n : Nat} {t : Ty}
    (h : t.isOverWith registry n = true) : t.everywhere (Former.isApplicable registry) = true := by
  apply everywhere_mono _ h
  intro f hf
  cases f with
  | named name given => exact Former.isApplicable_of_isApplied (Bool.and_eq_true_iff.mp hf).right
  | _ => rfl

/-- Arguments that are related as a type over the registry uses them have related
instances. -/
theorem instances_related {registry : Registry} (hsigned : registry.Signed)
    {Q : Direction -> Ty -> Ty -> Prop}
    (hcompose : forall d target given, target.former.isParam = false ->
      target.former = given.former -> target.former.isKnown registry = true ->
      (forall (k : Nat) w x y, (target.former.positions registry)[k]? = some w ->
        target.parts[k]? = some x -> given.parts[k]? = some y -> Q (d.within w) x y) ->
      Q d target given)
    {t : Ty} {as bs : List Ty} (hlen : bs.length = as.length)
    (ht : t.isOverWith registry as.length = true)
    (h : forall (index : Nat) v a b, (Variance.usage registry as.length t)[index]? = some v ->
      as[index]? = some a -> bs[index]? = some b -> v.Demands Q a b) :
    Q .toTarget (t.instantiate bs) (t.instantiate as) := by
  refine Variance.instantiate_related hsigned (p := fun f => !f.isParam && f.isOver registry)
    (fun d index inferring hp => by cases hp) ?_ (isApplicable_of_isOverWith ht)
    (everywhere_mono ?_ ht) rfl hlen (by simp : Variance.covariant ≠ .bivariant) ?_
  · intro d target given hparam hformer hp
    have hover := (Bool.and_eq_true_iff.mp hp).right
    exact hcompose d target given hparam hformer (Bool.and_eq_true_iff.mp hover).left
  · intro f hf
    cases f with
    | param index inferring => simpa [Former.onParams, Former.isParam] using hf
    | _ => exact hf
  · intro index a b ha hb
    have hindex := (List.getElem?_eq_some_iff.mp ha).choose
    rw [Variance.within_of_covariant]
    exact h index _ a b (Variance.usage_at hindex t) ha hb

end Ty

/-!
## Opened boxes
-/

theorem known_inner (horderly : ctx.registry.Orderly) {name : Symbol} {d : Declaration}
    {boxed : Boxed} (hd : Table.get? ctx.registry name = some d) (hboxed : d.boxed? = some boxed)
    (happlicable : boxed.inner.everywhere (Former.isApplicable ctx.registry) = true) :
    boxed.inner.everywhere (Former.isKnown ctx.registry) = true := by
  have hplain := horderly.plain name d hd _ (Declaration.mem_types_of_boxed hboxed)
  refine Ty.everywhere_mono ?_ (Ty.everywhere_and.mpr ⟨hplain, happlicable⟩)
  intro f hf
  rcases Bool.and_eq_true_iff.mp hf with ⟨hplain, happlicable⟩
  apply Former.isKnown_of_isPlain hplain
  rintro other arity rfl
  rcases Former.exists_of_isApplicable happlicable with ⟨_, hother, _⟩
  exact Option.isSome_iff_exists.mpr ⟨_, hother⟩

theorem assigns_opened (horderly : ctx.registry.Orderly) (hbounds : ctx.bounds = {})
    {name : Symbol} {d : Declaration} {boxed : Boxed} {limits : Limits}
    (hd : Table.get? ctx.registry name = some d) (hboxed : d.boxed? = some boxed)
    (hvalid : d.validateDefinition ctx.registry limits = .ok ()) {as bs : List Ty}
    (has : as.length = d.arity) (hbs : bs.length = d.arity)
    (hplain : forall a, a ∈ as ++ bs -> a.everywhere Former.isPlain = true) {depth : Nat} {t : Ty}
    {j : Inference}
    (h : (assignDirectly ctx depth .toTarget (.named name bs) (.named name as)).outcome .disabled =
      some (.ok t, j)) :
    Assigns ctx .toTarget (boxed.inner.instantiate bs) (boxed.inner.instantiate as) := by
  rcases Declaration.inner_of_validateDefinition hvalid hboxed with ⟨hinner, hused⟩
  have happlicable := Ty.isApplicable_of_validate hinner
  have hknown := known_inner horderly hd hboxed happlicable
  refine Variance.instantiate_related horderly.signed (p := Former.isKnown ctx.registry) ?_ ?_
    happlicable (Ty.everywhere_mono ?_ hknown) has hbs (by simp : Variance.covariant ≠ .bivariant)
    ?_
  · intro d index inferring hp
    cases inferring with
    | true => cases hp
    | false => exact Assigns.self hbounds d hp
  · exact fun d target given hparam hformer hp => Assigns.of_parts hparam hformer hp
  · intro f hf
    cases f with
    | param index inferring => simp [Former.onParams, hf]
    | _ => exact hf
  · intro index a b ha hb
    rw [Variance.within_of_covariant]
    rcases Variance.position_of_arg hd hbs hb with ⟨p, hp, hposition⟩
    have hassigned := Assigns.args_of_direct h hposition ha hb
    have hallowed := Variance.allows_implies (Variance.allows_of_misused hused hp)
    have haPlain := hplain a (List.mem_append_left _ (List.mem_of_getElem? ha))
    have hbPlain := hplain b (List.mem_append_right _ (List.mem_of_getElem? hb))
    exact (Variance.demands_of_declared hbounds horderly.plain haPlain hbPlain
      hassigned).implied hallowed

/-- Over every registry, the usage of parameters tells how instances follow their
arguments. Instances at arguments that stand as the type uses them are never refused, and
they are accepted unless assigning from a second argument to a first, where the use is
contravariant, does not come to an end. A valid box opens to types that stand as its
arguments do: seen from a module that may open it, what a direct match accepts is
accepted behind the box. -/
theorem usage_sound {limits : Limits} {depth : Nat} {modules : List Source.Module}
    {r : Registration} (h : Registration.ofModules limits depth modules = some r)
    (hregistry : ctx.registry = r.registry) (hbounds : ctx.bounds = {}) :
    (forall (t : Ty) (as bs : List Ty), bs.length = as.length ->
      t.isOverWith ctx.registry as.length = true ->
      (forall a, a ∈ as ++ bs -> a.isOver ctx.registry = true) -> t.Follows ctx as bs ->
      (forall depth answer,
        fits ctx depth (t.instantiate bs) (t.instantiate as) = some answer -> answer = true) ∧
      (t.MirrorsEnd ctx as bs ->
        exists depth, fits ctx depth (t.instantiate bs) (t.instantiate as) = some true)) ∧
    forall name d boxed limits, Table.get? ctx.registry name = some d ->
      d.boxed? = some boxed -> d.validateDefinition ctx.registry limits = .ok () ->
      (boxed.hidden && name.module != ctx.module) = false ->
      forall as bs : List Ty, as.length = d.arity -> bs.length = d.arity ->
      (forall a, a ∈ as ++ bs -> a.everywhere Former.isPlain = true) ->
      forall depth t j,
        (assignDirectly ctx depth .toTarget (.named name bs) (.named name as)).outcome .disabled =
          some (.ok t, j) ->
        exists x y, (Ty.named name as).unbox ctx.module ctx.registry = .inner x ∧
          (Ty.named name bs).unbox ctx.module ctx.registry = .inner y ∧
          exists depth, fits ctx depth y x = some true := by
  have horderly : ctx.registry.Orderly := hregistry ▸ Registration.orderly h
  constructor
  · intro t as bs hlen ht hover hfollows
    have hknown : forall a, a ∈ as ++ bs ->
        a.everywhere (Former.isKnown ctx.registry) = true :=
      fun a ha => (Ty.isOver_iff.mp (hover a ha)).left
    have hleft : forall (index : Nat) a, as[index]? = some a ->
        a.everywhere (Former.isKnown ctx.registry) = true :=
      fun index a ha => hknown a (List.mem_append_left _ (List.mem_of_getElem? ha))
    have hright : forall (index : Nat) b, bs[index]? = some b ->
        b.everywhere (Former.isKnown ctx.registry) = true :=
      fun index b hb => hknown b (List.mem_append_right _ (List.mem_of_getElem? hb))
    constructor
    · have hadmits : Admits ctx .toTarget (t.instantiate bs) (t.instantiate as) := by
        apply Ty.instances_related horderly.signed _ hlen ht
        · intro index v a b hv ha hb
          exact (hfollows index v a b hv ha hb).admits hbounds horderly.plain (hleft index a ha)
            (hright index b hb)
        · intro d target given hparam hformer hhere
          exact Admits.of_parts hparam hformer (hformer ▸ hhere)
      exact fun depth answer hanswer => hadmits.answer_eq hanswer
    · intro hends
      have hassigns : Assigns ctx .toTarget (t.instantiate bs) (t.instantiate as) := by
        apply Ty.instances_related horderly.signed _ hlen ht
        · intro index v a b hv ha hb
          refine (hfollows index v a b hv ha hb).assigns hbounds horderly.plain (hleft index a ha)
            (hright index b hb) ?_
          rintro rfl
          exact hends index a b hv ha hb
        · intro d target given hparam hformer hhere
          exact Assigns.of_parts hparam hformer hhere
      exact hassigns
  · intro name d boxed limits hd hboxed hvalid hvisible as bs has hbs hplain depth t j hdirect
    have hopens : forall args : List Ty, args.length = d.arity ->
        (Ty.named name args).unbox ctx.module ctx.registry =
          .inner (boxed.inner.instantiate args) := by
      intro args hargs
      have hdefaults := horderly.defaulted name d hd
      rw [<- hargs] at hdefaults
      simp [Ty.unbox, hd, hboxed, hvisible, Ty.instantiateWith_eq hdefaults]
    exact ⟨_, _, hopens as has, hopens bs hbs,
      assigns_opened horderly hbounds hd hboxed hvalid has hbs hplain hdirect⟩

end

/-- A function that takes the first parameter and gives a box of the second: it takes
more and gives less at `Num` and `Box[Num]` than at `Box[Num]` and `Num`. -/
theorem boxed_function_follows :
    let num := Ty.named ⟨"Main", "Num"⟩ []
    let box := fun t => Ty.named ⟨"Main", "Box"⟩ [t]
    let t := Ty.func (.param 0 false) (box (.param 1 false))
    (exists depth, fits boxContext depth (t.instantiate [box num, num])
      (t.instantiate [num, box num]) = some true) ∧
    exists x y, (box (box num)).unbox "Main" boxContext.registry = .inner x ∧
      (box num).unbox "Main" boxContext.registry = .inner y ∧
      exists depth, fits boxContext depth y x = some true := by
  intro num box t
  have hregistered := (Registration.registered_of_clean (show (Registration.ofModules {} 8
    boxModules).map (fun r => r.problems.isEmpty) = some true by decide +kernel)).left
  have hregistry : boxContext.registry =
      ((Registration.ofModules {} 8 boxModules).getD {}).registry := by rw [boxContext]
  rcases usage_sound hregistered hregistry rfl with ⟨hinstances, hboxes⟩
  constructor
  · have husage : Variance.usage boxContext.registry 2 t = [.contravariant, .covariant] := by
      decide +kernel
    have hfollows : t.Follows boxContext [num, box num] [box num, num] := by
      intro index v a b hv ha hb
      rw [List.length_cons, List.length_singleton, husage] at hv
      rcases index with _ | _ | index
      · cases hv
        cases ha
        cases hb
        exact ⟨8, by decide +kernel⟩
      · cases hv
        cases ha
        cases hb
        exact ⟨8, by decide +kernel⟩
      · cases ha
    have hends : t.MirrorsEnd boxContext [num, box num] [box num, num] := by
      intro index a b hv ha hb
      rw [List.length_cons, List.length_singleton, husage] at hv
      rcases index with _ | _ | index
      · cases ha
        cases hb
        exact ⟨8, by decide +kernel⟩
      · cases hv
      · cases ha
    exact (hinstances t [num, box num] [box num, num] rfl (by decide +kernel) (by decide +kernel)
      hfollows).right hends
  · exact hboxes ⟨"Main", "Box"⟩ _ _ {} rfl rfl rfl rfl [box num] [num] rfl rfl (by decide +kernel)
      8 (box num) .disabled rfl

/-!
## Where instances and boxes do not follow
-/

/-- A function from `Tag[left, unit]` is never accepted as one from the type that
`Tag[left, unit]` takes, since assigning in the other direction does not end. -/
theorem Tagged.function_undecided (depth : Nat) :
    fits taggedContext depth (.func Tagged.outer .unit) (.func Tagged.inner .unit) = none := by
  cases depth with
  | zero => rfl
  | succ depth =>
      cases depth with
      | zero => rfl
      | succ depth =>
          show (assign taggedContext _ .toTarget _ _).verdict .disabled = none
          rw [assign_verdict, assignDirectly_of_not_param rfl, target_of_not_param rfl, structural]
          rw [Inferring.verdict_pair (keeps_disabled depth _ _ _)]
          show Bounded.orAlso (Bounded.andAlso
            ((assign taggedContext depth .fromTarget _ _).verdict .disabled) _) _ = none
          rw [Tagged.outer_undecided]
          rfl

def vaultModules : List Source.Module :=
  [{ name := "Vault"
     types := [.boxed { name := { name := "Secret" } } { hidden := true }] },
    { name := "Main"
      types := [
        .boxed { name := { name := "Holder" }, params := [{ name := { name := "+T" } }] }
          { inner := some { value := .ref { name := "T" } [] } }] }]

def vaultContext (module : String) : TypeContext :=
  { module, registry := ((Registration.ofModules {} 8 vaultModules).getD {}).registry }

/-- A use that follows its arguments need not be decided, if it is contravariant. And
what a module matches because it sees through its own box says nothing about the opened
types where this box is hidden: `Vault` matches `Holder[Secret]` with `Holder[unit]`,
but in `Main` what the first opens to is no `unit`. -/
theorem undecided_or_hidden_instance :
    let t := Ty.func (.param 0 false) .unit
    let secret := Ty.named ⟨"Vault", "Secret"⟩ []
    let holder := fun t => Ty.named ⟨"Main", "Holder"⟩ [t]
    let vault := vaultContext "Vault"
    let main := vaultContext "Main"
    (taggedContext.registry.Declared ∧ t.isOverWith taggedContext.registry 1 = true ∧
      Tagged.inner.isOver taggedContext.registry = true ∧
      Tagged.outer.isOver taggedContext.registry = true ∧
      t.Follows taggedContext [Tagged.inner] [Tagged.outer] ∧
      forall depth, fits taggedContext depth (t.instantiate [Tagged.outer])
        (t.instantiate [Tagged.inner]) = none) ∧
    main.registry.Declared ∧ main.registry = vault.registry ∧
      (assignDirectly vault 8 .toTarget (holder .unit) (holder secret)).outcome .disabled =
        some (.ok (holder .unit), .disabled) ∧
      (holder secret).unbox main.module main.registry = .inner secret ∧
      (holder .unit).unbox main.module main.registry = .inner .unit ∧
      fits main 8 .unit secret = some false := by
  intro t secret holder vault main
  constructor
  · have husage : Variance.usage taggedContext.registry 1 t = [.contravariant] := by
      decide +kernel
    have hover : t.isOverWith taggedContext.registry 1 = true ∧
        Tagged.inner.isOver taggedContext.registry = true ∧
        Tagged.outer.isOver taggedContext.registry = true := by decide +kernel
    refine ⟨Tagged.declared, hover.left, hover.right.left, hover.right.right, ?_,
      Tagged.function_undecided⟩
    intro index v a b hv ha hb
    rw [List.length_singleton, husage] at hv
    rcases index with _ | index
    · cases hv
      cases ha
      cases hb
      exact ⟨8, by decide +kernel⟩
    · cases ha
  · refine ⟨?_, rfl, rfl, by decide +kernel⟩
    dsimp only [main, vaultContext]
    exact Registry.declared_of_clean (by decide +kernel)

end TypeChecker
