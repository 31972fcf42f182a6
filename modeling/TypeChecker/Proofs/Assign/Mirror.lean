import TypeChecker.Proofs.Assign.Preorder

/-!
# The two directions mirror each other

Assigning towards a target and from it are two sets of rules: each opens its own side,
looks for `never` and `any` in its own order and turns the direction of parts its own
way. With target and given type exchanged they take the same steps, and so they answer
alike at every depth.

There is one exception. The fields of a bundle are looked up in the order of the
target's names, so of two bundles with equally many fields under different names the
two directions may compare different fields before they find one missing.
-/

namespace TypeChecker

open Assign

/-!
## Verdicts
-/

namespace Inferring

variable {ε α β : Type} {i : Inference}

/-- Whether a run accepts, if it comes to an end. -/
def verdict (x : Inferring ε α) (i : Inference) : Bounded Bool :=
  (x.outcome i).map fun result => result.1.isOk

theorem verdict_eq_true {x : Inferring ε α} :
    x.verdict i = some true ↔ exists a j, x.outcome i = some (.ok a, j) := by
  rw [verdict, Option.map_eq_some_iff]
  constructor
  · rintro ⟨⟨result, j⟩, hrun, hok⟩
    cases result with
    | ok a => exact ⟨a, j, hrun⟩
    | error e => cases hok
  · rintro ⟨a, j, hrun⟩
    exact ⟨_, hrun, rfl⟩

theorem verdict_eq_false {x : Inferring ε α} :
    x.verdict i = some false ↔ exists e j, x.outcome i = some (.error e, j) := by
  rw [verdict, Option.map_eq_some_iff]
  constructor
  · rintro ⟨⟨result, j⟩, hrun, hok⟩
    cases result with
    | ok a => cases hok
    | error e => exact ⟨e, j, hrun⟩
  · rintro ⟨e, j, hrun⟩
    exact ⟨_, hrun, rfl⟩

theorem verdict_eq_none {x : Inferring ε α} : x.verdict i = none ↔ x.outcome i = none :=
  Option.map_eq_none_iff

theorem verdict_map (f : α -> β) (x : Inferring ε α) : (f <$> x).verdict i = x.verdict i := by
  rw [verdict, verdict, outcome_map]
  cases x.outcome i with
  | none => rfl
  | some result =>
      rcases result with ⟨r, j⟩
      cases r <;> rfl

end Inferring

def Bounded.andAlso : Bounded Bool -> Bounded Bool -> Bounded Bool
  | some true, second => second
  | first, _ => first

theorem Bounded.andAlso_eq_true {first second : Bounded Bool} :
    first.andAlso second = some true ↔ first = some true ∧ second = some true := by
  rcases first with _ | first
  · simp [andAlso]
  · cases first <;> simp [andAlso]

def Bounded.orAlso : Bounded Bool -> Bounded Bool -> Bounded Bool
  | some false, second => second
  | first, _ => first

namespace Inferring

variable {ε α β γ : Type} {i : Inference}

theorem verdict_pair {x : Inferring ε α} {y : Inferring ε β} {f : α -> β -> γ}
    (hkeeps : x.Keeps i) :
    (x >>= fun a => y >>= fun b => pure (f a b)).verdict i =
      (x.verdict i).andAlso (y.verdict i) := by
  rw [verdict, outcome_bind]
  cases hrun : x.outcome i with
  | none =>
      rw [verdict_eq_none.mpr hrun]
      rfl
  | some result =>
      rcases result with ⟨r, j⟩
      cases hkeeps.eq hrun
      cases r with
      | ok a =>
          rw [verdict_eq_true.mpr ⟨a, _, hrun⟩]
          show (y >>= fun b => pure (f a b)).verdict i = y.verdict i
          rw [<- map_eq_pure_bind, verdict_map]
      | error e =>
          rw [verdict_eq_false.mpr ⟨e, _, hrun⟩]
          rfl

end Inferring

namespace Direction

@[simp] theorem inverse_inverse (d : Direction) : d.inverse.inverse = d := by
  cases d <;> rfl

theorem inverse_within (d : Direction) (v : Variance) :
    d.inverse.within v = (d.within v).inverse := by
  cases d with
  | toTarget => rfl
  | fromTarget => exact (inverse_inverse _).symm
  | exact => rfl

end Direction

/-!
## Pairs of types met on the way
-/

namespace Ty

/-- Two bundles with equally many fields that do not have the same names. -/
def Clash (a b : Ty) : Prop :=
  exists as bs, a = .bundle as ∧ b = .bundle bs ∧ as.length = bs.length ∧
    as.map Prod.fst ≠ bs.map Prod.fst

def Alike (a b : Ty) : Prop :=
  a.former = b.former ∨ exists as bs, a = .bundle as ∧ b = .bundle bs ∧
    as.map Prod.fst = bs.map Prod.fst

end Ty

/-- The pairs of a target and a given type that an assignment may come to: the two
themselves, their parts, and what is left after the smaller side is opened. -/
inductive Meets (ctx : TypeContext) : Direction -> Ty -> Ty -> Ty -> Ty -> Prop where
  | here {d : Direction} {target given : Ty} : Meets ctx d target given target given
  | part {d : Direction} {target given x y a b : Ty} {k : Nat} {v : Variance}
      (alike : target.Alike given) (position : (target.former.positions ctx.registry)[k]? = some v)
      (targetPart : target.parts[k]? = some x) (givenPart : given.parts[k]? = some y)
      (rest : Meets ctx (d.within v) x y a b) : Meets ctx d target given a b
  | opened {target given inner a b : Ty} (bounded : target ≠ .any)
      (unboxes : given.unbox ctx.module ctx.registry = .inner inner)
      (rest : Meets ctx .toTarget target inner a b) : Meets ctx .toTarget target given a b
  | fromOpened {target given inner a b : Ty} (bounded : given ≠ .any)
      (unboxes : target.unbox ctx.module ctx.registry = .inner inner)
      (rest : Meets ctx .fromTarget inner given a b) : Meets ctx .fromTarget target given a b

theorem Meets.everywhere {ctx : TypeContext} {p : Former -> Bool} {d : Direction}
    {target given a b : Ty} (h : Meets ctx d target given a b) (hstores : ctx.registry.Stores p)
    (htarget : target.everywhere p = true) (hgiven : given.everywhere p = true) :
    a.everywhere p = true ∧ b.everywhere p = true := by
  induction h with
  | here => exact ⟨htarget, hgiven⟩
  | part _ _ targetPart givenPart _ ih =>
      exact ih ((Ty.everywhere_iff.mp htarget).right _ (List.mem_of_getElem? targetPart))
        ((Ty.everywhere_iff.mp hgiven).right _ (List.mem_of_getElem? givenPart))
  | opened _ unboxes _ ih => exact ih htarget (Ty.everywhere_unbox hstores hgiven unboxes)
  | fromOpened _ unboxes _ ih => exact ih (Ty.everywhere_unbox hstores htarget unboxes) hgiven

def Former.hasNames (names : List String) : Former -> Bool
  | .bundle fields => fields.map Prod.fst == names
  | _ => true

theorem Meets.not_clash {ctx : TypeContext} {names : List String} {d : Direction}
    {target given a b : Ty} (h : Meets ctx d target given a b)
    (hstores : ctx.registry.Stores (Former.hasNames names))
    (htarget : target.everywhere (Former.hasNames names) = true)
    (hgiven : given.everywhere (Former.hasNames names) = true) : ¬ a.Clash b := by
  rintro ⟨as, bs, rfl, rfl, _, hdifferent⟩
  rcases h.everywhere hstores htarget hgiven with ⟨ha, hb⟩
  have hleft := (Ty.everywhere_iff.mp ha).left
  have hright := (Ty.everywhere_iff.mp hb).left
  simp only [Ty.former, Former.hasNames, List.map_map, Function.comp_def, beq_iff_eq]
    at hleft hright
  exact hdifferent (hleft.trans hright.symm)

/-!
## One level
-/

namespace Assign

variable {ctx : TypeContext} {assign direct : Assigner} {d : Direction} {target given : Ty}
  {i : Inference}

theorem parts_mirror (hkeeps : forall d t g, (assign d t g).Keeps i) {vs : List Variance}
    {targets givens : List Ty} (hgivens : givens.length = targets.length)
    (hparts : forall (k : Nat) v x y, vs[k]? = some v -> targets[k]? = some x ->
      givens[k]? = some y ->
        (assign (d.within v) x y).verdict i = (assign (d.within v).inverse y x).verdict i) :
    (parts assign d vs targets givens).verdict i =
      (parts assign d.inverse vs givens targets).verdict i := by
  induction targets generalizing vs givens with
  | nil =>
      rw [List.length_eq_zero_iff.mp hgivens]
      cases vs <;> rfl
  | cons x targets ih =>
      cases givens with
      | nil => simp at hgivens
      | cons y givens =>
          cases vs with
          | nil => rfl
          | cons v vs =>
              have hlen : givens.length = targets.length := by simpa using hgivens
              have hrest := ih hlen fun k v x y hv hx hy => hparts (k + 1) v x y hv hx hy
              rw [parts, parts, Inferring.verdict_pair (hkeeps _ _ _),
                Inferring.verdict_pair (hkeeps _ _ _), Direction.inverse_within,
                hparts 0 v x y rfl rfl rfl, hrest]

theorem fields_mirror (hkeeps : forall d t g, (assign d t g).Keeps i)
    {targetTable givenTable : Table String (Field Ty)} {targets givens : List (String × Field Ty)}
    (hnames : targets.map Prod.fst = givens.map Prod.fst)
    (htargets : forall item, item ∈ targets -> Table.get? targetTable item.1 = some item.2)
    (hgivens : forall item, item ∈ givens -> Table.get? givenTable item.1 = some item.2)
    (hfields : forall (k : Nat) x y, (targets.map fun item => item.2.type)[k]? = some x ->
      (givens.map fun item => item.2.type)[k]? = some y ->
        (assign d x y).verdict i = (assign d.inverse y x).verdict i) :
    (fields (assign d) givenTable targets).verdict i =
      (fields (assign d.inverse) targetTable givens).verdict i := by
  induction targets generalizing givens with
  | nil =>
      cases givens with
      | nil => rfl
      | cons item givens => simp at hnames
  | cons item targets ih =>
      cases givens with
      | nil => simp at hnames
      | cons other givens =>
          rcases item with ⟨name, field⟩
          rcases other with ⟨otherName, otherField⟩
          simp only [List.map_cons, List.cons.injEq] at hnames
          rcases hnames with ⟨rfl, hnames⟩
          have htargetGet := htargets _ List.mem_cons_self
          have hgivenGet := hgivens _ List.mem_cons_self
          have hrest := ih hnames (fun item hitem => htargets item (List.mem_cons_of_mem _ hitem))
            (fun item hitem => hgivens item (List.mem_cons_of_mem _ hitem))
            fun k x y hx hy => hfields (k + 1) x y hx hy
          simp only [fields, htargetGet, hgivenGet, Assigning.ofOption, pure_bind]
          by_cases hslot : otherField.slot = field.slot
          · rw [if_pos hslot, if_pos hslot.symm, Inferring.verdict_pair (hkeeps _ _ _),
              Inferring.verdict_pair (hkeeps _ _ _),
              hfields 0 field.type otherField.type rfl rfl, hrest]
          · rw [if_neg hslot, if_neg (Ne.symm hslot)]

theorem structural_mirror (hkeeps : forall d t g, (assign d t g).Keeps i)
    (htarget : target.former.isPlain = true) (hgiven : given.former.isPlain = true)
    (hparam : target.former.isParam = false) (hclash : ¬ target.Clash given)
    (hparts : target.Alike given -> forall (k : Nat) v x y,
      (target.former.positions ctx.registry)[k]? = some v -> target.parts[k]? = some x ->
      given.parts[k]? = some y ->
        (assign (d.within v) x y).verdict i = (assign (d.within v).inverse y x).verdict i) :
    (structural ctx assign d target given).verdict i =
      (structural ctx assign d.inverse given target).verdict i := by
  by_cases hbundles : exists ts gs, target = .bundle ts ∧ given = .bundle gs
  · rcases hbundles with ⟨ts, gs, rfl, rfl⟩
    by_cases hlen : ts.length = gs.length
    · have hnames : ts.map Prod.fst = gs.map Prod.fst :=
        Classical.byContradiction fun hne => hclash ⟨ts, gs, rfl, rfl, hlen, hne⟩
      simp only [structural, hlen, if_true, <- map_eq_pure_bind, Inferring.verdict_map]
      apply fields_mirror hkeeps hnames (fun item => Ty.field_of_plain htarget)
        (fun item => Ty.field_of_plain hgiven)
      intro k x y hx hy
      have hposition : ((Ty.bundle ts).former.positions ctx.registry)[k]? = some .covariant := by
        rw [List.getElem?_map] at hx
        rcases Option.map_eq_some_iff.mp hx with ⟨item, hitem, _⟩
        simp [Ty.former, Former.positions, hitem]
      simpa using hparts (Or.inr ⟨ts, gs, rfl, rfl, hnames⟩) k .covariant x y hposition hx hy
    · rw [structural, structural, if_neg hlen, if_neg (Ne.symm hlen)]
  · have hapart : forall ts gs, target = .bundle ts -> given ≠ .bundle gs :=
      fun ts gs ht hg => hbundles ⟨ts, gs, ht, hg⟩
    have hapart' : forall gs ts, given = .bundle gs -> target ≠ .bundle ts :=
      fun gs ts hg ht => hbundles ⟨ts, gs, ht, hg⟩
    by_cases hformer : target.former = given.former
    · cases hknown : target.former.isKnown ctx.registry with
      | true =>
          rw [structural_eq_parts hparam hformer (hformer ▸ hknown),
            structural_eq_parts (hformer ▸ hparam) hformer.symm hknown, Inferring.verdict_map,
            Inferring.verdict_map, <- hformer]
          exact parts_mirror hkeeps (Ty.parts_length_eq hformer).symm (hparts (Or.inl hformer))
      | false =>
          rw [structural_eq_mismatch_of_unknown htarget hknown,
            structural_eq_mismatch_of_unknown hgiven (hformer ▸ hknown)]
    · rw [structural_eq_mismatch hformer hapart, structural_eq_mismatch (Ne.symm hformer) hapart']

theorem param_mirror (hbounds : ctx.bounds = {}) {index : Nat}
    (hgiven : given.former.isParam = false) :
    (Assign.target ctx direct assign d (.param index false) given).verdict i = some false ∧
      (Assign.target ctx direct assign d given (.param index false)).verdict i = some false := by
  constructor
  · have hother : ¬ (given = .param index true ∨ given = .param index false) := by
      rintro (rfl | rfl) <;> cases hgiven
    rw [Assign.target, Inferring.verdict, fixedParam_outcome hbounds, if_neg hother]
    rfl
  · have hformer : given.former ≠ (Ty.param index false).former := by
      intro hsame
      rw [hsame] at hgiven
      cases hgiven
    rw [target_of_not_param hgiven, structural_eq_mismatch hformer (by simp)]
    rfl

theorem target_mirror (hbounds : ctx.bounds = {}) (htarget : target.former.isPlain = true)
    (hgiven : given.former.isPlain = true)
    (hstructural : target.former.isParam = false -> given.former.isParam = false ->
      (structural ctx assign d target given).verdict i =
        (structural ctx assign d.inverse given target).verdict i) :
    (Assign.target ctx direct assign d target given).verdict i =
      (Assign.target ctx direct assign d.inverse given target).verdict i := by
  cases htargetParam : target.former.isParam with
  | true =>
      rcases Ty.former_eq_param htargetParam with ⟨index, inferring, rfl⟩
      cases inferring with
      | true => cases htarget
      | false =>
          cases hgivenParam : given.former.isParam with
          | true =>
              rcases Ty.former_eq_param hgivenParam with ⟨other, inferring, rfl⟩
              cases inferring with
              | true => cases hgiven
              | false =>
                  rw [Assign.target, Assign.target, Inferring.verdict, Inferring.verdict,
                    fixedParam_outcome hbounds, fixedParam_outcome hbounds]
                  by_cases hsame : other = index
                  · simp [hsame]
                  · simp [hsame, Ne.symm hsame]
          | false =>
              rw [(param_mirror hbounds hgivenParam).left,
                (param_mirror hbounds hgivenParam).right]
  | false =>
      cases hgivenParam : given.former.isParam with
      | true =>
          rcases Ty.former_eq_param hgivenParam with ⟨index, inferring, rfl⟩
          cases inferring with
          | true => cases hgiven
          | false =>
              rw [(param_mirror hbounds htargetParam).left,
                (param_mirror hbounds htargetParam).right]
      | false =>
          rw [target_of_not_param htargetParam, target_of_not_param hgivenParam]
          exact hstructural htargetParam hgivenParam

theorem afterwards_mirror (htarget : target.everywhere Former.isPlain = true)
    (hopened : forall inner, target ≠ .any ->
      given.unbox ctx.module ctx.registry = .inner inner ->
      (assign .toTarget target inner).verdict i = (assign .fromTarget inner target).verdict i) :
    (afterwards ctx assign .toTarget target given).verdict i =
      (afterwards ctx assign .fromTarget given target).verdict i := by
  have hplain := Ty.hasInferring_of_plain htarget
  rw [Inferring.verdict, Inferring.verdict, afterwards_toTarget, afterwards_fromTarget,
    Ty.substitute_eq_self i hplain, hplain]
  by_cases hnever : given = .never
  · rw [if_pos hnever, if_pos hnever]
    rfl
  · rw [if_neg hnever, if_neg hnever]
    by_cases hany : target = .any
    · rw [if_pos hany, if_pos hany]
    · rw [if_neg hany, if_neg hany]
      cases hunbox : given.unbox ctx.module ctx.registry with
      | inner inner => exact hopened inner hany hunbox
      | _ => rfl

end Assign

/-!
## Whole runs
-/

section

variable {ctx : TypeContext} {d : Direction} {target given : Ty}

theorem assign_verdict (depth : Nat) :
    (assign ctx (depth + 1) d target given).verdict .disabled =
      ((assignDirectly ctx depth d target given).verdict .disabled).orAlso
        ((afterwards ctx (assign ctx depth) d target given).verdict .disabled) := by
  rw [Inferring.verdict, assign_outcome, Inferring.verdict]
  cases (assignDirectly ctx depth d target given).outcome .disabled with
  | none => rfl
  | some result =>
      rcases result with ⟨r, j⟩
      cases r <;> rfl

/-- The two directions give the same verdict at every depth, as long as no two bundles
are met that have equally many fields under different names. -/
theorem assign_mirror (hbounds : ctx.bounds = {}) (hstores : ctx.registry.Stores Former.isPlain)
    (htarget : target.everywhere Former.isPlain = true)
    (hgiven : given.everywhere Former.isPlain = true)
    (hclash : forall a b, Meets ctx d target given a b -> ¬ a.Clash b) (depth : Nat) :
    (assign ctx depth d target given).verdict .disabled =
      (assign ctx depth d.inverse given target).verdict .disabled := by
  induction depth using Nat.strongRecOn generalizing d target given with
  | ind depth ih =>
      cases depth with
      | zero => rfl
      | succ depth =>
          have hdirect : (assignDirectly ctx depth d target given).verdict .disabled =
              (assignDirectly ctx depth d.inverse given target).verdict .disabled := by
            cases depth with
            | zero => rfl
            | succ depth =>
                rcases Ty.everywhere_iff.mp htarget with ⟨hhere, hparts⟩
                rcases Ty.everywhere_iff.mp hgiven with ⟨hghere, hgparts⟩
                rw [assignDirectly_unbounded hbounds, assignDirectly_unbounded hbounds]
                apply target_mirror hbounds hhere hghere
                intro hparam _
                refine structural_mirror (fun d t g => assign_keeps (Or.inl rfl) (Or.inl rfl)) hhere
                  hghere hparam (hclash _ _ Meets.here) ?_
                intro halike k v x y hv hx hy
                exact ih depth (by omega) (hparts x (List.mem_of_getElem? hx))
                  (hgparts y (List.mem_of_getElem? hy))
                  fun a b hmeets => hclash a b (Meets.part halike hv hx hy hmeets)
          rw [assign_verdict, assign_verdict, hdirect]
          congr 1
          cases d with
          | toTarget =>
              apply afterwards_mirror htarget
              intro inner hany hunbox
              exact ih depth (by omega) htarget (Ty.everywhere_unbox hstores hgiven hunbox)
                fun a b hmeets => hclash a b (Meets.opened hany hunbox hmeets)
          | fromTarget =>
              apply Eq.symm
              apply afterwards_mirror hgiven
              intro inner hany hunbox
              exact (ih depth (by omega) (Ty.everywhere_unbox hstores htarget hunbox) hgiven
                fun a b hmeets => hclash a b (Meets.fromOpened hany hunbox hmeets)).symm
          | exact => rfl

/-- What one direction accepts the other does not refuse. -/
theorem Derives.mirror_admits {t : Ty} (h : Derives ctx d target given t) :
    Admits ctx d.inverse given target := by
  induction h with
  | param => exact Admits.param _ false
  | @parts d target given results apart former known length _ ih =>
      apply Admits.of_parts (former ▸ apart) former.symm known
      intro k v y x hv hy hx
      have hk : k < results.length := by
        rw [length]
        exact (List.getElem?_eq_some_iff.mp hx).choose
      rw [<- former] at hv
      rw [Direction.inverse_within]
      exact ih k v x y _ hv hx hy (List.getElem?_eq_getElem hk)
  | never => exact Admits.from_never
  | any => exact Admits.from_any
  | opened unboxes _ ih => exact Admits.from_opened unboxes ih
  | fromNever plain => exact Admits.never plain
  | fromAny => exact Admits.any
  | fromOpened unboxes _ ih => exact Admits.opened unboxes ih

/-- Over a registry that stores no parameter being inferred, as every registration
does, the two directions mirror each other: assigning from `a` to `b` and the given type
`a` to the target `b` give the same verdict whenever both are decided. Unless two
bundles are met that have equally many fields under different names, they do so at
every depth, and so the one comes to an end just if the other does. -/
theorem directions_mirror (hbounds : ctx.bounds = {})
    (hstores : ctx.registry.Stores Former.isPlain) {a b : Ty}
    (ha : a.everywhere Former.isPlain = true) (hb : b.everywhere Former.isPlain = true) :
    (forall m n x y, (assign ctx m .fromTarget a b).verdict .disabled = some x ->
      (assign ctx n .toTarget b a).verdict .disabled = some y -> x = y) ∧
    ((forall s t, Meets ctx .fromTarget a b s t -> ¬ s.Clash t) ->
      forall depth, (assign ctx depth .fromTarget a b).verdict .disabled =
        (assign ctx depth .toTarget b a).verdict .disabled) := by
  constructor
  · intro m n x y hx hy
    cases x with
    | true =>
        rcases Inferring.verdict_eq_true.mp hx with ⟨t, i, hrun⟩
        have hadmits := (assign_derives hbounds hstores ha hb hrun).mirror_admits
        exact (hadmits.answer_eq hy).symm
    | false =>
        cases y with
        | true =>
            rcases Inferring.verdict_eq_true.mp hy with ⟨t, i, hrun⟩
            rcases Inferring.verdict_eq_false.mp hx with ⟨e, j, hfail⟩
            have hadmits := (assign_derives hbounds hstores hb ha hrun).mirror_admits
            exact absurd hfail (hadmits m e j)
        | false => rfl
  · exact assign_mirror hbounds hstores ha hb

end

/-- Two bundles of the same names, the fields of the one to be opened or taken by `any`. -/
theorem bundles_mirror :
    let num := Ty.named ⟨"Main", "Num"⟩ []
    let box := fun t => Ty.named ⟨"Main", "Box"⟩ [t]
    let small := Ty.bundle [("x", ⟨1, box (box num)⟩), ("y", ⟨0, .func num num⟩)]
    let big := Ty.bundle [("x", ⟨1, num⟩), ("y", ⟨0, .func (box num) .any⟩)]
    (assign boxContext 9 .fromTarget small big).verdict .disabled = some true ∧
      forall depth, (assign boxContext depth .fromTarget small big).verdict .disabled =
        (assign boxContext depth .toTarget big small).verdict .disabled := by
  intro num box small big
  have hstores : boxContext.registry.Stores Former.isPlain :=
    Registry.stores_of_all (by decide +kernel)
  have hnames : boxContext.registry.Stores (Former.hasNames ["x", "y"]) :=
    Registry.stores_of_all (by decide +kernel)
  have hsmall : small.everywhere Former.isPlain = true := by decide +kernel
  have hbig : big.everywhere Former.isPlain = true := by decide +kernel
  refine ⟨by decide +kernel, (directions_mirror rfl hstores hsmall hbig).right ?_⟩
  intro s t hmeets
  exact hmeets.not_clash hnames (by decide +kernel) (by decide +kernel)

/-!
## A run whose mirror image does not end
-/

def taggedModules : List Source.Module :=
  [{ name := "Main"
     types := [
      .boxed { name := { name := "Wrap" }, params := [{ name := { name := "+T" } }] }
        { inner := some { value := .ref { name := "T" } [] } },
      .boxed { name := { name := "Loop" } }
        { inner := some
            { value := .ref { name := "Wrap" } [{ value := .ref { name := "Loop" } [] }] } },
      .boxed
        { name := { name := "Tag" }
          params := [{ name := { name := "+S" } }, { name := { name := "T" } }] }
        { inner := some { value := .ref { name := "T" } [] } }] }]

def taggedContext : TypeContext :=
  { module := "Main"
    registry := ((Registration.ofModules {} 8 taggedModules).getD {}).registry }

namespace Tagged

def loop : Ty := .named ⟨"Main", "Loop"⟩ []

def wrappedLoop : Ty := .named ⟨"Main", "Wrap"⟩ [loop]

def left : Ty := .bundle [("a", ⟨0, .unit⟩), ("b", ⟨1, .unit⟩)]

def right : Ty := .bundle [("b", ⟨1, loop⟩), ("c", ⟨0, .unit⟩)]

def inner : Ty := .named ⟨"Main", "Tag"⟩ [left, .unit]

def outer : Ty := .named ⟨"Main", "Tag"⟩ [right, inner]

theorem declared : taggedContext.registry.Declared := by
  dsimp only [taggedContext]
  exact Registry.declared_of_clean (by decide +kernel)

theorem loop_undecided (depth : Nat) :
    (assign taggedContext depth .fromTarget loop .unit).verdict .disabled = none ∧
      (assign taggedContext depth .fromTarget wrappedLoop .unit).verdict .disabled = none := by
  have hstep : forall t next depth, t.former ≠ Former.unit -> t.former.isParam = false ->
      t.unbox "Main" taggedContext.registry = .inner next ->
      (assign taggedContext depth .fromTarget next .unit).verdict .disabled = none ->
      (assign taggedContext (depth + 1) .fromTarget t .unit).verdict .disabled = none := by
    intro t next depth hformer hparam hunbox hnext
    cases depth with
    | zero => rfl
    | succ depth =>
        have hnever : t ≠ .never := by
          rintro rfl
          cases hunbox
        rw [assign_verdict, assignDirectly_of_not_param rfl, target_of_not_param hparam,
          structural_eq_mismatch hformer (by simp)]
        show (afterwards taggedContext _ .fromTarget t .unit).verdict .disabled = none
        rw [Inferring.verdict, afterwards_fromTarget, if_neg hnever, if_neg (by simp),
          show t.unbox taggedContext.module taggedContext.registry = .inner next from hunbox]
        exact hnext
  have hloop : loop.unbox "Main" taggedContext.registry = .inner wrappedLoop := by decide +kernel
  have hwrapped : wrappedLoop.unbox "Main" taggedContext.registry = .inner loop := by
    decide +kernel
  induction depth with
  | zero => exact ⟨rfl, rfl⟩
  | succ depth ih =>
      exact ⟨hstep _ _ depth (by simp [loop, Ty.former]) rfl hloop ih.right,
        hstep _ _ depth (by simp [wrappedLoop, Ty.former]) rfl hwrapped ih.left⟩

theorem unit_undecided (depth : Nat) :
    (assign taggedContext depth .toTarget .unit loop).verdict .disabled = none := by
  have hstores : taggedContext.registry.Stores Former.isPlain :=
    Registry.stores_of_all (by decide +kernel)
  have hnames : taggedContext.registry.Stores (Former.hasNames []) :=
    Registry.stores_of_all (by decide +kernel)
  rw [assign_mirror rfl hstores rfl rfl fun a b hmeets => hmeets.not_clash hnames rfl rfl]
  exact (loop_undecided depth).left

theorem undecided_of_structural {d : Direction} {target given : Ty}
    (htarget : target.former.isParam = false) (hgiven : given.former.isParam = false)
    (h : forall depth, (structural taggedContext (assign taggedContext depth) d target
      given).verdict .disabled = none) (depth : Nat) :
    (assign taggedContext depth d target given).verdict .disabled = none := by
  cases depth with
  | zero => rfl
  | succ depth =>
      cases depth with
      | zero => rfl
      | succ depth =>
          rw [assign_verdict, assignDirectly_of_not_param hgiven, target_of_not_param htarget,
            h depth]
          rfl

theorem pair_undecided (depth : Nat) :
    fits taggedContext depth (.tuple [.unit, .unit]) (.tuple [loop, .unit]) = none := by
  refine undecided_of_structural rfl rfl (fun depth => ?_) depth
  have hknown : (Former.tuple 2).isKnown taggedContext.registry = true := rfl
  have hformer : (Ty.tuple [.unit, .unit]).former = (Ty.tuple [loop, .unit]).former := rfl
  rw [structural_eq_parts rfl hformer hknown, Inferring.verdict_map]
  show (parts _ .toTarget [.covariant, .covariant] [.unit, .unit]
    [loop, .unit]).verdict .disabled = none
  rw [parts, Inferring.verdict_pair (assign_keeps (Or.inl rfl) (Or.inl rfl)),
    Direction.within_covariant, unit_undecided]
  rfl

theorem bundles_undecided (depth : Nat) :
    (assign taggedContext depth .fromTarget right left).verdict .disabled = none := by
  refine undecided_of_structural rfl rfl (fun depth => ?_) depth
  have hloop := (loop_undecided depth).left
  rw [Inferring.verdict_eq_none] at hloop ⊢
  simp [structural, fields, right, left, Table.get?, Assigning.ofOption, Inferring.outcome_bind,
    hloop]

theorem tags_undecided {d : Direction} {a b s t : Ty}
    (h : forall depth, (assign taggedContext depth d a b).verdict .disabled = none) (depth : Nat) :
    (assign taggedContext depth d (.named ⟨"Main", "Tag"⟩ [a, s])
      (.named ⟨"Main", "Tag"⟩ [b, t])).verdict .disabled = none := by
  refine undecided_of_structural rfl rfl (fun depth => ?_) depth
  have hpositions : (Former.named ⟨"Main", "Tag"⟩ 2).positions taggedContext.registry =
      [.covariant, .invariant] := by
    decide +kernel
  have hknown : (Former.named ⟨"Main", "Tag"⟩ 2).isKnown taggedContext.registry = true := by
    decide +kernel
  have hformer : (Ty.named ⟨"Main", "Tag"⟩ [a, s]).former =
      (Ty.named ⟨"Main", "Tag"⟩ [b, t]).former := rfl
  rw [structural_eq_parts rfl hformer hknown, Inferring.verdict_map]
  show (parts _ d ((Former.named ⟨"Main", "Tag"⟩ 2).positions taggedContext.registry) [a, s]
    [b, t]).verdict .disabled = none
  rw [hpositions, parts, Inferring.verdict_pair (assign_keeps (Or.inl rfl) (Or.inl rfl)),
    Direction.within_covariant, h]
  rfl

theorem outer_undecided (depth : Nat) :
    (assign taggedContext depth .fromTarget outer inner).verdict .disabled = none :=
  tags_undecided bundles_undecided depth

end Tagged

/-- `Tag[left, unit]` takes `Tag[right, Tag[left, unit]]`: the tags do not match and the
box is opened. In the other direction matching the tags does not end. -/
theorem accepted_with_endless_mirror :
    taggedContext.registry.Declared ∧
      Tagged.inner.isOver taggedContext.registry = true ∧
      Tagged.outer.isOver taggedContext.registry = true ∧
      (assign taggedContext 8 .toTarget Tagged.inner Tagged.outer).outcome .disabled =
        some (.ok Tagged.inner, .disabled) ∧
      forall depth, (assign taggedContext depth .fromTarget Tagged.outer Tagged.inner).outcome
        .disabled = none :=
  ⟨Tagged.declared, by decide +kernel, by decide +kernel, rfl,
    fun depth => Inferring.verdict_eq_none.mp (Tagged.outer_undecided depth)⟩

end TypeChecker
