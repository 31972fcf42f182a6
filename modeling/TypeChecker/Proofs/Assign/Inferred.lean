import TypeChecker.Core
import TypeChecker.Proofs.Assign.Uses
import TypeChecker.Proofs.Unboxing.Endings

/-!
# Inferred type arguments

Assigning to a type with parameters being inferred binds them. A type whose uses of
parameters suit the bindings in the end accepts, with the bindings in place, what it
was inferred from, and what this was assigned as.
-/

namespace TypeChecker

open Assign

/-!
## What a run leaves
-/

def Former.isOpen (registry : Registry) (n : Nat) : Former -> Bool :=
  Former.onParams (fun index inferring => !inferring || decide (index < n))
    (Former.isOver registry)

section

variable {ctx : TypeContext} {d : Direction} {i j : Inference} {t given : Ty}

theorem Ty.isOpen_of_isOver {registry : Registry} (n : Nat) (h : t.isOver registry = true) :
    t.everywhere (Former.isOpen registry n) = true := by
  refine Ty.everywhere_mono ?_ h
  intro f hf
  cases f <;> simp_all [Former.isOpen, Former.onParams, Former.isOver, Former.isKnown]

theorem Registry.stores_isOpen {registry : Registry} (hlawful : registry.Lawful)
    (happlied : registry.FullyApplied) (n : Nat) : registry.Stores (Former.isOpen registry n) := by
  intro name d hd t ht
  have hover : t.isOver registry = true :=
    Ty.isOver_iff.mpr ⟨hlawful.known name d hd t ht, happlied name d hd t ht⟩
  exact Ty.isOpen_of_isOver n hover

/-- However the bindings go on from `j`, a type that suits them stands, with them in
place, to the given type as the direction asks for. -/
def Inference.Meets (ctx : TypeContext) (j : Inference) (d : Direction) (t given : Ty) : Prop :=
  forall final, j.Evolves ctx final -> final.IsOver ctx.registry ->
    final.Suits ctx.registry d t -> d.Holds ctx (final.substitute t) given

/-- What an accepted assignment makes of the inference, and of the given type. -/
structure Inference.Reaches (ctx : TypeContext) (i j : Inference) (d : Direction)
    (t given r : Ty) : Prop where
  evolves : i.Evolves ctx j
  bindingsOver : j.IsOver ctx.registry
  resultOver : r.isOver ctx.registry = true
  meets : j.Meets ctx d t given
  meetsResult : j.Meets ctx d t r

theorem Inference.Reaches.of_meets (hevolves : i.Evolves ctx j) (hover : j.IsOver ctx.registry)
    (hgiven : given.isOver ctx.registry = true) (hmeets : j.Meets ctx d t given) :
    i.Reaches ctx j d t given given :=
  ⟨hevolves, hover, hgiven, hmeets, hmeets⟩

theorem Inference.isOver_substitute {n : Nat} (hi : i.IsOver ctx.registry)
    (ht : t.everywhere (Former.isOpen ctx.registry n) = true)
    (hclosed : (i.substitute t).hasInferring = false) :
    (i.substitute t).isOver ctx.registry = true := by
  have hopen : (i.substitute t).everywhere (Former.isOpen ctx.registry n) = true := by
    rw [<- Former.onParams_self (Former.isOpen ctx.registry n)] at ht
    apply Ty.everywhere_replace ht
    intro index inferring hparam
    cases inferring with
    | false => simpa [Ty.everywhere] using hparam
    | true =>
        cases hslot : i.slot? index with
        | none => simpa [Ty.everywhere, hslot] using hparam
        | some s => exact Ty.isOpen_of_isOver n (hi index s hslot)
  refine Ty.everywhere_mono ?_ (Ty.everywhere_and.mpr ⟨hopen, Ty.anyParam_eq_false.mp hclosed⟩)
  intro f hf
  cases f <;>
    simp_all [Former.isOpen, Former.onParams, Former.isOver, Former.isKnown, Former.isApplied]

theorem Inference.meets_bind {k : Nat} {s : Slot} (hk : k < i.slots.length)
    (hleeway : s.leeway = d.leeway) : (i.bind k s).Meets ctx d (.param k true) s.type := by
  intro final hfinal _ _
  have hbound : (i.bind k s).slot? k = some s := by
    rw [Inference.slot?_bind i hk, if_pos rfl]
  rcases hfinal.slot k s hbound with ⟨last, hlast, _, hholds⟩
  rw [Inference.substitute_param hlast]
  rw [hleeway, Direction.direction_leeway] at hholds
  exact hholds

theorem Inference.meets_of_parts (hparam : t.former.isParam = false)
    (hformer : t.former = given.former)
    (h : forall (k : Nat) v s g, (t.former.positions ctx.registry)[k]? = some v ->
      t.parts[k]? = some s -> given.parts[k]? = some g -> j.Meets ctx (d.within v) s g) :
    j.Meets ctx d t given := by
  intro final hfinal hfinalOver hsuits
  have hsame : (final.substitute t).former = t.former := Ty.former_replace hparam
  apply Direction.holds_of_parts (hsame.trans hformer)
  intro m v s g hv hs hg
  rw [hsame] at hv
  rw [Inference.substitute, Ty.parts_replace hparam, List.getElem?_map] at hs
  rcases Option.map_eq_some_iff.mp hs with ⟨part, hpart, rfl⟩
  exact h m v part g hv hpart hg final hfinal hfinalOver
    fun k used s huse => hsuits k used s (Ty.Uses.part hv hpart huse)

def Assign.Reaching (ctx : TypeContext) (n : Nat) (assign : Assigner) : Prop :=
  forall ⦃d t given r i j⦄, i.slots.length = n -> i.IsOver ctx.registry ->
    t.everywhere (Former.isOpen ctx.registry n) = true -> given.isOver ctx.registry = true ->
    (assign d t given).outcome i = some (.ok r, j) -> i.Reaches ctx j d t given r

variable {n : Nat} {recurse : Assigner} {r : Ty} (hbounds : ctx.bounds = {})
  (hlawful : ctx.registry.Lawful) (happlied : ctx.registry.FullyApplied)
  (hlen : i.slots.length = n) (hi : i.IsOver ctx.registry)

include hlawful happlied

/-!
## Parameters being inferred
-/

theorem Inference.meets_param {k : Nat} {slot : Slot} (hslot : j.slot? k = some slot)
    (hfull : slot.type.everywhere (Former.isApplied ctx.registry) = true)
    (hmatched : d.Holds ctx slot.type given) : j.Meets ctx d (.param k true) given := by
  intro final hfinal _ hsuits
  rcases hfinal.slot k slot hslot with ⟨last, hlast, hleeway, hholds⟩
  rw [Inference.substitute_param hlast]
  rcases hsuits k d last (Ty.Uses.here d k) hlast with hfixed | hown
  · rw [<- hleeway, hfixed] at hholds
    rcases hholds with ⟨_, hsame⟩
    rw [show last.type = slot.type from hsame]
    exact hmatched
  · rw [<- hleeway, hown, Direction.direction_leeway] at hholds
    exact hholds.trans hlawful happlied hfull hmatched

include hbounds hlen hi

omit hbounds hlawful happlied in
theorem binding_reaches {depth : Nat} {s : Ty} (hs : s.isOver ctx.registry = true)
    (hrecurse : Reaching ctx n (assign ctx (depth + 1))) (hgiven : given.isOver ctx.registry = true)
    (h : (assignDirectly ctx depth d s given).outcome i = some (.ok r, j)) :
    r.isOver ctx.registry = true ∧ d.Holds ctx s given ∧ d.Holds ctx s r := by
  have hrun : (assign ctx (depth + 1) d s given).outcome i = some (.ok r, j) := by
    rw [assign_outcome, h]
  have hreached := hrecurse hlen hi (Ty.isOpen_of_isOver n hs) hgiven hrun
  have hplain := Ty.hasInferring_eq_false (Ty.isOver_iff.mp hs).left
  have hmet : forall {g}, j.Meets ctx d s g -> d.Holds ctx s g := by
    intro g hmeets
    have hholds := hmeets j (Inference.Evolves.refl j) hreached.bindingsOver
      (Inference.Suits.of_plain hplain)
    rwa [Ty.substitute_eq_self j hplain] at hholds
  exact ⟨hreached.resultOver, hmet hreached.meets, hmet hreached.meetsResult⟩

/-- A parameter being inferred reaches what is asked of it: its first use decides its
leeway, later ones match its binding or adjust it. -/
theorem inferredParam_reaches {depth k : Nat} (hk : k < n)
    (hrecurse : Reaching ctx n (assign ctx (depth + 1))) (hgiven : given.isOver ctx.registry = true)
    (h : (inferredParam (assignDirectly ctx depth) (assign ctx depth) d k given).outcome i =
      some (.ok r, j)) : i.Reaches ctx j d (.param k true) given r := by
  have hplain := TypeContext.plain_of_lawful hlawful hbounds
  have hk : k < i.slots.length := by
    rw [hlen]
    exact hk
  cases inferredParam_infers h with
  | bound hnone =>
      have hevolves : i.Evolves ctx (i.bind k { type := given, leeway := d.leeway }) := by
        apply Inference.evolves_bind hk
        intro s hs
        rw [hnone] at hs
        cases hs
      exact .of_meets hevolves (Inference.isOver_bind hk hi hgiven) hgiven
        (Inference.meets_bind hk rfl)
  | @matched slot _ _ hslot hmatch =>
      have hslotOver := hi k slot hslot
      rcases Ty.isOver_iff.mp hslotOver with ⟨hslotKnown, hslotApplied⟩
      have hbinds : slot.type.BindsNothing i := Or.inr (Ty.hasInferring_eq_false hslotKnown)
      rcases binding_reaches hlen hi hslotOver hrecurse hgiven hmatch with
        ⟨hresult, hgivenHolds, hresultHolds⟩
      have hsame := (assignDirectly_keeps (Or.inr hplain) hbinds).eq hmatch
      subst hsame
      exact ⟨Inference.Evolves.refl j, hi, hresult,
        Inference.meets_param hlawful happlied hslot hslotApplied hgivenHolds,
        Inference.meets_param hlawful happlied hslot hslotApplied hresultHolds⟩
  | @adjusted slot e s i₁ i₂ hslot hrefused hadjusts hassign =>
      rcases adjusted_evolves hbounds hlawful hi hgiven hslot hrefused hadjusts hassign with
        ⟨rfl, hevolves⟩
      exact .of_meets hevolves (Inference.isOver_bind hk hi hgiven) hgiven
        (Inference.meets_bind hk (Direction.leeway_of_adjusts hadjusts))

/-!
## Matches by structure, and resorts
-/

omit hbounds

theorem parts_reaches (hrecurse : Reaching ctx n recurse) {vs : List Variance}
    {ts gs rs : List Ty}
    (hts : forall t, t ∈ ts -> t.everywhere (Former.isOpen ctx.registry n) = true)
    (hgs : forall g, g ∈ gs -> g.isOver ctx.registry = true)
    (h : (Assign.parts recurse d vs ts gs).outcome i = some (.ok rs, j)) :
    i.Evolves ctx j ∧ j.IsOver ctx.registry ∧ (forall r, r ∈ rs -> r.isOver ctx.registry = true) ∧
      forall (k : Nat) v t, vs[k]? = some v -> ts[k]? = some t ->
        (forall g, gs[k]? = some g -> j.Meets ctx (d.within v) t g) ∧
          forall r, rs[k]? = some r -> j.Meets ctx (d.within v) t r := by
  induction ts generalizing vs gs rs i with
  | nil =>
      cases gs with
      | nil =>
          cases vs <;> cases h <;>
            exact ⟨Inference.Evolves.refl _, hi, by simp, by simp⟩
      | cons g gs => cases vs <;> cases h
  | cons t ts ih =>
      cases vs with
      | nil => cases gs <;> cases h
      | cons v vs =>
          cases gs with
          | nil => cases h
          | cons g gs =>
              rcases List.forall_mem_cons.mp hts with ⟨ht, hts⟩
              rcases List.forall_mem_cons.mp hgs with ⟨hg, hgs⟩
              simp only [Assign.parts] at h
              rcases Inferring.outcome_bind_ok.mp h with ⟨first, i₁, hfirst, h⟩
              rcases Inferring.outcome_bind_ok.mp h with ⟨rest, i₂, hrest, h⟩
              cases h
              have hreached := hrecurse hlen hi ht hg hfirst
              rcases ih (hreached.evolves.arity.trans hlen) hreached.bindingsOver hts hgs
                hrest with ⟨hevolves, hover, hresults, hmeets⟩
              have hlater : forall {s}, i₁.Meets ctx (d.within v) t s ->
                  j.Meets ctx (d.within v) t s :=
                fun hmeets final hfinal =>
                  hmeets final (hevolves.trans hlawful happlied hover hfinal)
              refine ⟨hreached.evolves.trans hlawful happlied hreached.bindingsOver hevolves,
                hover, List.forall_mem_cons.mpr ⟨hreached.resultOver, hresults⟩, ?_⟩
              intro k v' t' hv ht
              cases k with
              | zero =>
                  cases hv
                  cases ht
                  constructor
                  · intro g' hg
                    cases hg
                    exact hlater hreached.meets
                  · intro r hr
                    cases hr
                    exact hlater hreached.meetsResult
              | succ k => exact hmeets k v' t' hv ht

theorem structural_reaches (hrecurse : Reaching ctx n recurse) (hparam : t.former.isParam = false)
    (ht : t.everywhere (Former.isOpen ctx.registry n) = true)
    (hgiven : given.isOver ctx.registry = true)
    (h : (structural ctx recurse d t given).outcome i = some (.ok r, j)) :
    i.Reaches ctx j d t given r := by
  rcases Ty.everywhere_iff.mp ht with ⟨hhere, hparts⟩
  rcases Ty.everywhere_iff.mp hgiven with ⟨hghere, hgparts⟩
  rw [Former.isOpen, Former.onParams_of_not_param hparam] at hhere
  have hknown := ((Bool.and_eq_true _ _).mp hhere).left
  have hgknown := ((Bool.and_eq_true _ _).mp hghere).left
  rcases structural_parts_ok hknown hgknown h with ⟨hformer, results, hrun, rfl⟩
  rcases parts_reaches hlawful happlied hlen hi hrecurse hparts hgparts hrun with
    ⟨hevolves, hover, hresults, hmeets⟩
  have hcount := (parts_ok hrun).left
  have hbuilt := Former.former_build hcount
  have hbuiltParts := Former.parts_build hcount
  refine ⟨hevolves, hover, ?_, ?_, ?_⟩
  · apply Ty.everywhere_iff.mpr
    rw [hbuilt, hbuiltParts]
    exact ⟨hhere, hresults⟩
  · apply Inference.meets_of_parts hparam hformer
    intro m v s g hv hs hg
    exact (hmeets m v s hv hs).left g hg
  · apply Inference.meets_of_parts hparam hbuilt.symm
    intro m v s g hv hs hg
    rw [hbuiltParts] at hg
    exact (hmeets m v s hv hs).right g hg

omit hlen hi in
theorem Inference.meets_opened {inner : Ty}
    (ht : t.everywhere (Former.isOpen ctx.registry n) = true)
    (hunbox : t.unbox ctx.module ctx.registry = .inner inner)
    (h : j.Meets ctx .fromTarget inner given) : j.Meets ctx .fromTarget t given := by
  have hfull : t.former.isApplied ctx.registry = true := by
    have hhere := (Ty.everywhere_iff.mp ht).left
    rcases Ty.unbox_inner hunbox with ⟨name, args, _, _, rfl, _⟩
    rw [Former.isOpen, Former.onParams_of_not_param rfl, Former.isOver,
      Bool.and_eq_true] at hhere
    exact hhere.right
  intro final hfinal hfinalOver hsuits
  rcases h final hfinal hfinalOver (hsuits.unbox hlawful happlied hfull hunbox) with ⟨m, hm⟩
  exact ⟨m + 1, Below.opened (Inference.unbox_substitute hlawful hfull hunbox) hm⟩

theorem resorts_reaches (hrecurse : Reaching ctx n recurse)
    (ht : t.everywhere (Former.isOpen ctx.registry n) = true)
    (hgiven : given.isOver ctx.registry = true) (h : Resorts ctx recurse i d t given r j) :
    i.Reaches ctx j d t given r := by
  have hstays : i.Evolves ctx i := Inference.Evolves.refl i
  cases h with
  | never hclosed =>
      exact ⟨hstays, hi, Inference.isOver_substitute hi ht hclosed,
        fun _ _ _ _ => ⟨0, Below.never 0 _⟩,
        fun final hfinal _ hsuits => hfinal.holds_substitute hsuits hclosed⟩
  | any =>
      exact ⟨hstays, hi, rfl, fun _ _ _ _ => ⟨0, Below.any 0 _⟩,
        fun _ _ _ _ => ⟨0, Below.any 0 _⟩⟩
  | @opened _ _ inner _ _ hunbox hrun =>
      rcases Ty.isOver_iff.mp hgiven with ⟨hknown, hfull⟩
      have hinner : inner.isOver ctx.registry = true :=
        Ty.isOver_iff.mpr ⟨Ty.everywhere_unbox hlawful.known hknown hunbox,
          Ty.everywhere_unbox happlied hfull hunbox⟩
      have hreached := hrecurse hlen hi ht hinner hrun
      refine { hreached with meets := ?_ }
      intro final hfinal hfinalOver hsuits
      rcases hreached.meets final hfinal hfinalOver hsuits with ⟨m, hm⟩
      exact ⟨m + 1, Below.opened hunbox hm⟩
  | fromNever => exact .of_meets hstays hi hgiven fun _ _ _ _ => ⟨0, Below.never 0 _⟩
  | fromAny => exact .of_meets hstays hi hgiven fun _ _ _ _ => ⟨0, Below.any 0 _⟩
  | @fromOpened _ _ inner _ _ hunbox hrun =>
      have hinner : inner.everywhere (Former.isOpen ctx.registry n) = true :=
        Ty.everywhere_unbox (Registry.stores_isOpen hlawful happlied n) ht hunbox
      have hreached := hrecurse hlen hi hinner hgiven hrun
      exact { hreached with
        meets := Inference.meets_opened hlawful happlied ht hunbox hreached.meets
        meetsResult := Inference.meets_opened hlawful happlied ht hunbox hreached.meetsResult }

omit hlen hi
include hbounds

/-- An accepted assignment leaves bindings that meet it as long as it suits them. -/
theorem assign_reaches (n depth : Nat) : Reaching ctx n (assign ctx depth) := by
  -- Parts are assigned two levels down, but a binding is matched by the direct match one
  -- level down, and so by a whole assignment at the depth right below.
  induction depth using Nat.strongRecOn with
  | ind depth ih =>
      intro d t given r i j hlen hi ht hgiven h
      rcases assign_ok h with ⟨smaller, rfl, hdirect | hafter⟩
      · cases smaller with
        | zero => cases hdirect
        | succ depth =>
            rw [assignDirectly_unbounded hbounds] at hdirect
            cases hparam : t.former.isParam with
            | true =>
                rcases Ty.former_eq_param hparam with ⟨index, inferring, rfl⟩
                cases inferring with
                | true =>
                    have hindex : index < n := by
                      simpa [Former.isOpen, Former.onParams, Ty.former] using
                        (Ty.everywhere_iff.mp ht).left
                    exact inferredParam_reaches hbounds hlawful happlied hlen hi hindex
                      (ih (depth + 1) (by omega)) hgiven hdirect
                | false =>
                    have hknown := (Ty.everywhere_iff.mp (Ty.isOver_iff.mp hgiven).left).left
                    have hfixed : given ≠ .param index true := by
                      rintro rfl
                      cases hknown
                    rcases fixedParam_unbounded_ok hbounds hfixed hdirect with ⟨rfl, rfl, rfl⟩
                    exact .of_meets (Inference.Evolves.refl i) hi hgiven
                      fun _ _ _ _ => Direction.holds_self d _
            | false =>
                rw [target_of_not_param hparam] at hdirect
                exact structural_reaches hlawful happlied hlen hi (ih depth (by omega)) hparam ht
                  hgiven hdirect
      · exact resorts_reaches hlawful happlied hlen hi (ih smaller (by omega)) ht hgiven
          (afterwards_ok hafter)

end

/-!
## Inference from one type
-/

section

variable {ctx : TypeContext} {pattern : Ty} {params : List Param} {bounds : Bounds}

theorem Inference.isOver_start (registry : Registry) (params : List Param) (bounds : Bounds) :
    (Inference.start params bounds).IsOver registry := by
  intro k s hs
  rw [Inference.slot?, Option.join_eq_some_iff] at hs
  rcases List.mem_map.mp (List.mem_of_getElem? hs) with ⟨_, _, hnone⟩
  cases hnone

theorem Ty.everywhere_toInferring {registry : Registry} {n : Nat}
    (hpattern : pattern.isOver registry = true)
    (hindices : pattern.anyParam (fun index _ => decide (n ≤ index)) = false) :
    pattern.toInferring.everywhere (Former.isOpen registry n) = true := by
  have hboth := Ty.everywhere_and.mpr ⟨hpattern, Ty.anyParam_eq_false.mp hindices⟩
  have hopen : pattern.everywhere
      (Former.onParams (fun index _ => decide (index < n)) (Former.isOpen registry n)) = true := by
    refine Ty.everywhere_mono ?_ hboth
    intro f hf
    cases f <;> simp_all [Former.isOpen, Former.onParams]
  apply Ty.everywhere_replace hopen
  intro index inferring hindex
  simpa [Ty.everywhere, Former.isOpen, Former.onParams] using hindex

theorem Ty.toInferring_eq {n : Nat}
    (hindices : pattern.anyParam (fun index _ => decide (n ≤ index)) = false) :
    pattern.toInferring = pattern.instantiate ((List.range n).map fun k => .param k true) := by
  apply Ty.replace_congr (Ty.anyParam_eq_false.mp hindices)
  intro index inferring hindex
  have hlt : index < n := by simpa using hindex
  simp [hlt]

theorem Inference.substitute_toInferring {i : Inference} {args : List Ty}
    (hbound : pattern.anyParam (fun index _ => (i.slot? index).isNone) = false)
    (hargs : forall k s, i.slot? k = some s -> args[k]? = some s.type) :
    i.substitute pattern.toInferring = pattern.instantiate args := by
  unfold Inference.substitute Ty.toInferring Ty.instantiate
  rw [Ty.replace_replace]
  apply Ty.replace_congr (Ty.anyParam_eq_false.mp hbound)
  intro index inferring hindex
  cases hslot : i.slot? index with
  | none => simp [hslot] at hindex
  | some s => simp [Ty.replace, hslot, hargs index s hslot]

theorem Inference.everywhere_substitute {registry : Registry} {i : Inference}
    (hi : i.IsOver registry) (hpattern : pattern.isOver registry = true)
    (hbound : pattern.anyParam (fun index _ => (i.slot? index).isNone) = false) :
    (i.substitute pattern.toInferring).everywhere (Former.isKnown registry) = true := by
  unfold Inference.substitute Ty.toInferring
  rw [Ty.replace_replace]
  have hboth := Ty.everywhere_and.mpr ⟨hpattern, Ty.anyParam_eq_false.mp hbound⟩
  have hready : pattern.everywhere
      (Former.onParams (fun index _ => (i.slot? index).isSome) (Former.isKnown registry)) =
        true := by
    refine Ty.everywhere_mono ?_ hboth
    intro f hf
    cases f <;> simp_all [Former.isOver, Former.onParams]
  apply Ty.everywhere_replace hready
  intro index inferring hindex
  rcases Option.isSome_iff_exists.mp hindex with ⟨s, hs⟩
  simpa [Ty.replace, hs] using (Ty.isOver_iff.mp (hi index s hs)).left

/-- Inference is sound for parameters that are fixed by their first use, or used only in
the direction of it: what a type was inferred from is not refused with the bindings in
place, and is accepted if its matches come to an end. -/
theorem inferred_bindings_accept (hdeclared : ctx.registry.Declared)
    (happlied : ctx.registry.FullyApplied) (hbounds : ctx.bounds = {}) {given : Ty}
    (hpattern : pattern.isOver ctx.registry = true)
    (hindices : pattern.anyParam (fun index _ => decide (params.length ≤ index)) = false)
    (hgiven : given.isOver ctx.registry = true) {depth : Nat} {t : Ty} {i : Inference}
    (hrun : (assign ctx depth .toTarget pattern.toInferring given).outcome
      (.start params bounds) = some (.ok t, i))
    (hbound : pattern.anyParam (fun index _ => (i.slot? index).isNone) = false)
    (huses : forall k s, i.slot? k = some s -> s.leeway = .fixed ∨
      s.leeway = (Direction.ofVariance
        ((Variance.usage ctx.registry params.length pattern).getD k .bivariant)).leeway)
    {args : List Ty} (hargs : forall k s, i.slot? k = some s -> args[k]? = some s.type) :
    (forall depth answer, fits ctx depth (pattern.instantiate args) given = some answer ->
      answer = true) ∧
    (ctx.Concludes (pattern.instantiate args) given ->
      exists enough, forall n, enough ≤ n ->
        fits ctx n (pattern.instantiate args) given = some true) := by
  have hlawful := hdeclared.lawful
  rcases Ty.isOver_iff.mp hpattern with ⟨hknown, hfull⟩
  have hlen : (Inference.start params bounds).slots.length = params.length := List.length_map _
  have hreached := assign_reaches hbounds hlawful happlied params.length depth hlen
    (Inference.isOver_start ctx.registry params bounds)
    (Ty.everywhere_toInferring hpattern hindices) hgiven hrun
  have hsuits : i.Suits ctx.registry .toTarget pattern.toInferring := by
    rw [Ty.toInferring_eq hindices]
    have hmarks : ((List.range params.length).map fun k => Ty.param k true).length =
        params.length := by simp
    refine Inference.Suits.instantiate hlawful.signed (Ty.hasInferring_eq_false hknown) hfull
      hmarks ?_
    intro index arg harg
    right
    have hindex : index < params.length := hmarks ▸ (List.getElem?_eq_some_iff.mp harg).choose
    have hmark : ((List.range params.length).map fun k => Ty.param k true)[index]? =
        some (.param index true) := by simp [hindex]
    cases hmark.symm.trans harg
    exact Inference.Suits.param (huses index)
  have hholds := hreached.meets i (Inference.Evolves.refl i) hreached.bindingsOver hsuits
  have hadmits := hholds.admits hlawful.known
    (Inference.everywhere_substitute hreached.bindingsOver hpattern hbound)
    (Ty.isOver_iff.mp hgiven).left
  rw [Inference.substitute_toInferring hbound hargs] at hadmits
  exact ⟨fun depth answer hanswer => hadmits.answer_eq hanswer, hadmits.fits_of_concludes⟩

end

def aliasModules : List Source.Module :=
  [Core.module,
    { name := "Main"
      types := [.boxed { name := { name := "N" } }
        { inner := some { value := .ref { name := "Int" } [] } }] }]

def aliasContext : TypeContext :=
  { module := "Main"
    registry := ((Registration.ofModules {} 8 aliasModules).getD {}).registry }

theorem aliasContext_declared : aliasContext.registry.Declared := by
  dsimp only [aliasContext]
  exact Registry.declared_of_clean (by decide +kernel)

theorem aliasContext_applied : aliasContext.registry.FullyApplied :=
  Registry.stores_of_all (by decide +kernel)

/-- A parameter that two values widen from `N` to `Int`. -/
theorem widened_pair_accepts :
    let n := Ty.named ⟨"Main", "N"⟩ []
    let pattern := Ty.tuple [.param 0 false, .param 0 false]
    let given := Ty.tuple [n, Ty.core "Int"]
    (assign aliasContext 12 .toTarget pattern.toInferring given).outcome
        (.start [{ name := "T", variance := .invariant }] {}) =
      some (.ok given,
        { enabled := true
          params := [{ name := "T", variance := .invariant }]
          slots := [some { type := Ty.core "Int", leeway := .mayGrow }] }) ∧
    exists enough, forall n, enough ≤ n ->
      fits aliasContext n (pattern.instantiate [Ty.core "Int"]) given = some true := by
  have heval : (assign aliasContext 12 .toTarget
      (Ty.tuple [.param 0 false, .param 0 false]).toInferring
      (.tuple [.named ⟨"Main", "N"⟩ [], Ty.core "Int"])).outcome
        (.start [{ name := "T", variance := .invariant }] {}) =
      some (.ok (.tuple [.named ⟨"Main", "N"⟩ [], Ty.core "Int"]),
        { enabled := true
          params := [{ name := "T", variance := .invariant }]
          slots := [some { type := Ty.core "Int", leeway := .mayGrow }] }) ∧
      (Ty.tuple [.named ⟨"Main", "N"⟩ [], Ty.core "Int"]).isOver aliasContext.registry = true ∧
      ((assignDirectly aliasContext 12 .toTarget (.tuple [Ty.core "Int", Ty.core "Int"])
        (.tuple [.named ⟨"Main", "N"⟩ [], Ty.core "Int"])).outcome .disabled).isSome = true := by
    decide +kernel
  rcases heval with ⟨hrun, hgiven, hdirect⟩
  refine ⟨hrun, ?_⟩
  refine (inferred_bindings_accept aliasContext_declared aliasContext_applied rfl rfl rfl hgiven
    hrun rfl ?_ ?_).right (TypeContext.Concludes.of_closed rfl hdirect)
  · intro k s hs
    cases k with
    | zero =>
        cases hs
        right
        rfl
    | succ k => cases hs
  · intro k s hs
    cases k with
    | zero =>
        cases hs
        rfl
    | succ k => cases hs

/-- A binding that grows after its parameter was used the other way no longer meets that
use: `N -> unit` was accepted for `T -> unit` while `T` was `N`, and is not once `T` has
become `Int`. -/
theorem grown_binding_breaks_use :
    let n := Ty.named ⟨"Main", "N"⟩ []
    let pattern := Ty.tuple [.param 0 false, .func (.param 0 false) .unit, .param 0 false]
    let given := Ty.tuple [n, .func n .unit, Ty.core "Int"]
    (assign aliasContext 12 .toTarget pattern.toInferring given).outcome
        (.start [{ name := "T", variance := .invariant }] {}) =
      some (.ok given,
        { enabled := true
          params := [{ name := "T", variance := .invariant }]
          slots := [some { type := Ty.core "Int", leeway := .mayGrow }] }) ∧
    fits aliasContext 12 (pattern.instantiate [Ty.core "Int"]) given = some false := by
  decide +kernel

end TypeChecker
