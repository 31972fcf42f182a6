import TypeChecker.Checking.Branching
import TypeChecker.Proofs.Assign.Admission
import TypeChecker.Proofs.Assign.Depth
import TypeChecker.Proofs.Assign.Steps
import TypeChecker.Proofs.Registry.Registered
import TypeChecker.Proofs.Unboxing.Chains

/-!
# Openings that end

Registration takes out boxes that hold each other in a circle. What is left can still open
without end, since a box around a parameter opens to whatever it is applied to: `Some[B]`
opens to `B`, which may be a box around `Some[B]`. This module relates the ends of all
openings to the boxes that come back to themselves, and proves that the rules that look
through boxes answer where the openings end.
-/

namespace TypeChecker

open Relation

namespace Registry

open Ty

variable {sight : Sight} {registry : Registry}

/-!
## What taking out circles achieves

The chain from a box to the type it directly holds, and so on, comes back to no box once
the circles are taken out. Only a box that holds a parameter leads elsewhere.
-/

theorem innerName?_of_opens {name other : Symbol} {as bs : List Ty}
    (hplain : forall d boxed, Table.get? registry name = some d -> d.boxed? = some boxed ->
      boxed.inner.former.isParam = false)
    (h : Opens sight registry (.named other bs) (.named name as)) :
    innerName? registry name = some other := by
  rcases inside?_eq_some.mp h with ⟨_, _, d, boxed, heq, hd, hboxed, _, hinner⟩
  cases heq
  have hformer : boxed.inner.former = .named other bs.length := by
    rw [<- former_replace (hplain d boxed hd hboxed)]
    exact (congrArg former hinner).symm
  cases hheld : boxed.inner with
  | named held cs =>
      rw [hheld] at hformer
      rcases Former.named.inj hformer with ⟨rfl, _⟩
      simp [innerName?, hd, hboxed, hheld, named?]
  | _ =>
      rw [hheld] at hformer
      cases hformer

theorem follow_of_reached {t s : Ty} (hreached : TransGen (Opens sight registry) s t)
    (hplain : forall name args d boxed,
      ReflTransGen (Opens sight registry) (.named name args) t ->
      Table.get? registry name = some d -> d.boxed? = some boxed ->
      boxed.inner.former.isParam = false)
    {name other : Symbol} {as bs : List Ty} (ht : t = .named name as) (hs : s = .named other bs) :
    exists n, 0 < n ∧ follow registry n name = some other := by
  induction hreached generalizing name as with
  | single hopens =>
      subst ht hs
      have hnext := innerName?_of_opens
        (fun d boxed => hplain name as d boxed ReflTransGen.refl) hopens
      exact ⟨1, Nat.one_pos, by simp [follow, hnext]⟩
  | @tail middle t hbefore hopens ih =>
      subst ht
      rcases TransGen.tail'_iff.mp hbefore with ⟨shown, _, hshown⟩
      rcases inside?_eq_some.mp hshown with ⟨between, cs, _, _, rfl, _⟩
      have hnext := innerName?_of_opens
        (fun d boxed => hplain name as d boxed ReflTransGen.refl) hopens
      rcases ih (fun name args d boxed hlater =>
        hplain name args d boxed (hlater.tail hopens)) rfl with ⟨n, hn, hfollow⟩
      exact ⟨n + 1, Nat.succ_pos n, by rw [follow, hnext, Option.bind_some, hfollow]⟩

/-- Without circles, a box comes back to itself only by way of a box that holds one of
its parameters. -/
theorem Returns.exists_holding_param
    (hcircles : forall n name, 0 < n -> follow registry n name ≠ some name) {name : Symbol}
    {arity : Nat} (h : registry.Returns sight name arity) :
    exists other args d boxed,
      ReflTransGen (Opens sight registry) (.named other args) (generic name arity) ∧
        Table.get? registry other = some d ∧ d.boxed? = some boxed ∧
        boxed.inner.former.isParam = true := by
  by_contra hnone
  rcases h with ⟨args, _, hreached⟩
  have hplain : forall other args d boxed,
      ReflTransGen (Opens sight registry) (.named other args) (generic name arity) ->
      Table.get? registry other = some d -> d.boxed? = some boxed ->
      boxed.inner.former.isParam = false := by
    intro other args d boxed hlater hd hboxed
    rw [Bool.eq_false_iff]
    exact fun hparam => hnone ⟨other, args, d, boxed, hlater, hd, hboxed, hparam⟩
  rcases follow_of_reached hreached hplain rfl rfl with ⟨n, hn, hback⟩
  exact hcircles n name hn hback

/-!
## A condition that can be checked

No box comes back to itself if the boxes can be numbered such that each one meets only
boxes of smaller numbers, all arguments of a box counting as met.
-/

def isBox (registry : Registry) (name : Symbol) : Bool :=
  ((Table.get? registry name).bind Declaration.boxed?).isSome

end Registry

namespace Ty

mutual

def meetsOnly (boxes p : Symbol -> Bool) : Ty -> Bool
  | .named name args => !boxes name || (p name && meetsOnlyList boxes p args)
  | _ => true

def meetsOnlyList (boxes p : Symbol -> Bool) : List Ty -> Bool
  | [] => true
  | t :: rest => meetsOnly boxes p t && meetsOnlyList boxes p rest

end

variable {boxes p : Symbol -> Bool}

theorem meetsOnlyList_eq (ts : List Ty) :
    meetsOnlyList boxes p ts = ts.all (meetsOnly boxes p) := by
  induction ts with
  | nil => rfl
  | cons t ts ih => rw [meetsOnlyList, ih, List.all_cons]

theorem meetsOnly_named {name : Symbol} {args : List Ty} (hbox : boxes name = true) :
    (Ty.named name args).meetsOnly boxes p = true ↔
      p name = true ∧ forall arg, arg ∈ args -> arg.meetsOnly boxes p = true := by
  rw [meetsOnly, meetsOnlyList_eq, hbox]
  simp

theorem meetsOnly_mono {q : Symbol -> Bool} (hpq : forall name, p name = true -> q name = true)
    {t : Ty} (ht : t.meetsOnly boxes p = true) : t.meetsOnly boxes q = true := by
  induction t using induction_parts with
  | step t ih =>
      cases t with
      | named name args =>
          cases hbox : boxes name with
          | false => rw [meetsOnly, hbox]; rfl
          | true =>
              rcases (meetsOnly_named hbox).mp ht with ⟨hname, hargs⟩
              exact (meetsOnly_named hbox).mpr
                ⟨hpq name hname, fun arg harg => ih arg harg (hargs arg harg)⟩
      | _ => rfl

theorem meetsOnly_replace {choose : Nat -> Bool -> Option Ty} {t : Ty}
    (ht : t.meetsOnly boxes p = true)
    (hchoose : forall index inferring s, choose index inferring = some s ->
      s.meetsOnly boxes p = true) : (t.replace choose).meetsOnly boxes p = true := by
  induction t using induction_parts with
  | step t ih =>
      cases t with
      | named name args =>
          rw [replace, replaceList_eq]
          cases hbox : boxes name with
          | false => rw [meetsOnly, hbox]; rfl
          | true =>
              rcases (meetsOnly_named hbox).mp ht with ⟨hname, hargs⟩
              refine (meetsOnly_named hbox).mpr ⟨hname, ?_⟩
              intro arg harg
              rcases List.mem_map.mp harg with ⟨part, hpart, rfl⟩
              exact ih part hpart (hargs part hpart)
      | param index inferring =>
          rw [replace]
          cases hchosen : choose index inferring with
          | none => rfl
          | some s => exact hchoose index inferring s hchosen
      | _ => rfl

end Ty

namespace Registry

open Ty

variable {sight : Sight} {registry : Registry}

def Ranked (registry : Registry) (rank : Symbol -> Nat) : Prop :=
  forall name d boxed, Table.get? registry name = some d -> d.boxed? = some boxed ->
    forall t, t ∈ boxed.inner :: d.defaults.map Prod.snd ->
      t.meetsOnly registry.isBox (fun met => Nat.blt (rank met) (rank name)) = true

theorem ranked_of_all {rank : Symbol -> Nat}
    (h : registry.all (fun item => item.2.boxed?.all fun boxed =>
      (boxed.inner :: item.2.defaults.map Prod.snd).all fun t =>
        t.meetsOnly registry.isBox fun met => Nat.blt (rank met) (rank item.1)) = true) :
    registry.Ranked rank := by
  intro name d boxed hd hboxed t ht
  have hentry := List.all_eq_true.mp h _ (Table.mem_of_get? hd)
  rw [hboxed] at hentry
  exact List.all_eq_true.mp hentry t ht

theorem isBox_of_opens {inner : Ty} {name : Symbol} {args : List Ty}
    (h : Opens sight registry inner (.named name args)) : registry.isBox name = true := by
  rcases inside?_eq_some.mp h with ⟨_, _, d, boxed, heq, hd, hboxed, _, _⟩
  cases heq
  simp [isBox, hd, hboxed]

section

variable {rank : Symbol -> Nat} (h : registry.Ranked rank)

include h

theorem Ranked.meetsOnly_inner {n : Nat} {inner : Ty} {name : Symbol} {args : List Ty}
    (hname : rank name ≤ n)
    (hargs : forall arg, arg ∈ args ->
      arg.meetsOnly registry.isBox (fun met => Nat.blt (rank met) n) = true)
    (hopens : Opens sight registry inner (.named name args)) :
    inner.meetsOnly registry.isBox (fun met => Nat.blt (rank met) n) = true := by
  rcases inside?_eq_some.mp hopens with ⟨_, _, d, boxed, heq, hd, hboxed, _, rfl⟩
  cases heq
  have hstored : forall t, t ∈ boxed.inner :: d.defaults.map Prod.snd ->
      t.meetsOnly registry.isBox (fun met => Nat.blt (rank met) n) = true := by
    intro t ht
    refine meetsOnly_mono ?_ (h name d boxed hd hboxed t ht)
    intro met hmet
    simp only [Nat.blt_eq] at hmet ⊢
    omega
  have hgiven : forall (index : Nat) arg, args[index]? = some arg ->
      arg.meetsOnly registry.isBox (fun met => Nat.blt (rank met) n) = true :=
    fun index arg harg => hargs arg (List.mem_of_getElem? harg)
  refine meetsOnly_replace (hstored _ List.mem_cons_self) ?_
  intro index _ s hs
  split at hs
  · rename_i arg harg
    cases hs
    exact hgiven index s harg
  · rcases Option.map_eq_some_iff.mp hs with ⟨default, hdefault, rfl⟩
    refine meetsOnly_replace (hstored default ?_) fun index _ s hs => hgiven index s hs
    exact List.mem_cons_of_mem _ (List.mem_map.mpr ⟨_, Table.mem_of_get? hdefault, rfl⟩)

theorem Ranked.meetsOnly_reached {n : Nat} {t s : Ty}
    (hreached : TransGen (Opens sight registry) s t) {name : Symbol} {args : List Ty}
    (ht : t = .named name args) (hname : rank name ≤ n)
    (hargs : forall arg, arg ∈ args ->
      arg.meetsOnly registry.isBox (fun met => Nat.blt (rank met) n) = true) :
    s.meetsOnly registry.isBox (fun met => Nat.blt (rank met) n) = true := by
  induction hreached generalizing name args with
  | single hopens =>
      subst ht
      exact h.meetsOnly_inner hname hargs hopens
  | tail hbefore hopens ih =>
      subst ht
      have hmiddle := h.meetsOnly_inner hname hargs hopens
      rcases TransGen.tail'_iff.mp hbefore with ⟨_, _, hshown⟩
      rcases inside?_eq_some.mp hshown with ⟨middle, cs, _, _, rfl, _⟩
      rcases (meetsOnly_named (isBox_of_opens hshown)).mp hmiddle with ⟨hless, hcs⟩
      exact ih rfl (Nat.le_of_lt (Nat.blt_eq.mp hless)) hcs

theorem Ranked.not_returns (sight : Sight) (name : Symbol) (arity : Nat) :
    ¬ registry.Returns sight name arity := by
  rintro ⟨args, _, hreached⟩
  have hself := h.meetsOnly_reached hreached rfl (Nat.le_refl (rank name)) (by
    intro arg harg
    rcases List.mem_map.mp harg with ⟨index, _, rfl⟩
    rfl)
  rcases TransGen.tail'_iff.mp hreached with ⟨_, _, hopens⟩
  rcases (meetsOnly_named (isBox_of_opens hopens)).mp hself with ⟨hless, _⟩
  exact Nat.lt_irrefl _ (Nat.blt_eq.mp hless)

end

end Registry

/-!
## The layers of a type
-/

namespace Ty

variable {module : String} {registry : Registry}

def layer (module : String) (registry : Registry) : Nat -> Ty -> Opening
  | 0, t => .inner t
  | n + 1, t =>
      match t.unbox module registry with
      | .inner inner => layer module registry n inner
      | .hidden => .hidden
      | .notBoxed => .notBoxed

/-- After finitely many openings a type is not boxed, or hidden. -/
def Unwraps (module : String) (registry : Registry) (t : Ty) : Prop :=
  exists n, t.layer module registry n = .hidden ∨ t.layer module registry n = .notBoxed

theorem inside?_eq_none {t : Ty} (h : forall inner, t.unbox module registry ≠ .inner inner) :
    t.inside? (Sight.ofModule module) registry = none := by
  cases hinside : t.inside? (Sight.ofModule module) registry with
  | none => rfl
  | some inner => exact absurd (inside?_ofModule.mp hinside) (h inner)

theorem unwraps_iff_ends {t : Ty} :
    t.Unwraps module registry ↔ t.Ends (Sight.ofModule module) registry := by
  constructor
  · rintro ⟨n, hn⟩
    induction n generalizing t with
    | zero => rcases hn with hn | hn <;> cases hn
    | succ n ih =>
        rw [layer] at hn
        cases hunbox : t.unbox module registry with
        | inner inner =>
            rw [hunbox] at hn
            refine Acc.intro t ?_
            intro shown hshown
            cases hunbox.symm.trans (inside?_ofModule.mp hshown)
            exact ih hn
        | hidden => exact ends_of_closed (inside?_eq_none (by simp [hunbox]))
        | notBoxed => exact ends_of_closed (inside?_eq_none (by simp [hunbox]))
  · intro h
    induction h with
    | intro t _ ih =>
        cases hunbox : t.unbox module registry with
        | inner inner =>
            rcases ih inner (inside?_ofModule.mpr hunbox) with ⟨n, hn⟩
            exact ⟨n + 1, by rw [layer, hunbox]; exact hn⟩
        | hidden => exact ⟨1, Or.inl (by rw [layer, hunbox])⟩
        | notBoxed => exact ⟨1, Or.inr (by rw [layer, hunbox])⟩

end Ty

/-!
## Loops along a chain

Each rule that looks through boxes follows a chain of openings, and answers if the chain
has an end. A rule that crosses a reactive layer goes on with a chain of its own, and so
does the search for a bound each time it follows a parameter not met before.
-/

/-- What answers for a type once it answers for what the type opens to answers for every
type whose chain ends. -/
theorem Ty.Ends.answers {sight : Sight} {registry : Registry} {t : Ty}
    (h : t.Ends sight registry) (answers : Nat -> Ty -> Prop)
    (hstep : forall s later, ReflTransGen (Opens sight registry) s t ->
      (forall inner, Opens sight registry inner s -> answers later inner) ->
      exists depth, answers depth s) : exists depth, answers depth t := by
  induction h with
  | intro t _ ih =>
      cases hinside : t.inside? sight registry with
      | none =>
          refine hstep t 0 ReflTransGen.refl ?_
          intro inner hinner
          cases hinside.symm.trans hinner
      | some inner =>
          rcases ih inner hinside (fun s later hlater =>
            hstep s later (hlater.tail hinside)) with ⟨later, hlater⟩
          refine hstep t later ReflTransGen.refl ?_
          intro shown hshown
          cases hinside.symm.trans hshown
          exact hlater

theorem stripWeak_answers {registry : Registry} {t : Ty} :
    (exists depth, (t.stripWeak registry depth).isSome = true) ↔ t.Ends Sight.weak registry := by
  constructor
  · rintro ⟨depth, h⟩
    induction depth generalizing t with
    | zero => cases h
    | succ depth ih =>
        refine Acc.intro t ?_
        intro inner hinner
        rw [Ty.Opens, Ty.inside?_weak] at hinner
        rw [Ty.stripWeak, hinner] at h
        exact ih h
  · intro h
    refine h.answers (fun depth s => (s.stripWeak registry depth).isSome = true) ?_
    intro s later _ hinner
    refine ⟨later + 1, ?_⟩
    rw [Ty.stripWeak]
    split
    · rename_i inner hweak
      exact hinner inner ((Ty.inside?_weak s).trans hweak)
    · rfl

section

variable {α : Type} {module : String} {registry : Registry}

theorem crossing_answers {run : Nat -> Bool -> Ty -> Bounded α}
    (hcrosses : forall depth t arg, t.reactiveArg? = some arg ->
      (run depth false arg).isSome = true -> (run (depth + 1) true t).isSome = true)
    (hopens : forall depth cross t, (if cross then t.reactiveArg? else none) = none ->
      (forall inner, t.unbox module registry = .inner inner ->
        (run depth cross inner).isSome = true) -> (run (depth + 1) cross t).isSome = true)
    (hends : forall t : Ty, t.Ends (Sight.ofModule module) registry) (cross : Bool) (t : Ty) :
    exists depth, (run depth cross t).isSome = true := by
  have hplain : forall t, exists depth, (run depth false t).isSome = true := by
    intro t
    refine (hends t).answers (fun depth s => (run depth false s).isSome = true) ?_
    intro s later _ hinner
    exact ⟨later + 1, hopens later false s rfl fun inner hunbox =>
      hinner inner (Ty.inside?_ofModule.mpr hunbox)⟩
  cases cross with
  | false => exact hplain t
  | true =>
      refine (hends t).answers (fun depth s => (run depth true s).isSome = true) ?_
      intro s later _ hinner
      cases hreactive : s.reactiveArg? with
      | some arg =>
          rcases hplain arg with ⟨depth, hdepth⟩
          exact ⟨depth + 1, hcrosses depth s arg hreactive hdepth⟩
      | none =>
          exact ⟨later + 1, hopens later true s hreactive fun inner hunbox =>
            hinner inner (Ty.inside?_ofModule.mpr hunbox)⟩

theorem find_answers (pick : Ty -> Option α)
    (hends : forall t : Ty, t.Ends (Sight.ofModule module) registry) (cross : Bool) (t : Ty) :
    exists depth, (Shape.find pick module registry depth cross t).isSome = true := by
  refine crossing_answers ?_ ?_ hends cross t
  · intro depth t arg hreactive harg
    cases t with
    | named name args => simpa [Shape.find, hreactive] using harg
    | _ => cases hreactive
  · intro depth cross t hreactive hinner
    cases t with
    | named name args =>
        rw [Shape.find, hreactive]
        dsimp only
        split
        · exact hinner _ (by assumption)
        · rfl
        · rfl
    | _ =>
        rw [Shape.find]
        · split <;> rfl
        · intro name args heq
          cases heq

theorem unionBehind_answers {ctx : Context}
    (hends : forall t : Ty, t.Ends (Sight.ofModule ctx.module) ctx.registry) (cross : Bool)
    (t : Ty) : exists depth, (ctx.unionBehind depth cross t).isSome = true := by
  refine crossing_answers ?_ ?_ hends cross t
  · intro depth t arg hreactive harg
    rcases Option.isSome_iff_exists.mp harg with ⟨view, hview⟩
    cases t with
    | named name args => simp [Context.unionBehind, hreactive, hview]
    | _ => cases hreactive
  · intro depth cross t hreactive hinner
    cases t with
    | named name args =>
        rw [Context.unionBehind, hreactive]
        dsimp only
        split
        · rfl
        · split
          · exact hinner _ (by assumption)
          · rfl
        · rfl
    | _ => cases cross <;> rfl

end

/-!
### Bounds
-/

namespace TypeContext

variable {ctx : TypeContext}

def unmet (ctx : TypeContext) (met : List (Nat × Bool)) : Finset (Nat × Bool) :=
  ((ctx.bounds.upper ++ ctx.bounds.lower).flatMap
    fun item => [(item.1, true), (item.1, false)]).toFinset \ met.toFinset

theorem unmet_subset {met later : List (Nat × Bool)} (h : met ⊆ later) :
    ctx.unmet later ⊆ ctx.unmet met := by
  refine Finset.sdiff_subset_sdiff (Finset.Subset.refl _) ?_
  intro item hitem
  exact List.mem_toFinset.mpr (h (List.mem_toFinset.mp hitem))

theorem follow_subset {bounds : TypeMap} {met : List (Nat × Bool)} {t : Ty} :
    met ⊆ (Bounds.follow bounds met t).2 := by
  unfold Bounds.follow
  split
  · split
    · exact List.Subset.refl _
    · exact List.subset_cons_self _ _
  · exact List.Subset.refl _

theorem follow_card_le {bounds : TypeMap} {met later : List (Nat × Bool)} {t : Ty}
    {bound : Option Ty} (h : Bounds.follow bounds met t = (bound, later)) :
    (ctx.unmet later).card ≤ (ctx.unmet met).card := by
  have hsubset := @follow_subset bounds met t
  rw [h] at hsubset
  exact Finset.card_le_card (unmet_subset hsubset)

theorem follow_card_lt {bounds : TypeMap} (hbounds : bounds ⊆ ctx.bounds.upper ++ ctx.bounds.lower)
    {met later : List (Nat × Bool)} {t bound : Ty}
    (h : Bounds.follow bounds met t = (some bound, later)) :
    (ctx.unmet later).card < (ctx.unmet met).card := by
  have hsubset : met ⊆ later := by
    have := @follow_subset bounds met t
    rwa [h] at this
  unfold Bounds.follow at h
  split at h
  · rename_i index inferring
    split at h
    · cases h
    · rename_i hnew
      rcases Prod.mk.inj h with ⟨hbound, rfl⟩
      refine Finset.card_lt_card (Finset.ssubset_iff_subset_ne.mpr ⟨unmet_subset hsubset, ?_⟩)
      intro hsame
      have hbefore : (index, inferring) ∈ ctx.unmet met := by
        refine Finset.mem_sdiff.mpr ⟨?_, by simpa using hnew⟩
        refine List.mem_toFinset.mpr ?_
        refine List.mem_flatMap.mpr ⟨_, hbounds (Table.mem_of_get? hbound), ?_⟩
        cases inferring <;> simp
      rw [<- hsame] at hbefore
      exact (Finset.mem_sdiff.mp hbefore).right (by simp)
  · cases h

theorem liesWithin_round {met : List (Nat × Bool)} {sub sup : Ty}
    (hfollowed : forall later sub' sup', (ctx.unmet later).card < (ctx.unmet met).card ->
      exists depth, (ctx.liesWithin depth later sub' sup').isSome = true)
    (hopened : forall again inner, (ctx.unmet again).card ≤ (ctx.unmet met).card ->
      sub.unbox ctx.module ctx.registry = .inner inner ->
      exists depth, (ctx.liesWithin depth again inner sup).isSome = true) :
    exists depth, (ctx.liesWithin depth met sub sup).isSome = true := by
  rcases hupper : Bounds.follow ctx.bounds.upper met sub with ⟨_ | upper, later⟩
  · have hlater := @follow_card_le ctx _ _ _ _ _ hupper
    rcases hlower : Bounds.follow ctx.bounds.lower later sup with ⟨_ | lower, again⟩
    · have hagain := @follow_card_le ctx _ _ _ _ _ hlower
      by_cases halike : sub.alike sup = true
      · exact ⟨1, by simp [liesWithin, hupper, hlower, halike]⟩
      · cases hunbox : sub.unbox ctx.module ctx.registry with
        | inner inner =>
            rcases hopened again inner (hagain.trans hlater) hunbox with ⟨depth, hdepth⟩
            exact ⟨depth + 1, by simpa [liesWithin, hupper, hlower, halike, hunbox] using hdepth⟩
        | hidden => exact ⟨1, by simp [liesWithin, hupper, hlower, halike, hunbox]⟩
        | notBoxed => exact ⟨1, by simp [liesWithin, hupper, hlower, halike, hunbox]⟩
    · have hless := follow_card_lt (List.subset_append_right _ _) hlower
      rcases hfollowed again sub lower (hless.trans_le hlater) with ⟨depth, hdepth⟩
      exact ⟨depth + 1, by simpa only [liesWithin, hupper, hlower] using hdepth⟩
  · have hless := follow_card_lt (List.subset_append_left _ _) hupper
    rcases hfollowed later upper sup hless with ⟨depth, hdepth⟩
    exact ⟨depth + 1, by rw [liesWithin, hupper]; exact hdepth⟩

theorem liesWithin_answers (hends : forall t : Ty, t.Ends (Sight.ofModule ctx.module) ctx.registry)
    (met : List (Nat × Bool)) (sub sup : Ty) :
    exists depth, (ctx.liesWithin depth met sub sup).isSome = true := by
  have hall : forall n met sub sup, (ctx.unmet met).card ≤ n ->
      exists depth, (ctx.liesWithin depth met sub sup).isSome = true := by
    intro n
    -- fewer parameters are left to be met once one is followed; until then the chain of
    -- the smaller side gets shorter
    induction n using Nat.strongRecOn with
    | _ n ihmet =>
        intro met sub sup hn
        induction hends sub generalizing met sup with
        | intro sub _ ihsub =>
            apply liesWithin_round
            · intro later sub' sup' hless
              exact ihmet _ (hless.trans_le hn) later sub' sup' (Nat.le_refl _)
            · intro again inner hagain hunbox
              exact ihsub inner (Ty.inside?_ofModule.mpr hunbox) again sup (hagain.trans hn)
  exact hall _ met sub sup (Nat.le_refl _)

end TypeContext

/-!
### Retries of an assignment
-/

section

variable {ctx : TypeContext} {target given : Ty} {i : Inference}

theorem assign_answers {d : Direction} {depth later : Nat}
    (hdirect : ((assignDirectly ctx depth d target given).outcome i).isSome = true)
    (hafterwards : ((Assign.afterwards ctx (assign ctx later) d target given).outcome i).isSome =
      true) : exists enough, ((assign ctx enough d target given).outcome i).isSome = true := by
  rcases Option.isSome_iff_exists.mp hdirect with ⟨⟨r, j⟩, hr⟩
  rcases Option.isSome_iff_exists.mp hafterwards with ⟨s, hs⟩
  have hr' := assignDirectly_extends (Nat.le_max_left depth later) d target given i _ hr
  have hs' := Assign.extends_afterwards
    (assign_extends (Nat.le_max_right depth later)) target given i s hs
  refine ⟨max depth later + 1, ?_⟩
  rw [assign_outcome, hr']
  cases r with
  | ok t => rfl
  | error e =>
      dsimp only
      rw [hs']
      rfl

theorem assign_toTarget_answers (hends : given.Ends (Sight.ofModule ctx.module) ctx.registry)
    (hdirect : forall g,
      ReflTransGen (Ty.Opens (Sight.ofModule ctx.module) ctx.registry) g given ->
      exists depth, ((assignDirectly ctx depth .toTarget target g).outcome i).isSome = true) :
    exists depth, ((assign ctx depth .toTarget target given).outcome i).isSome = true := by
  refine hends.answers
    (fun depth s => ((assign ctx depth .toTarget target s).outcome i).isSome = true) ?_
  intro s later hlater hinner
  rcases hdirect s hlater with ⟨depth, hdepth⟩
  have hafterwards :
      ((Assign.afterwards ctx (assign ctx later) .toTarget target s).outcome i).isSome = true := by
    rw [afterwards_toTarget]
    split
    · split <;> rfl
    · split
      · rfl
      · split
        · rename_i inner hunbox
          exact hinner inner (Ty.inside?_ofModule.mpr hunbox)
        · rfl
  exact assign_answers hdepth hafterwards

theorem assign_fromTarget_answers (hends : target.Ends (Sight.ofModule ctx.module) ctx.registry)
    (hdirect : forall t,
      ReflTransGen (Ty.Opens (Sight.ofModule ctx.module) ctx.registry) t target ->
      exists depth, ((assignDirectly ctx depth .fromTarget t given).outcome i).isSome = true) :
    exists depth, ((assign ctx depth .fromTarget target given).outcome i).isSome = true := by
  refine hends.answers
    (fun depth s => ((assign ctx depth .fromTarget s given).outcome i).isSome = true) ?_
  intro s later hlater hinner
  rcases hdirect s hlater with ⟨depth, hdepth⟩
  have hafterwards :
      ((Assign.afterwards ctx (assign ctx later) .fromTarget s given).outcome i).isSome =
        true := by
    rw [afterwards_fromTarget]
    split
    · rfl
    · split
      · rfl
      · split
        · rename_i inner hunbox
          exact hinner inner (Ty.inside?_ofModule.mpr hunbox)
        · rfl
  exact assign_answers hdepth hafterwards

/-- The boxes around a given type can be opened to the end, and the direct match with each
type met on the way comes to an end. -/
structure TypeContext.Concludes (ctx : TypeContext) (target given : Ty) : Prop where
  unwraps : given.Unwraps ctx.module ctx.registry
  direct (g : Ty) : ReflTransGen (Ty.Opens (.ofModule ctx.module) ctx.registry) g given ->
    exists depth, ((assignDirectly ctx depth .toTarget target g).outcome .disabled).isSome = true

theorem TypeContext.Concludes.of_closed {depth : Nat}
    (hclosed : given.inside? (.ofModule ctx.module) ctx.registry = none)
    (hdirect : ((assignDirectly ctx depth .toTarget target given).outcome .disabled).isSome =
      true) : ctx.Concludes target given where
  unwraps := Ty.unwraps_iff_ends.mpr (Ty.ends_of_closed hclosed)
  direct g hg := by
    rcases ReflTransGen.cases_tail hg with rfl | ⟨inner, _, hopens⟩
    · exact ⟨depth, hdirect⟩
    · cases hclosed.symm.trans hopens

/-- What is not refused fits, given enough depth, if its matches come to an end. -/
theorem Admits.fits_of_concludes (h : Admits ctx .toTarget target given)
    (hconcludes : ctx.Concludes target given) :
    exists enough, forall n, enough ≤ n -> fits ctx n target given = some true := by
  rcases assign_toTarget_answers (Ty.unwraps_iff_ends.mp hconcludes.unwraps) hconcludes.direct with
    ⟨enough, hanswers⟩
  rcases Option.isSome_iff_exists.mp hanswers with ⟨⟨result, j⟩, hrun⟩
  have hfits : fits ctx enough target given = some true := by
    rw [fits, hrun, Option.map_some, h.isOk hrun]
  exact ⟨enough, fun n hn => fits_extends hn hfits⟩

end

/-!
## Registered boxes
-/

/-- Every rule that looks through boxes answers, given enough depth. The retries of an
assignment do if the direct matches do that are tried along the chain. -/
structure TypeContext.LooksThrough (ctx : TypeContext) : Prop where
  shapes {α : Type} (pick : Ty -> Option α) (cross : Bool) (t : Ty) :
    exists depth, (Shape.find pick ctx.module ctx.registry depth cross t).isSome = true
  bounds (sub sup : Ty) : exists depth, (ctx.isWithin depth sub sup).isSome = true
  unions (around : Context) (same : around.toTypeContext = ctx) (cross : Bool) (t : Ty) :
    exists depth, (around.unionBehind depth cross t).isSome = true
  givens (target given : Ty) (i : Inference)
    (direct : forall g, ReflTransGen (Ty.Opens (.ofModule ctx.module) ctx.registry) g given ->
      exists depth, ((assignDirectly ctx depth .toTarget target g).outcome i).isSome = true) :
    exists depth, ((assign ctx depth .toTarget target given).outcome i).isSome = true
  targets (target given : Ty) (i : Inference)
    (direct : forall t, ReflTransGen (Ty.Opens (.ofModule ctx.module) ctx.registry) t target ->
      exists depth, ((assignDirectly ctx depth .fromTarget t given).outcome i).isSome = true) :
    exists depth, ((assign ctx depth .fromTarget target given).outcome i).isSome = true

theorem TypeContext.looksThrough {ctx : TypeContext}
    (h : forall t : Ty, t.Ends (Sight.ofModule ctx.module) ctx.registry) : ctx.LooksThrough where
  shapes pick := find_answers pick h
  bounds := TypeContext.liesWithin_answers h []
  unions around same := by
    cases same
    exact unionBehind_answers h
  givens _ given _ := assign_toTarget_answers (h given)
  targets target _ _ := assign_fromTarget_answers (h target)

/-- Seen from a module, all types can be opened to the end just if no box comes back to
itself; then every rule that looks through boxes answers. So it is with weak boxes. A box
that was registered comes back to itself only by way of a box that holds a parameter. -/
theorem unboxing_ends_unless_boxes_return {limits : Limits} {depth : Nat}
    {modules : List Source.Module} {r : Registration}
    (h : Registration.ofModules limits depth (Core.module :: modules) = some r) :
    (forall module, (forall t : Ty, t.Unwraps module r.registry) ↔
      forall name arity, ¬ r.registry.Returns (.ofModule module) name arity) ∧
    ((forall t : Ty, exists depth, (t.stripWeak r.registry depth).isSome = true) ↔
      forall name arity, ¬ r.registry.Returns .weak name arity) ∧
    (forall ctx : TypeContext, ctx.registry = r.registry ->
      (forall t : Ty, t.Unwraps ctx.module r.registry) -> ctx.LooksThrough) ∧
    forall sight name arity, r.registry.Returns sight name arity ->
      exists other args d boxed,
        ReflTransGen (Ty.Opens sight r.registry) (.named other args) (Ty.generic name arity) ∧
          Table.get? r.registry other = some d ∧ d.boxed? = some boxed ∧
          boxed.inner.former.isParam = true := by
  constructor
  · intro module
    simp only [Ty.unwraps_iff_ends]
    exact Registry.ends_iff_not_returns
  constructor
  · simp only [stripWeak_answers]
    exact Registry.ends_iff_not_returns
  constructor
  · intro ctx hregistry hunwraps
    simp only [Ty.unwraps_iff_ends, <- hregistry] at hunwraps
    exact TypeContext.looksThrough hunwraps
  · intro sight name arity hreturns
    apply hreturns.exists_holding_param
    intro n start hn
    rw [Registration.registry_eq h]
    exact Registry.follow_withoutCircles_ne hn start

def nestedBoxModules : List Source.Module :=
  [{ name := "Main"
     types := [
      .boxed { name := { name := "Num" } } { inner := some { value := .ref { name := "Int" } [] } },
      .boxed { name := { name := "Opt" } }
        { inner := some
            { value := .ref { name := "Some" } [{ value := .ref { name := "Num" } [] }] } },
      .boxed { name := { name := "Node" } }
        { inner := some
            { value := .tuple [
                { value := .ref { name := "Num" } [] },
                { value := .ref { name := "Maybe" }
                    [{ value := .ref { name := "Node" } [] }] }] } }] }]

/-- `Opt` opens to `Some[Num]`, this to `Num` and this to `Int`. -/
theorem nested_boxes_unwrap :
    exists r, Registration.ofModules {} 4 (Core.module :: nestedBoxModules) = some r ∧
      r.problems = [] ∧
      (Ty.named ⟨"Main", "Opt"⟩ []).layer "Main" r.registry 3 = .inner (Ty.core "Int") ∧
      (forall module t, Ty.Unwraps module r.registry t) ∧
      (forall t : Ty, exists depth, (t.stripWeak r.registry depth).isSome = true) ∧
      forall module, TypeContext.LooksThrough { module, registry := r.registry } := by
  let rank : Symbol -> Nat := fun name =>
    if name.name = "Opt" then 2 else if name.name = "Num" then 1 else 0
  have hcheck : (Registration.ofModules {} 4 (Core.module :: nestedBoxModules)).map (fun r =>
      (r.problems.isEmpty, (Ty.named ⟨"Main", "Opt"⟩ []).layer "Main" r.registry 3,
        r.registry.all fun item => item.2.boxed?.all fun boxed =>
          (boxed.inner :: item.2.defaults.map Prod.snd).all fun t =>
            t.meetsOnly r.registry.isBox fun met => Nat.blt (rank met) (rank item.1))) =
      some (true, .inner (Ty.core "Int"), true) := by decide +kernel
  rcases Option.map_eq_some_iff.mp hcheck with ⟨r, hr, heq⟩
  rcases Prod.mk.inj heq with ⟨hclean, heq⟩
  rcases Prod.mk.inj heq with ⟨hlayer, hranked⟩
  have hreturns := (Registry.ranked_of_all hranked).not_returns
  rcases unboxing_ends_unless_boxes_return hr with ⟨hunwraps, hweak, hloops, _⟩
  have hall : forall module t, Ty.Unwraps module r.registry t :=
    fun module => (hunwraps module).mpr (hreturns _)
  exact ⟨r, hr, List.isEmpty_iff.mp hclean, hlayer, hall, hweak.mpr (hreturns _),
    fun module => hloops _ rfl (hall module)⟩

def endlessBoxModules : List Source.Module :=
  [{ name := "Main"
     types := [
      .boxed { name := { name := "B" } }
        { inner := some
            { value := .ref { name := "Some" } [{ value := .ref { name := "B" } [] }] } }] }]

/-- `B` opens to `Some[B]` and this to `B`, though nothing is wrong with its declaration. -/
theorem box_opens_forever :
    exists r, Registration.ofModules {} 4 (Core.module :: endlessBoxModules) = some r ∧
      r.problems = [] ∧ (Ty.named ⟨"Main", "B"⟩ []).isOver r.registry = true ∧
      ¬ (Ty.named ⟨"Main", "B"⟩ []).Unwraps "Main" r.registry := by
  let b := Ty.named ⟨"Main", "B"⟩ []
  let shown := Ty.named (Symbol.core "Some") [b]
  have hcheck : (Registration.ofModules {} 4 (Core.module :: endlessBoxModules)).map (fun r =>
      (r.problems.isEmpty, b.isOver r.registry, b.unbox "Main" r.registry,
        shown.unbox "Main" r.registry)) =
      some (true, true, .inner shown, .inner b) := by decide +kernel
  rcases Option.map_eq_some_iff.mp hcheck with ⟨r, hr, heq⟩
  rcases Prod.mk.inj heq with ⟨hclean, heq⟩
  rcases Prod.mk.inj heq with ⟨hover, heq⟩
  rcases Prod.mk.inj heq with ⟨hfirst, hsecond⟩
  refine ⟨r, hr, List.isEmpty_iff.mp hclean, hover, ?_⟩
  rw [Ty.unwraps_iff_ends]
  refine Registry.Returns.not_ends ⟨[], rfl, ?_⟩
  exact TransGen.tail (TransGen.single (Ty.inside?_ofModule.mpr hsecond))
    (Ty.inside?_ofModule.mpr hfirst)

end TypeChecker
