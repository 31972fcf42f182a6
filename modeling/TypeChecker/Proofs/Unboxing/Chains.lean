import TypeChecker.Proofs.Registry.Circles
import TypeChecker.Proofs.Registry.Stored
import Mathlib.Data.Finset.Basic
import Mathlib.Data.Fintype.Card
import Mathlib.Data.Fintype.EquivFin
import Mathlib.Logic.Relation

/-!
# Chains of opened boxes

Opening a type, then the type inside, and so on gives a chain. A chain may come back to
a box by way of a type argument: where `Some[T]` holds `T` and `B` holds `Some[B]`, the
type `B` opens to `Some[B]`, and this to `B` again. All chains come to an end just if no
box, applied to parameters, comes back to itself.
-/

namespace TypeChecker

open Relation

/-!
## Opening

A module sees through every box but the hidden ones of other modules. Names bound to a
value see through weak boxes, hidden or not.
-/

abbrev Sight := Symbol -> Boxed -> Bool

def Sight.ofModule (module : String) : Sight :=
  fun name boxed => !(boxed.hidden && name.module != module)

def Sight.weak : Sight := fun _ boxed => boxed.weak

namespace Ty

def inside? (sight : Sight) (registry : Registry) : Ty -> Option Ty
  | .named name args =>
      match Table.get? registry name with
      | none => none
      | some d =>
          (d.boxed?.filter (sight name)).map fun boxed =>
            boxed.inner.instantiateWith d.defaults args
  | _ => none

variable {sight : Sight} {registry : Registry}

theorem inside?_eq_some {t inner : Ty} :
    t.inside? sight registry = some inner ↔
      exists name args d boxed,
        t = .named name args ∧ Table.get? registry name = some d ∧ d.boxed? = some boxed ∧
          sight name boxed = true ∧ inner = boxed.inner.instantiateWith d.defaults args := by
  constructor
  · intro h
    cases t with
    | named name args =>
        rw [inside?] at h
        split at h
        · cases h
        · rename_i d hd
          rcases Option.map_eq_some_iff.mp h with ⟨boxed, hboxed, rfl⟩
          rcases Option.filter_eq_some_iff.mp hboxed with ⟨hboxed, hseen⟩
          exact ⟨name, args, d, boxed, rfl, hd, hboxed, hseen, rfl⟩
    | _ => cases h
  · rintro ⟨name, args, d, boxed, rfl, hd, hboxed, hseen, rfl⟩
    simp [inside?, hd, hboxed, Option.filter, hseen]

theorem inside?_ofModule {module : String} {t inner : Ty} :
    t.inside? (Sight.ofModule module) registry = some inner ↔
      t.unbox module registry = .inner inner := by
  constructor
  · intro h
    rcases inside?_eq_some.mp h with ⟨name, args, d, boxed, rfl, hd, hboxed, hseen, rfl⟩
    rw [Sight.ofModule, Bool.not_eq_true'] at hseen
    simp [unbox, hd, hboxed, hseen]
  · intro h
    rcases unbox_inner h with ⟨name, args, d, boxed, rfl, hd, hboxed, hvisible, rfl⟩
    exact inside?_eq_some.mpr ⟨name, args, d, boxed, rfl, hd, hboxed, by
      rw [Sight.ofModule, hvisible]; rfl, rfl⟩

theorem inside?_weak (t : Ty) : t.inside? Sight.weak registry = t.weakInner? registry := by
  cases t <;> rfl

theorem isSome_inside?_congr {a b : Ty} (h : a.former = b.former) :
    (a.inside? sight registry).isSome = (b.inside? sight registry).isSome := by
  cases a <;> cases b <;> simp_all [former, inside?]
  split
  · rfl
  · simp

theorem everywhere_inside {p : Former -> Bool} (hstores : registry.Stores p) {t inner : Ty}
    (ht : forall s, s ∈ t.parts -> s.everywhere p = true)
    (h : t.inside? sight registry = some inner) : inner.everywhere p = true := by
  rcases inside?_eq_some.mp h with ⟨name, args, d, boxed, rfl, hd, hboxed, _, rfl⟩
  exact everywhere_instantiateWith
    (hstores name d hd _ (Declaration.mem_types_of_boxed hboxed))
    (fun index s hs => hstores name d hd s (Declaration.mem_types_of_default hs)) ht

def Opens (sight : Sight) (registry : Registry) (inner t : Ty) : Prop :=
  t.inside? sight registry = some inner

def Ends (sight : Sight) (registry : Registry) (t : Ty) : Prop :=
  Acc (Opens sight registry) t

theorem ends_of_closed {t : Ty} (h : t.inside? sight registry = none) :
    t.Ends sight registry := by
  refine Acc.intro t ?_
  intro inner hinner
  rw [Opens, h] at hinner
  cases hinner

/-!
## Types that match a pattern

A type matches a pattern at some arguments if it is the pattern with parameters replaced
by these arguments. Not every parameter needs to be replaced: one that a default brings
into the pattern on the way stays as it is.
-/

inductive Matches (args : List Ty) : Ty -> Ty -> Prop where
  | arg {index : Nat} {inferring : Bool} {t : Ty} (here : args[index]? = some t) :
      Matches args (.param index inferring) t
  | parts {pattern t : Ty} (former : pattern.former = t.former)
      (each : forall (k : Nat) x y, pattern.parts[k]? = some x -> t.parts[k]? = some y ->
        Matches args x y) :
      Matches args pattern t

variable {args : List Ty}

theorem Matches.refl (t : Ty) : Matches args t t := by
  induction t using induction_parts with
  | step t ih =>
      refine Matches.parts rfl ?_
      intro k x y hx hy
      cases hx.symm.trans hy
      exact ih x (List.mem_of_getElem? hx)

theorem Matches.replace {choose other : Nat -> Bool -> Option Ty}
    (h : forall index inferring,
      Matches args ((choose index inferring).getD (.param index inferring))
        ((other index inferring).getD (.param index inferring))) (t : Ty) :
    Matches args (t.replace choose) (t.replace other) := by
  induction t using induction_parts with
  | step t ih =>
      cases hparam : t.former.isParam with
      | true =>
          rcases former_eq_param hparam with ⟨index, inferring, rfl⟩
          exact h index inferring
      | false =>
          refine Matches.parts ?_ ?_
          · rw [former_replace hparam, former_replace hparam]
          · intro k x y hx hy
            rw [parts_replace hparam, List.getElem?_map] at hx hy
            rcases Option.map_eq_some_iff.mp hx with ⟨part, hpart, rfl⟩
            rw [hpart] at hy
            cases hy
            exact ih part (List.mem_of_getElem? hpart)

section

variable {as bs : List Ty} (hlen : as.length = bs.length)
  (heach : forall (k : Nat) x y, as[k]? = some x -> bs[k]? = some y -> Matches args x y)

include hlen heach

omit heach in
theorem getElem?_both (index : Nat) :
    (exists x y, as[index]? = some x ∧ bs[index]? = some y) ∨
      as[index]? = none ∧ bs[index]? = none := by
  by_cases hindex : index < as.length
  · have hother : index < bs.length := hlen ▸ hindex
    exact Or.inl ⟨_, _, List.getElem?_eq_getElem hindex, List.getElem?_eq_getElem hother⟩
  · exact Or.inr ⟨List.getElem?_eq_none (by omega), List.getElem?_eq_none (by omega)⟩

theorem Matches.instantiate (t : Ty) : Matches args (t.instantiate as) (t.instantiate bs) := by
  refine Matches.replace ?_ t
  intro index inferring
  rcases getElem?_both hlen index with ⟨x, y, hx, hy⟩ | ⟨hx, hy⟩
  · rw [hx, hy]
    exact heach index x y hx hy
  · rw [hx, hy]
    exact Matches.refl _

theorem Matches.instantiateWith (defaults : TypeMap) (t : Ty) :
    Matches args (t.instantiateWith defaults as) (t.instantiateWith defaults bs) := by
  refine Matches.replace ?_ t
  intro index inferring
  rcases getElem?_both hlen index with ⟨x, y, hx, hy⟩ | ⟨hx, hy⟩
  · rw [hx, hy]
    exact heach index x y hx hy
  · rw [hx, hy]
    cases Table.get? defaults index with
    | none => exact Matches.refl _
    | some default => exact Matches.instantiate hlen heach default

end

theorem Matches.named {name : Symbol} {as : List Ty} {t : Ty}
    (h : Matches args (.named name as) t) :
    exists bs, t = .named name bs ∧ as.length = bs.length ∧
      forall (k : Nat) x y, as[k]? = some x -> bs[k]? = some y -> Matches args x y := by
  cases h with
  | parts hformer heach =>
      cases t with
      | named other bs =>
          rcases Former.named.inj hformer with ⟨rfl, hlen⟩
          exact ⟨bs, rfl, hlen, heach⟩
      | _ => cases hformer

theorem Matches.opens {pattern t inner : Ty} (h : Matches args pattern t)
    (hopens : Opens sight registry inner pattern) :
    exists inner', Opens sight registry inner' t ∧ Matches args inner inner' := by
  rcases inside?_eq_some.mp hopens with ⟨name, as, d, boxed, rfl, hd, hboxed, hseen, rfl⟩
  rcases h.named with ⟨bs, rfl, hlen, heach⟩
  exact ⟨_, inside?_eq_some.mpr ⟨name, bs, d, boxed, rfl, hd, hboxed, hseen, rfl⟩,
    Matches.instantiateWith hlen heach d.defaults boxed.inner⟩

theorem Matches.reached {pattern t s : Ty} (h : Matches args pattern t)
    (hreached : TransGen (Opens sight registry) s pattern) :
    exists s', TransGen (Opens sight registry) s' t ∧ Matches args s s' := by
  induction hreached generalizing t with
  | single hopens =>
      rcases h.opens hopens with ⟨inner, hinner, hmatches⟩
      exact ⟨inner, TransGen.single hinner, hmatches⟩
  | tail _ hopens ih =>
      rcases h.opens hopens with ⟨inner, hinner, hmatches⟩
      rcases ih hmatches with ⟨s', hs', hagain⟩
      exact ⟨s', TransGen.tail hs' hinner, hagain⟩

/-- A chain ends if that of its pattern ends, and those of the arguments it comes to. -/
theorem Ends.of_matches {pattern t : Ty} (hends : pattern.Ends sight registry)
    (h : Matches args pattern t)
    (hargs : forall arg, arg ∈ args -> ReflTransGen (Opens sight registry) arg t ->
      arg.Ends sight registry) : t.Ends sight registry := by
  induction hends generalizing t with
  | intro pattern _ ih =>
      cases h with
      | arg here => exact hargs t (List.mem_of_getElem? here) ReflTransGen.refl
      | parts hformer heach =>
          refine Acc.intro t ?_
          intro inner hinner
          have hsome : (pattern.inside? sight registry).isSome = true := by
            rw [isSome_inside?_congr hformer, hinner]
            rfl
          rcases Option.isSome_iff_exists.mp hsome with ⟨shown, hshown⟩
          rcases (Matches.parts hformer heach).opens hshown with ⟨inner', hinner', hmatches⟩
          cases hinner.symm.trans hinner'
          refine ih shown hshown hmatches ?_
          intro arg harg hlater
          exact hargs arg harg (hlater.tail hinner)

/-!
## Boxes that come back to themselves
-/

def generic (name : Symbol) (arity : Nat) : Ty :=
  .named name ((List.range arity).map fun index => .param index false)

theorem matches_generic (name : Symbol) (args : List Ty) :
    Matches args (generic name args.length) (.named name args) := by
  refine Matches.parts (by simp [generic, former]) ?_
  intro k x y hx hy
  have hx : ((List.range args.length).map fun index => Ty.param index false)[k]? = some x := hx
  have hk : k < args.length := (List.getElem?_eq_some_iff.mp hy).choose
  rw [List.getElem?_map, List.getElem?_range hk] at hx
  cases hx
  exact Matches.arg hy

end Ty

def Former.reference? : Former -> Option (Symbol × Nat)
  | .named name arity => some (name, arity)
  | _ => none

namespace Registry

open Ty

variable {sight : Sight} {registry : Registry}

/-- A box applied to parameters comes back to itself, at other arguments. -/
def Returns (sight : Sight) (registry : Registry) (name : Symbol) (arity : Nat) : Prop :=
  exists args, args.length = arity ∧
    TransGen (Opens sight registry) (.named name args) (generic name arity)

/-- A box that comes back to itself can be opened forever, at whatever arguments. -/
theorem Returns.not_ends {name : Symbol} {args : List Ty}
    (h : registry.Returns sight name args.length) : ¬ (Ty.named name args).Ends sight registry := by
  intro hends
  have hacc := hends.transGen
  clear hends
  generalize ht : Ty.named name args = t at hacc
  generalize hn : args.length = arity at h
  rcases h with ⟨back, hback, hreached⟩
  induction hacc generalizing args with
  | intro t _ ih =>
      -- the way back from the parameters is a way back from any arguments, to which the
      -- hypothesis applies again
      subst ht hn
      rcases (matches_generic name args).reached hreached with ⟨s, hs, hmatches⟩
      rcases hmatches.named with ⟨again, rfl, hlen, _⟩
      exact ih _ hs rfl (hlen.symm.trans hback)

/-!
## Chains that never come back

What a box leads to is a relation between names with a number of arguments. It is
transitive, and only the finitely many references in a registry can be led to. Where it
holds between no reference and itself it is therefore well-founded.
-/

def Leads (sight : Sight) (registry : Registry) (a b : Symbol × Nat) : Prop :=
  exists args, args.length = a.2 ∧
    TransGen (Opens sight registry) (.named a.1 args) (generic b.1 b.2)

theorem Leads.trans {a b c : Symbol × Nat} (hab : Leads sight registry a b)
    (hbc : Leads sight registry b c) : Leads sight registry a c := by
  rcases hab with ⟨as, has, hreached⟩
  rcases hbc with ⟨bs, hbs, hfirst⟩
  rw [<- hbs] at hreached
  rcases (matches_generic b.1 bs).reached hreached with ⟨s, hs, hmatches⟩
  rcases hmatches.named with ⟨cs, rfl, hlen, _⟩
  exact ⟨cs, hlen.symm.trans has, hs.trans hfirst⟩

def references (registry : Registry) : List (Symbol × Nat) :=
  registry.flatMap fun item => item.2.types.flatMap fun t => t.formers.filterMap Former.reference?

theorem stores_references (registry : Registry) :
    registry.Stores fun f => f.reference?.all fun x => decide (x ∈ registry.references) := by
  intro name d hd t ht
  refine everywhere_iff_formers.mpr ?_
  intro f hf
  cases hreference : f.reference? with
  | none => rfl
  | some x =>
      refine decide_eq_true (List.mem_flatMap.mpr ⟨(name, d), Table.mem_of_get? hd, ?_⟩)
      refine List.mem_flatMap.mpr ⟨t, ht, ?_⟩
      exact List.mem_filterMap.mpr ⟨f, hf, hreference⟩

theorem everywhere_reached {p : Former -> Bool} (hstores : registry.Stores p) {t s : Ty}
    (hreached : TransGen (Opens sight registry) s t)
    (ht : forall part, part ∈ t.parts -> part.everywhere p = true) : s.everywhere p = true := by
  induction hreached with
  | single hopens => exact everywhere_inside hstores ht hopens
  | tail _ hopens ih =>
      exact ih (everywhere_iff.mp (everywhere_inside hstores ht hopens)).right

theorem Leads.mem_references {a b : Symbol × Nat} (h : Leads sight registry a b) :
    a ∈ registry.references := by
  rcases h with ⟨args, hargs, hreached⟩
  have hstored := everywhere_reached registry.stores_references hreached (by
    intro part hpart
    rcases List.mem_map.mp hpart with ⟨index, _, rfl⟩
    rfl)
  have hhere : decide ((a.1, args.length) ∈ registry.references) = true :=
    (everywhere_iff.mp hstored).left
  rw [hargs] at hhere
  exact of_decide_eq_true hhere

theorem ends_generic {name : Symbol} {arity : Nat}
    (h : forall other, Leads sight registry other (name, arity) ->
      (generic other.1 other.2).Ends sight registry) :
    (generic name arity).Ends sight registry := by
  have hreached : forall t, TransGen (Opens sight registry) t (generic name arity) ->
      t.Ends sight registry := by
    intro t
    induction t using induction_parts with
    | step t ih =>
        intro hreached
        cases t with
        | named other args =>
            have hends := h (other, args.length) ⟨args, rfl, hreached⟩
            refine hends.of_matches (matches_generic other args) ?_
            intro arg harg hlater
            exact ih arg harg (TransGen.trans_right hlater hreached)
        | _ => exact ends_of_closed rfl
  refine Acc.intro _ ?_
  intro inner hinner
  exact hreached inner (TransGen.single hinner)

theorem ends_of_not_returns (h : forall name arity, ¬ registry.Returns sight name arity) (t : Ty) :
    t.Ends sight registry := by
  have hfinite : forall x, x ∈ registry.references -> (generic x.1 x.2).Ends sight registry := by
    let leads := fun a b : { x // x ∈ registry.references.toFinset } =>
      Leads sight registry a.1 b.1
    have htrans : IsTrans _ leads := ⟨fun _ _ _ => Leads.trans⟩
    have hirrefl : Std.Irrefl leads := ⟨fun a hself => h a.1.1 a.1.2 hself⟩
    have hfounded : WellFounded leads := Finite.wellFounded_of_trans_of_irrefl leads
    -- by induction along this order; all that a box leads to is among the references
    intro x hx
    have hall : forall a : { x // x ∈ registry.references.toFinset },
        (generic a.1.1 a.1.2).Ends sight registry := by
      intro a
      induction a using hfounded.induction with
      | _ a ih =>
          refine ends_generic ?_
          intro other hother
          exact ih ⟨other, List.mem_toFinset.mpr hother.mem_references⟩ hother
    exact hall ⟨x, List.mem_toFinset.mpr hx⟩
  induction t using induction_parts with
  | step t ih =>
      cases t with
      | named name args =>
          have hgeneric : (generic name args.length).Ends sight registry :=
            ends_generic fun other hother => hfinite other hother.mem_references
          exact hgeneric.of_matches (matches_generic name args) fun arg harg _ => ih arg harg
      | _ => exact ends_of_closed rfl

/-- All chains end just if no box comes back to itself. -/
theorem ends_iff_not_returns :
    (forall t : Ty, t.Ends sight registry) ↔
      forall name arity, ¬ registry.Returns sight name arity := by
  constructor
  · intro h name arity hreturns
    have hlength : ((List.range arity).map fun index => Ty.param index false).length = arity := by
      simp
    exact Returns.not_ends (hlength.symm ▸ hreturns) (h _)
  · exact ends_of_not_returns

end Registry
end TypeChecker
