import TypeChecker.Bounds
import TypeChecker.Proofs.Unboxing.Shapes

/-!
# Types within a bound

A type lies within a bound if opening its boxes leads to a type that is alike. Types are
alike that differ in the slots of bundle fields, but such types do not fit each other. So
a type within a bound fits there if the slots agree as well.
-/

namespace TypeChecker

open Assign Relation

/-!
## Types that are alike
-/

def Former.slots : Former -> List Nat
  | .bundle fields => fields.map Prod.snd
  | _ => []

namespace Ty

/-- The slots of all bundle fields in a type, in the order they are written. -/
def slots (t : Ty) : List Nat :=
  t.formers.flatMap Former.slots

theorem slots_eq (t : Ty) : t.slots = t.former.slots ++ t.parts.flatMap slots := by
  rw [slots, formers_eq, List.flatMap_cons, List.flatMap_assoc]
  rfl

theorem alikeList_eq_true {as bs : List Ty} (h : alikeList as bs = true) :
    as.length = bs.length ∧
      forall (k : Nat) x y, as[k]? = some x -> bs[k]? = some y -> x.alike y = true := by
  induction as generalizing bs with
  | nil =>
      cases bs with
      | nil => exact ⟨rfl, fun k x y hx => by cases hx⟩
      | cons b bs => cases h
  | cons a as ih =>
      cases bs with
      | nil => cases h
      | cons b bs =>
          rw [alikeList, Bool.and_eq_true] at h
          rcases ih h.right with ⟨hlen, hall⟩
          refine ⟨by rw [List.length_cons, List.length_cons, hlen], ?_⟩
          intro k x y hx hy
          cases k with
          | zero =>
              cases hx
              cases hy
              exact h.left
          | succ k => exact hall k x y hx hy

theorem alikeFields_eq_true {as : List (String × Field Ty)} {bs : Table String (Field Ty)}
    (h : alikeFields as bs = true) :
    forall item, item ∈ as ->
      exists field, Table.get? bs item.1 = some field ∧ item.2.type.alike field.type = true := by
  induction as with
  | nil =>
      intro item hitem
      cases hitem
  | cons head as ih =>
      rcases head with ⟨name, ⟨slot, a⟩⟩
      rw [alikeFields, Bool.and_eq_true] at h
      intro item hitem
      rcases List.mem_cons.mp hitem with rfl | hitem
      · have hhead := h.left
        split at hhead
        · rename_i field hfield
          exact ⟨field, hfield, hhead⟩
        · cases hhead
      · exact ih h.right item hitem

theorem alike_bundles {as bs : List (String × Field Ty)}
    (has : (Ty.bundle as).former.isPlain = true) (hbs : (Ty.bundle bs).former.isPlain = true)
    (h : (Ty.bundle as).alike (.bundle bs) = true) :
    as.map Prod.fst = bs.map Prod.fst ∧
      forall (k : Nat) a b, as[k]? = some a -> bs[k]? = some b ->
        a.2.type.alike b.2.type = true := by
  rw [alike, Bool.and_eq_true, beq_iff_eq] at h
  rcases h with ⟨hlen, hfields⟩
  have hfound := alikeFields_eq_true hfields
  have hnames : as.map Prod.fst = bs.map Prod.fst := by
    apply (ordered_of_plain has).eq_of_subset (ordered_of_plain hbs) (by simpa using hlen)
    intro name hname
    rcases List.mem_map.mp hname with ⟨item, hitem, rfl⟩
    rcases hfound item hitem with ⟨field, hfield, _⟩
    exact List.mem_map.mpr ⟨_, Table.mem_of_get? hfield, rfl⟩
  refine ⟨hnames, ?_⟩
  intro k a b ha hb
  rcases hfound a (List.mem_of_getElem? ha) with ⟨field, hfield, halike⟩
  have hname : a.1 = b.1 := by
    have hsame : (as.map Prod.fst)[k]? = (bs.map Prod.fst)[k]? := by rw [hnames]
    simpa [ha, hb] using hsame
  rw [hname, field_of_plain hbs (List.mem_of_getElem? hb)] at hfield
  cases hfield
  exact halike

theorem alike_parts {a b : Ty} (ha : a.former.isPlain = true) (hb : b.former.isPlain = true)
    (h : a.alike b = true) :
    a.Alike b ∧ a.parts.length = b.parts.length ∧
      forall (k : Nat) x y, a.parts[k]? = some x -> b.parts[k]? = some y -> x.alike y = true := by
  cases a <;> cases b <;> try cases h
  case never.never => exact ⟨Or.inl rfl, rfl, fun k x y hx => by cases hx⟩
  case any.any => exact ⟨Or.inl rfl, rfl, fun k x y hx => by cases hx⟩
  case unit.unit => exact ⟨Or.inl rfl, rfl, fun k x y hx => by cases hx⟩
  case param.param index inferring other inferring' =>
    rw [alike, beq_iff_eq] at h
    simp only [former, Former.isPlain, Bool.not_eq_true'] at ha hb
    exact ⟨Or.inl (by rw [h, ha, hb]), rfl, fun k x y hx => by cases hx⟩
  case named.named name as other bs =>
    rw [alike, Bool.and_eq_true, beq_iff_eq] at h
    rcases alikeList_eq_true h.right with ⟨hlen, hall⟩
    exact ⟨Or.inl (by rw [former, former, h.left, hlen]), hlen, hall⟩
  case tuple.tuple as bs =>
    rcases alikeList_eq_true h with ⟨hlen, hall⟩
    exact ⟨Or.inl (by rw [former, former, hlen]), hlen, hall⟩
  case bundle.bundle as bs =>
    rcases alike_bundles ha hb h with ⟨hnames, hall⟩
    refine ⟨Or.inr ⟨as, bs, rfl, rfl, hnames⟩, ?_, ?_⟩
    · simpa [parts] using congrArg List.length hnames
    · intro k x y hx hy
      simp only [parts, List.getElem?_map] at hx hy
      rcases Option.map_eq_some_iff.mp hx with ⟨a, ha, rfl⟩
      rcases Option.map_eq_some_iff.mp hy with ⟨b, hb, rfl⟩
      exact hall k a b ha hb
  case func.func input output input' output' =>
    rw [alike, Bool.and_eq_true] at h
    refine ⟨Or.inl rfl, rfl, ?_⟩
    intro k x y hx hy
    rcases k with _ | _ | k
    · cases hx
      cases hy
      exact h.left
    · cases hx
      cases hy
      exact h.right
    · cases hx

theorem Alike.slots {a b : Ty} (h : a.Alike b) :
    a.former.slots.length = b.former.slots.length ∧
      (a.former.slots = b.former.slots -> a.former = b.former) := by
  rcases h with hsame | ⟨as, bs, rfl, rfl, hnames⟩
  · rw [hsame]
    exact ⟨rfl, fun _ => rfl⟩
  · constructor
    · simpa [former, Former.slots] using congrArg List.length hnames
    · intro hslots
      simp only [former, Former.slots, List.map_map, Function.comp_def] at hslots ⊢
      rw [<- List.zip_map', <- List.zip_map', hslots, hnames]

theorem eq_of_slots {as bs : List Ty} (hlen : as.length = bs.length)
    (h : forall (k : Nat) x y, as[k]? = some x -> bs[k]? = some y ->
      x.slots.length = y.slots.length ∧ (x.slots = y.slots -> x = y)) :
    (as.flatMap Ty.slots).length = (bs.flatMap Ty.slots).length ∧
      (as.flatMap Ty.slots = bs.flatMap Ty.slots -> as = bs) := by
  induction as generalizing bs with
  | nil =>
      cases bs with
      | nil => exact ⟨rfl, fun _ => rfl⟩
      | cons b bs => cases hlen
  | cons a as ih =>
      cases bs with
      | nil => cases hlen
      | cons b bs =>
          rcases h 0 a b rfl rfl with ⟨hcount, hfirst⟩
          rcases ih (Nat.succ.inj hlen) fun k x y hx hy => h (k + 1) x y hx hy with ⟨hrest, hsame⟩
          simp only [List.flatMap_cons, List.length_append]
          refine ⟨by rw [hcount, hrest], ?_⟩
          intro hslots
          rcases List.append_inj hslots hcount with ⟨hhead, htail⟩
          rw [hfirst hhead, hsame htail]

/-- Types that are alike and have the same slots are the same. -/
theorem eq_of_alike {a b : Ty} (ha : a.everywhere Former.isPlain = true)
    (hb : b.everywhere Former.isPlain = true) (h : a.alike b = true) :
    a.slots.length = b.slots.length ∧ (a.slots = b.slots -> a = b) := by
  induction a using induction_parts generalizing b with
  | step a ih =>
      rcases everywhere_iff.mp ha with ⟨haHere, haParts⟩
      rcases everywhere_iff.mp hb with ⟨hbHere, hbParts⟩
      rcases alike_parts haHere hbHere h with ⟨halike, hlen, hparts⟩
      rcases halike.slots with ⟨hcount, hformer⟩
      have heach : forall (k : Nat) x y, a.parts[k]? = some x -> b.parts[k]? = some y ->
          x.slots.length = y.slots.length ∧ (x.slots = y.slots -> x = y) := by
        intro k x y hx hy
        have hmem := List.mem_of_getElem? hx
        exact ih x hmem (haParts x hmem) (hbParts y (List.mem_of_getElem? hy))
          (hparts k x y hx hy)
      rcases eq_of_slots hlen heach with ⟨hrest, hsame⟩
      rw [slots_eq a, slots_eq b, List.length_append, List.length_append]
      refine ⟨by rw [hcount, hrest], ?_⟩
      intro hslots
      rcases List.append_inj hslots hcount with ⟨hhere, hthere⟩
      exact eq_of_former_eq (hformer hhere) (hsame hthere)

end Ty

/-!
## Reaching a bound
-/

section

variable {ctx : TypeContext} {a b s : Ty}

/-- Without bounds to follow, what lies within a type is alike once it is opened. -/
theorem exists_alike_of_liesWithin (hbounds : ctx.bounds = {}) {depth : Nat}
    {met : List (Nat × Bool)} (h : ctx.liesWithin depth met a b = some true) :
    exists s, ctx.Shows s a ∧ s.alike b = true := by
  have hfollow : forall met t, (Bounds.follow [] met t).1 = none := by
    intro met t
    unfold Bounds.follow
    split
    · split <;> rfl
    · rfl
  induction depth generalizing met a with
  | zero => cases h
  | succ depth ih =>
      rw [TypeContext.liesWithin, hbounds] at h
      split at h
      · rename_i hupper
        cases (hfollow met a).symm.trans (congrArg Prod.fst hupper)
      · split at h
        · rename_i hlower
          cases (hfollow _ b).symm.trans (congrArg Prod.fst hlower)
        · split at h
          · rename_i halike
            exact ⟨a, ReflTransGen.refl, halike⟩
          · split at h
            · rename_i inner hunbox
              rcases ih h with ⟨s, hshows, halike⟩
              exact ⟨s, hshows.tail (Ty.inside?_ofModule.mpr hunbox), halike⟩
            · cases h

theorem admits_of_shows (hknown : b.everywhere (Former.isKnown ctx.registry) = true)
    (h : ctx.Shows b a) : Admits ctx .toTarget b a := by
  induction h with
  | refl => exact Admits.self .toTarget hknown
  | tail _ hopens ih => exact Admits.opened (Ty.inside?_ofModule.mp hopens) ih

/-- `t` is met before `b` when the boxes of `a` are opened. -/
def TypeContext.MeetsBefore (ctx : TypeContext) (b a t : Ty) : Prop :=
  t ≠ b ∧ ReflTransGen (fun inner outer =>
    outer ≠ b ∧ Ty.Opens (.ofModule ctx.module) ctx.registry inner outer) t a

theorem assigns_of_shows (hbounds : ctx.bounds = {})
    (hknown : b.everywhere (Former.isKnown ctx.registry) = true) (h : ctx.Shows b a)
    (hdirect : forall t, ctx.MeetsBefore b a t ->
      exists depth, ((assignDirectly ctx depth .toTarget b t).outcome .disabled).isSome = true) :
    Assigns ctx .toTarget b a := by
  induction h with
  | refl => exact Assigns.self hbounds .toTarget hknown
  | @tail inner t hshows hopens ih =>
      by_cases hsame : t = b
      · rw [hsame]
        exact Assigns.self hbounds .toTarget hknown
      rcases hdirect t ⟨hsame, ReflTransGen.refl⟩ with ⟨depth, hdepth⟩
      rcases ih fun s hs => hdirect s ⟨hs.left, hs.right.tail ⟨hsame, hopens⟩⟩ with
        ⟨later, hlater⟩
      have hunbox := Ty.inside?_ofModule.mp hopens
      have hnever : t ≠ .never := by
        rintro rfl
        cases hunbox
      have hafterwards :
          ((afterwards ctx (assign ctx later) .toTarget b t).outcome .disabled).isSome = true := by
        rw [afterwards_toTarget, if_neg hnever]
        split
        · rfl
        · rw [hunbox]
          rcases Inferring.verdict_eq_true.mp hlater with ⟨result, i, hrun⟩
          exact Option.isSome_iff_exists.mpr ⟨_, hrun⟩
      rcases assign_answers hdepth hafterwards with ⟨enough, hanswer⟩
      rcases Option.isSome_iff_exists.mp hanswer with ⟨⟨result, i⟩, hrun⟩
      refine ⟨enough, ?_⟩
      rw [Inferring.verdict, hrun, Option.map_some,
        (admits_of_shows hknown (hshows.tail hopens)).isOk hrun]

/-- Over a registry declared without problems, a type within a bound opens to a type that
is alike to the bound. If the slots of the two agree it is the bound itself. The type is
then accepted where the bound is expected, as long as matching the bound with the types
met before comes to an end, and refused in no case. -/
theorem types_within_bounds_fit (hdeclared : ctx.registry.Declared) (hbounds : ctx.bounds = {})
    (ha : a.isOver ctx.registry = true) (hb : b.isOver ctx.registry = true) {depth : Nat}
    (h : ctx.isWithin depth a b = some true) :
    exists s, ctx.Shows s a ∧ s.alike b = true ∧
      (s.slots = b.slots -> s = b ∧
        (forall n answer, fits ctx n b a = some answer -> answer = true) ∧
        ((forall t, ctx.MeetsBefore b a t ->
            exists n, ((assignDirectly ctx n .toTarget b t).outcome .disabled).isSome = true) ->
          exists enough, forall n, enough ≤ n -> fits ctx n b a = some true)) := by
  rcases exists_alike_of_liesWithin hbounds h with ⟨s, hshows, halike⟩
  refine ⟨s, hshows, halike, ?_⟩
  intro hslots
  have haKnown := (Ty.isOver_iff.mp ha).left
  have hbKnown := (Ty.isOver_iff.mp hb).left
  have hsame : s = b := (Ty.eq_of_alike
    (Ty.plain_of_known (hshows.everywhere hdeclared.lawful.known haKnown))
    (Ty.plain_of_known hbKnown) halike).right hslots
  subst hsame
  refine ⟨rfl, ?_, ?_⟩
  · intro n answer hanswer
    exact (admits_of_shows hbKnown hshows).answer_eq hanswer
  · intro hdirect
    rcases assigns_of_shows hbounds hbKnown hshows hdirect with ⟨enough, haccepts⟩
    exact ⟨enough, fun n hn => assign_verdict_mono hn haccepts⟩

end

/-- A box around a box around a bundle lies within the bundle and fits there. -/
theorem boxed_bundle_within_bound :
    let num := Ty.named ⟨"Main", "Num"⟩ []
    let box := fun t => Ty.named ⟨"Main", "Box"⟩ [t]
    let bound := Ty.bundle [("x", ⟨1, num⟩), ("y", ⟨0, box num⟩)]
    boxContext.isWithin 3 (box (box bound)) bound = some true ∧
      exists enough, forall n, enough ≤ n ->
        fits boxContext n bound (box (box bound)) = some true := by
  intro num box bound
  have hwithin : boxContext.isWithin 3 (box (box bound)) bound = some true := by decide +kernel
  have houter : (box (box bound)).inside? (.ofModule boxContext.module) boxContext.registry =
      some (box bound) := by decide +kernel
  have hinner : (box bound).inside? (.ofModule boxContext.module) boxContext.registry =
      some bound := by decide +kernel
  have hshown : forall s, boxContext.Shows s (box (box bound)) ->
      s = box (box bound) ∨ s = box bound ∨ s = bound := by
    intro s hs
    rcases hs.cases_tail with rfl | ⟨t, hs, hopens⟩
    · exact Or.inl rfl
    · cases houter.symm.trans hopens
      rcases hs.cases_tail with rfl | ⟨t, hs, hopens⟩
      · exact Or.inr (Or.inl rfl)
      · cases hinner.symm.trans hopens
        rcases hs.cases_tail with rfl | ⟨t, hs, hopens⟩
        · exact Or.inr (Or.inr rfl)
        · cases hopens
  refine ⟨hwithin, ?_⟩
  rcases types_within_bounds_fit boxContext_declared rfl (by decide +kernel) (by decide +kernel)
    hwithin with ⟨s, hs, halike, hfits⟩
  have hslots : s.slots = bound.slots := by
    rcases hshown s hs with rfl | rfl | rfl
    · cases halike
    · cases halike
    · rfl
  refine (hfits hslots).right.right ?_
  rintro t ⟨hother, hpath⟩
  refine ⟨1, ?_⟩
  rcases hshown t (hpath.lift id fun _ _ h => And.right h) with rfl | rfl | rfl
  · rfl
  · rfl
  · exact absurd rfl hother

/-- Bundles that have their fields in different slots are alike, but do not fit. -/
theorem bundle_within_bound_misfits :
    let a := Ty.bundle [("x", ⟨0, .unit⟩), ("y", ⟨1, .unit⟩)]
    let b := Ty.bundle [("x", ⟨1, .unit⟩), ("y", ⟨0, .unit⟩)]
    boxContext.registry.Declared ∧ a.isOver boxContext.registry = true ∧
      b.isOver boxContext.registry = true ∧ boxContext.isWithin 1 a b = some true ∧
      forall n, 2 ≤ n -> fits boxContext n b a = some false := by
  intro a b
  refine ⟨boxContext_declared, by decide +kernel, by decide +kernel, by decide +kernel, ?_⟩
  intro n hn
  exact assign_verdict_mono hn (show fits boxContext 2 b a = some false by decide +kernel)

end TypeChecker
