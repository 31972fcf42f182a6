import TypeChecker.Proofs.Assign.WithinBounds
import Mathlib.Data.List.Forall2

/-!
# Likeness as an equivalence

Two types are alike if they are the same once inference marks and slots are taken off.
That needs the fields of bundles to be listed in order, as they are in every type that is
written. Likeness is then an equivalence, and types that are alike stay so when types that
are alike replace their parameters.
-/

namespace TypeChecker

/-!
## Marks and slots taken off
-/

/-- The fields of a bundle are listed in the order of their names. -/
def Former.isOrdered : Former -> Bool
  | .bundle fields =>
      decide ((fields.map Prod.fst).Pairwise fun a b => KeyOrder.order a b = .lt)
  | _ => true

theorem Former.isOrdered_of_isPlain {f : Former} (h : f.isPlain = true) : f.isOrdered = true := by
  cases f with
  | bundle fields => exact h
  | _ => rfl

theorem Former.isPlain_of_isOrdered {f : Former} (h : f.isOrdered = true)
    (hparam : f.isParam = false) : f.isPlain = true := by
  cases f with
  | param index inferring => cases hparam
  | bundle fields => exact h
  | _ => rfl

/-- A type whose bundles all list their fields in the order of their names. -/
def OrderedTy := { t : Ty // t.everywhere Former.isOrdered = true }

namespace Ty

mutual

def bare : Ty -> Ty
  | .param index _ => .param index false
  | .named name args => .named name (bareList args)
  | .tuple items => .tuple (bareList items)
  | .bundle fields => .bundle (bareFields fields)
  | .func input output => .func (bare input) (bare output)
  | t => t

def bareList : List Ty -> List Ty
  | [] => []
  | t :: rest => bare t :: bareList rest

def bareFields : List (String × Field Ty) -> List (String × Field Ty)
  | [] => []
  | (name, ⟨_, t⟩) :: rest => (name, ⟨0, bare t⟩) :: bareFields rest

end

theorem bareFields_eq (fields : List (String × Field Ty)) :
    bareFields fields = fields.map fun item => (item.1, ⟨0, item.2.type.bare⟩) := by
  induction fields with
  | nil => rfl
  | cons item fields ih =>
      rcases item with ⟨name, ⟨slot, t⟩⟩
      rw [bareFields, ih, List.map_cons]

/-!
## Types that are alike
-/

theorem alikeList_iff {as bs : List Ty}
    (h : forall a, a ∈ as -> forall b, b ∈ bs -> (a.alike b = true ↔ a.bare = b.bare)) :
    alikeList as bs = true ↔ bareList as = bareList bs := by
  induction as generalizing bs with
  | nil => cases bs <;> simp [alikeList, bareList]
  | cons a as ih =>
      cases bs with
      | nil => simp [alikeList, bareList]
      | cons b bs =>
          have hrest := ih fun x hx y hy =>
            h x (List.mem_cons_of_mem _ hx) y (List.mem_cons_of_mem _ hy)
          rw [alikeList, Bool.and_eq_true, h a List.mem_cons_self b List.mem_cons_self, hrest,
            bareList, bareList, List.cons.injEq]

theorem alikeFields_of_found {as : List (String × Field Ty)} {bs : Table String (Field Ty)}
    (h : forall item, item ∈ as ->
      exists field, Table.get? bs item.1 = some field ∧ item.2.type.alike field.type = true) :
    alikeFields as bs = true := by
  induction as with
  | nil => rfl
  | cons item as ih =>
      rcases item with ⟨name, ⟨slot, a⟩⟩
      rcases h _ List.mem_cons_self with ⟨field, hfield, halike⟩
      rw [alikeFields, hfield, Bool.and_eq_true]
      exact ⟨halike, ih fun x hx => h x (List.mem_cons_of_mem _ hx)⟩

theorem alike_bundles_iff {as bs : List (String × Field Ty)}
    (has : (Ty.bundle as).former.isOrdered = true) (hbs : (Ty.bundle bs).former.isOrdered = true)
    (h : forall a, a ∈ (Ty.bundle as).parts -> forall b, b ∈ (Ty.bundle bs).parts ->
      (a.alike b = true ↔ a.bare = b.bare)) :
    (Ty.bundle as).alike (.bundle bs) = true ↔ (Ty.bundle as).bare = (Ty.bundle bs).bare := by
  have hpart : forall {item : String × Field Ty} {fields : List (String × Field Ty)},
      item ∈ fields -> item.2.type ∈ (Ty.bundle fields).parts :=
    fun hitem => List.mem_map.mpr ⟨_, hitem, rfl⟩
  constructor
  · intro halike
    rcases alike_bundles has hbs halike with ⟨hnames, hall⟩
    have hlen : as.length = bs.length := by simpa using congrArg List.length hnames
    rw [bare, bare, bareFields_eq, bareFields_eq]
    congr 1
    refine List.ext_getElem (by simpa using hlen) ?_
    intro k hk hk'
    simp only [List.length_map] at hk hk'
    have hname : (as.map Prod.fst)[k]? = (bs.map Prod.fst)[k]? := by rw [hnames]
    have htype := hall k as[k] bs[k] (List.getElem?_eq_getElem hk) (List.getElem?_eq_getElem hk')
    rw [h _ (hpart (List.getElem_mem hk)) _ (hpart (List.getElem_mem hk'))] at htype
    simp only [List.getElem?_map, List.getElem?_eq_getElem hk, List.getElem?_eq_getElem hk',
      Option.map_some, Option.some.injEq] at hname
    rw [List.getElem_map, List.getElem_map, hname, htype]
  · intro hbare
    rw [bare, bare, bareFields_eq, bareFields_eq, bundle.injEq] at hbare
    rw [alike, Bool.and_eq_true, beq_iff_eq]
    refine ⟨by simpa using congrArg List.length hbare, alikeFields_of_found ?_⟩
    intro item hitem
    have hfound := List.mem_map_of_mem (f := fun item : String × Field Ty =>
      (item.1, (⟨0, item.2.type.bare⟩ : Field Ty))) hitem
    rw [hbare] at hfound
    rcases List.mem_map.mp hfound with ⟨other, hother, hsame⟩
    simp only [Prod.mk.injEq, Field.mk.injEq, true_and] at hsame
    refine ⟨other.2, ?_, (h _ (hpart hitem) _ (hpart hother)).mpr hsame.right.symm⟩
    rw [<- hsame.left]
    exact field_of_plain hbs hother

/-- Types are alike if they are the same without marks and slots. -/
theorem alike_iff {a b : Ty} (ha : a.everywhere Former.isOrdered = true)
    (hb : b.everywhere Former.isOrdered = true) : a.alike b = true ↔ a.bare = b.bare := by
  induction a using induction_parts generalizing b with
  | step a ih =>
      rcases everywhere_iff.mp ha with ⟨haHere, haParts⟩
      rcases everywhere_iff.mp hb with ⟨hbHere, hbParts⟩
      have hparts : forall x, x ∈ a.parts -> forall y, y ∈ b.parts ->
          (x.alike y = true ↔ x.bare = y.bare) :=
        fun x hx y hy => ih x hx (haParts x hx) (hbParts y hy)
      cases a <;> cases b
      case named.named name as other bs =>
        have hargs : alikeList as bs = true ↔ bareList as = bareList bs := alikeList_iff hparts
        rw [alike, bare, bare, Bool.and_eq_true, beq_iff_eq, named.injEq, hargs]
      case tuple.tuple as bs =>
        rw [alike, bare, bare, tuple.injEq]
        exact alikeList_iff hparts
      case bundle.bundle as bs => exact alike_bundles_iff haHere hbHere hparts
      case func.func input output input' output' =>
        rw [alike, bare, bare, Bool.and_eq_true, func.injEq,
          hparts input (by simp [parts]) input' (by simp [parts]),
          hparts output (by simp [parts]) output' (by simp [parts])]
      all_goals simp [alike, bare]

theorem alike_equivalence : Equivalence fun a b : OrderedTy => a.val.alike b.val = true where
  refl a := (alike_iff a.property a.property).mpr rfl
  symm {a b} hab := by
    rw [alike_iff a.property b.property] at hab
    exact (alike_iff b.property a.property).mpr hab.symm
  trans {a b c} hab hbc := by
    rw [alike_iff a.property b.property] at hab
    rw [alike_iff b.property c.property] at hbc
    exact (alike_iff a.property c.property).mpr (hab.trans hbc)

/-!
## Replacing parameters
-/

theorem alikeList_of_items {as bs : List Ty} (hlen : as.length = bs.length)
    (h : forall (k : Nat) x y, as[k]? = some x -> bs[k]? = some y -> x.alike y = true) :
    alikeList as bs = true := by
  induction as generalizing bs with
  | nil =>
      cases bs with
      | nil => rfl
      | cons b bs => cases hlen
  | cons a as ih =>
      cases bs with
      | nil => cases hlen
      | cons b bs =>
          rw [alikeList, Bool.and_eq_true]
          exact ⟨h 0 a b rfl rfl, ih (Nat.succ.inj hlen) fun k => h (k + 1)⟩

theorem alikeList_map {f g : Ty -> Ty} {as bs : List Ty} (h : alikeList as bs = true)
    (hmap : forall a, a ∈ as -> forall b, a.alike b = true -> (f a).alike (g b) = true) :
    alikeList (as.map f) (bs.map g) = true := by
  rcases alikeList_eq_true h with ⟨hlen, hall⟩
  refine alikeList_of_items (by simpa using hlen) ?_
  intro k x y hx hy
  rw [List.getElem?_map] at hx hy
  rcases Option.map_eq_some_iff.mp hx with ⟨a, ha, rfl⟩
  rcases Option.map_eq_some_iff.mp hy with ⟨b, hb, rfl⟩
  exact hmap a (List.mem_of_getElem? ha) b (hall k a b ha hb)

/-- Replacing parameters by types that are alike keeps types alike. Marks do not matter,
so a parameter may be chosen for differently where it is being inferred. -/
theorem alike_replace {choose other : Nat -> Bool -> Option Ty}
    (hchoose : forall index p q, ((choose index p).getD (.param index p)).alike
      ((other index q).getD (.param index q)) = true)
    {a b : Ty} (h : a.alike b = true) : (a.replace choose).alike (b.replace other) = true := by
  induction a using induction_parts generalizing b with
  | step a ih =>
      have hparts : forall x, x ∈ a.parts -> forall y, x.alike y = true ->
          (x.replace choose).alike (y.replace other) = true := fun x hx y => ih x hx
      cases a <;> cases b <;> try cases h
      case param.param index p index' q =>
        rw [alike, beq_iff_eq] at h
        rw [h]
        exact hchoose index' p q
      case named.named name as name' bs =>
        rw [alike, Bool.and_eq_true] at h
        rw [replace, replace, alike, Bool.and_eq_true, replaceList_eq, replaceList_eq]
        exact ⟨h.left, alikeList_map h.right hparts⟩
      case tuple.tuple as bs =>
        rw [replace, replace, alike, replaceList_eq, replaceList_eq]
        exact alikeList_map h hparts
      case bundle.bundle as bs =>
        rw [alike, Bool.and_eq_true] at h
        rw [replace, replace, alike, Bool.and_eq_true, replaceFields_eq, replaceFields_eq]
        refine ⟨by simpa using h.left, alikeFields_of_found ?_⟩
        intro item hitem
        rcases List.mem_map.mp hitem with ⟨old, hold, rfl⟩
        rcases alikeFields_eq_true h.right old hold with ⟨field, hfield, halike⟩
        refine ⟨⟨field.slot, field.type.replace other⟩, ?_,
          hparts _ (List.mem_map.mpr ⟨old, hold, rfl⟩) _ halike⟩
        rw [Table.get?_map (fun field : Field Ty =>
          (⟨field.slot, field.type.replace other⟩ : Field Ty)), hfield]
        rfl
      case func.func input output input' output' =>
        rw [alike, Bool.and_eq_true] at h
        rw [replace, replace, alike, Bool.and_eq_true]
        exact ⟨hparts input (by simp [parts]) _ h.left,
          hparts output (by simp [parts]) _ h.right⟩
      all_goals rfl

theorem alike_instantiate {a b : Ty} {as bs : List Ty} (h : a.alike b = true)
    (hargs : List.Forall₂ (fun x y => x.alike y = true) as bs) :
    (a.instantiate as).alike (b.instantiate bs) = true := by
  refine alike_replace ?_ h
  intro index p q
  by_cases hindex : index < as.length
  · have hother : index < bs.length := hargs.length_eq ▸ hindex
    rw [List.getElem?_eq_getElem hindex, List.getElem?_eq_getElem hother]
    exact hargs.get hindex hother
  · have hother : ¬ index < bs.length := hargs.length_eq ▸ hindex
    rw [List.getElem?_eq_none (Nat.le_of_not_lt hindex),
      List.getElem?_eq_none (Nat.le_of_not_lt hother)]
    simp [alike]

end Ty
end TypeChecker
