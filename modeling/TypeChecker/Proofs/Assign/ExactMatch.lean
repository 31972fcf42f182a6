import TypeChecker.Proofs.Assign.Likeness

/-!
# Exact matches

In the exact direction nothing is absorbed, opened or followed to a bound, so that a match
goes down the two types together and comes to an end. It accepts just the types that are
alike and have their fields in the same slots.
-/

namespace TypeChecker

open Assign

/-!
## Fields in the same slots
-/

namespace Ty

mutual

/-- Whether fields of one name have the same slot wherever two types correspond. -/
def sameSlots : Ty -> Ty -> Bool
  | .named _ as, .named _ bs => sameSlotsList as bs
  | .tuple as, .tuple bs => sameSlotsList as bs
  | .bundle as, .bundle bs => sameSlotsFields as bs
  | .func a b, .func c d => sameSlots a c && sameSlots b d
  | _, _ => true

def sameSlotsList : List Ty -> List Ty -> Bool
  | a :: as, b :: bs => sameSlots a b && sameSlotsList as bs
  | _, _ => true

def sameSlotsFields : List (String × Field Ty) -> Table String (Field Ty) -> Bool
  | [], _ => true
  | (name, ⟨slot, a⟩) :: as, bs =>
      (match Table.get? bs name with
        | some field => slot == field.slot && sameSlots a field.type
        | none => true) && sameSlotsFields as bs

end

theorem sameSlotsList_iff {as bs : List Ty} :
    sameSlotsList as bs = true ↔
      forall (k : Nat) x y, as[k]? = some x -> bs[k]? = some y -> x.sameSlots y = true := by
  induction as generalizing bs with
  | nil => simp [sameSlotsList]
  | cons a as ih =>
      cases bs with
      | nil => simp [sameSlotsList]
      | cons b bs =>
          rw [sameSlotsList, Bool.and_eq_true, ih]
          constructor
          · rintro ⟨hhead, htail⟩ k x y hx hy
            cases k with
            | zero =>
                cases hx
                cases hy
                exact hhead
            | succ k => exact htail k x y hx hy
          · intro h
            exact ⟨h 0 a b rfl rfl, fun k => h (k + 1)⟩

theorem sameSlotsFields_iff {as : List (String × Field Ty)} {bs : Table String (Field Ty)} :
    sameSlotsFields as bs = true ↔
      forall item, item ∈ as -> forall field, Table.get? bs item.1 = some field ->
        item.2.slot = field.slot ∧ item.2.type.sameSlots field.type = true := by
  induction as with
  | nil => simp [sameSlotsFields]
  | cons item as ih =>
      rcases item with ⟨name, ⟨slot, a⟩⟩
      rw [sameSlotsFields, Bool.and_eq_true, ih, List.forall_mem_cons]
      cases Table.get? bs name <;> simp

/-- Types that are alike and have their fields in the same slots. -/
structure Coincide (a b : Ty) : Prop where
  alike : a.alike b = true
  slots : a.sameSlots b = true

theorem field_beside {as bs : List (String × Field Ty)}
    (hbs : (Ty.bundle bs).former.isOrdered = true) (hnames : as.map Prod.fst = bs.map Prod.fst)
    {k : Nat} {a b : String × Field Ty} (ha : as[k]? = some a) (hb : bs[k]? = some b) :
    Table.get? bs a.1 = some b.2 := by
  have hsame : (as.map Prod.fst)[k]? = (bs.map Prod.fst)[k]? := by rw [hnames]
  have hname : a.1 = b.1 := by simpa [ha, hb] using hsame
  rw [hname]
  exact field_of_plain hbs (List.mem_of_getElem? hb)

theorem coincide_bundles {as bs : List (String × Field Ty)}
    (has : (Ty.bundle as).former.isOrdered = true) (hbs : (Ty.bundle bs).former.isOrdered = true) :
    (Ty.bundle as).Coincide (.bundle bs) ↔
      as.map (fun item => (item.1, item.2.slot)) = bs.map (fun item => (item.1, item.2.slot)) ∧
        forall (k : Nat) a b, as[k]? = some a -> bs[k]? = some b ->
          a.2.type.Coincide b.2.type := by
  constructor
  · rintro ⟨halike, hslots⟩
    rcases alike_bundles has hbs halike with ⟨hnames, hall⟩
    rw [sameSlots, sameSlotsFields_iff] at hslots
    rw [alike, Bool.and_eq_true, beq_iff_eq] at halike
    constructor
    · apply heads_eq_of_found (ordered_of_plain has) (ordered_of_plain hbs) halike.left
      intro item hitem
      rcases alikeFields_eq_true halike.right item hitem with ⟨field, hfield, _⟩
      exact ⟨field, hfield, (hslots item hitem field hfield).left.symm⟩
    · intro k a b ha hb
      have hfield := field_beside hbs hnames ha hb
      exact ⟨hall k a b ha hb, (hslots a (List.mem_of_getElem? ha) _ hfield).right⟩
  · rintro ⟨hheads, hall⟩
    have hlen : as.length = bs.length := by simpa using congrArg List.length hheads
    have hnames : as.map Prod.fst = bs.map Prod.fst := by
      simpa [Function.comp_def] using congrArg (List.map Prod.fst) hheads
    have hbeside : forall item, item ∈ as -> exists field, Table.get? bs item.1 = some field ∧
        item.2.slot = field.slot ∧ item.2.type.Coincide field.type := by
      intro item hitem
      rcases List.mem_iff_getElem?.mp hitem with ⟨k, ha⟩
      have hk : k < bs.length := hlen ▸ (List.getElem?_eq_some_iff.mp ha).choose
      have hb := List.getElem?_eq_getElem hk
      have hhead : (as.map (fun item => (item.1, item.2.slot)))[k]? =
          (bs.map (fun item => (item.1, item.2.slot)))[k]? := by rw [hheads]
      rw [List.getElem?_map, List.getElem?_map, ha, hb, Option.map_some, Option.map_some,
        Option.some.injEq, Prod.mk.injEq] at hhead
      exact ⟨_, field_beside hbs hnames ha hb, hhead.right, hall k _ _ ha hb⟩
    constructor
    · rw [alike, Bool.and_eq_true, beq_iff_eq]
      refine ⟨hlen, alikeFields_of_found ?_⟩
      intro item hitem
      rcases hbeside item hitem with ⟨field, hfield, _, hcoincide⟩
      exact ⟨field, hfield, hcoincide.alike⟩
    · rw [sameSlots, sameSlotsFields_iff]
      intro item hitem other hother
      rcases hbeside item hitem with ⟨field, hfield, hslot, hcoincide⟩
      cases hfield.symm.trans hother
      exact ⟨hslot, hcoincide.slots⟩

theorem coincide_lists {as bs : List Ty} :
    alikeList as bs = true ∧ sameSlotsList as bs = true ↔
      as.length = bs.length ∧
        forall (k : Nat) x y, as[k]? = some x -> bs[k]? = some y -> x.Coincide y := by
  rw [sameSlotsList_iff]
  constructor
  · rintro ⟨halike, hslots⟩
    rcases alikeList_eq_true halike with ⟨hlen, hall⟩
    exact ⟨hlen, fun k x y hx hy => ⟨hall k x y hx hy, hslots k x y hx hy⟩⟩
  · rintro ⟨hlen, hall⟩
    exact ⟨alikeList_of_items hlen fun k x y hx hy => (hall k x y hx hy).alike,
      fun k x y hx hy => (hall k x y hx hy).slots⟩

theorem coincide_functions {input output input' output' : Ty} :
    (Ty.func input output).Coincide (.func input' output') ↔
      input.Coincide input' ∧ output.Coincide output' := by
  constructor
  · rintro ⟨halike, hslots⟩
    rw [alike, Bool.and_eq_true] at halike
    rw [sameSlots, Bool.and_eq_true] at hslots
    exact ⟨⟨halike.left, hslots.left⟩, ⟨halike.right, hslots.right⟩⟩
  · rintro ⟨hinput, houtput⟩
    constructor
    · rw [alike, Bool.and_eq_true]
      exact ⟨hinput.alike, houtput.alike⟩
    · rw [sameSlots, Bool.and_eq_true]
      exact ⟨hinput.slots, houtput.slots⟩

theorem coincide_iff {a b : Ty} (hparam : a.former.isParam = false)
    (ha : a.former.isOrdered = true) (hb : b.former.isOrdered = true) :
    a.Coincide b ↔ a.former = b.former ∧
      forall (k : Nat) x y, a.parts[k]? = some x -> b.parts[k]? = some y -> x.Coincide y := by
  -- Types of two kinds neither coincide nor have one former; they are left for the end.
  cases a <;> cases b
  case param.param => cases hparam
  case never.never => exact iff_of_true ⟨rfl, rfl⟩ ⟨rfl, fun k x y hx => by cases hx⟩
  case any.any => exact iff_of_true ⟨rfl, rfl⟩ ⟨rfl, fun k x y hx => by cases hx⟩
  case unit.unit => exact iff_of_true ⟨rfl, rfl⟩ ⟨rfl, fun k x y hx => by cases hx⟩
  case named.named name as other bs =>
    rw [former, former, Former.named.injEq, and_assoc, parts, parts, <- coincide_lists]
    constructor
    · rintro ⟨halike, hslots⟩
      rw [alike, Bool.and_eq_true, beq_iff_eq] at halike
      exact ⟨halike.left, halike.right, hslots⟩
    · rintro ⟨hname, halike, hslots⟩
      refine ⟨?_, hslots⟩
      rw [alike, Bool.and_eq_true, beq_iff_eq]
      exact ⟨hname, halike⟩
  case tuple.tuple as bs =>
    rw [former, former, Former.tuple.injEq, parts, parts, <- coincide_lists]
    exact ⟨fun h => ⟨h.alike, h.slots⟩, fun h => ⟨h.left, h.right⟩⟩
  case bundle.bundle as bs =>
    rw [coincide_bundles ha hb, former, former, Former.bundle.injEq]
    refine and_congr_right fun _ => ?_
    constructor
    · intro hall k x y hx hy
      simp only [parts, List.getElem?_map] at hx hy
      rcases Option.map_eq_some_iff.mp hx with ⟨a, ha, rfl⟩
      rcases Option.map_eq_some_iff.mp hy with ⟨b, hb, rfl⟩
      exact hall k a b ha hb
    · intro hall k a b ha hb
      exact hall k _ _ (by simp [parts, ha]) (by simp [parts, hb])
  case func.func input output input' output' =>
    rw [coincide_functions]
    constructor
    · rintro ⟨hinput, houtput⟩
      refine ⟨rfl, ?_⟩
      intro k x y hx hy
      rcases k with _ | _ | k
      · cases hx
        cases hy
        exact hinput
      · cases hx
        cases hy
        exact houtput
      · cases hx
    · rintro ⟨_, hall⟩
      exact ⟨hall 0 input input' rfl rfl, hall 1 output output' rfl rfl⟩
  all_goals
    refine iff_of_false ?_ ?_
    · rintro ⟨halike, _⟩
      cases halike
    · rintro ⟨hformer, _⟩
      cases hformer

end Ty

/-!
## Exact matches come to an end
-/

namespace Inferring

variable {ε α β : Type} {i : Inference} {x : Inferring ε α}

theorem Keeps.bind_answers {f : α -> Inferring ε β} (hkeeps : x.Keeps i)
    (hx : (x.outcome i).isSome = true) (hf : forall a, ((f a).outcome i).isSome = true) :
    ((x >>= f).outcome i).isSome = true := by
  rcases Option.isSome_iff_exists.mp hx with ⟨⟨result, j⟩, hrun⟩
  cases hkeeps.eq hrun
  rw [outcome_bind, hrun]
  cases result with
  | ok a => exact hf a
  | error e => rfl

theorem bind_pure_answers {f : α -> β} (hx : (x.outcome i).isSome = true) :
    ((x >>= fun a => pure (f a)).outcome i).isSome = true := by
  rcases Option.isSome_iff_exists.mp hx with ⟨⟨result, j⟩, hrun⟩
  rw [outcome_bind, hrun]
  cases result <;> rfl

end Inferring

namespace Assign

open Inferring

variable {ctx : TypeContext} {recurse : Assigner} {d : Direction} {i : Inference}
  (hkeeps : forall d t g, (recurse d t g).Keeps i)

include hkeeps

theorem parts_answers {targets : List Ty}
    (h : forall t, t ∈ targets -> forall v g,
      ((recurse (d.within v) t g).outcome i).isSome = true)
    (vs : List Variance) (givens : List Ty) :
    ((parts recurse d vs targets givens).outcome i).isSome = true := by
  induction targets generalizing vs givens with
  | nil => cases vs <;> cases givens <;> rfl
  | cons t targets ih =>
      cases vs with
      | nil => cases givens <;> rfl
      | cons v vs =>
          cases givens with
          | nil => rfl
          | cons g givens =>
              have hrest := ih (fun s hs => h s (List.mem_cons_of_mem t hs)) vs givens
              exact (hkeeps _ t g).bind_answers (h t List.mem_cons_self v g)
                fun first => bind_pure_answers hrest

theorem fields_answers {table : Table String (Field Ty)} {targets : List (String × Field Ty)}
    (h : forall item, item ∈ targets -> forall g,
      ((recurse d item.2.type g).outcome i).isSome = true) :
    ((fields (recurse d) table targets).outcome i).isSome = true := by
  induction targets with
  | nil => rfl
  | cons item targets ih =>
      rcases item with ⟨name, field⟩
      have hrest := ih fun other hother => h other (List.mem_cons_of_mem _ hother)
      rw [fields]
      cases Table.get? table name with
      | none => rfl
      | some given =>
          rw [Assigning.ofOption, pure_bind]
          split
          · exact (hkeeps _ _ _).bind_answers (h _ List.mem_cons_self given.type)
              fun type => bind_pure_answers hrest
          · rfl

theorem structural_answers {target : Ty}
    (h : forall s, s ∈ target.parts -> forall v g,
      ((recurse (d.within v) s g).outcome i).isSome = true) (given : Ty) :
    ((structural ctx recurse d target given).outcome i).isSome = true := by
  unfold structural
  split
  · rfl
  · rfl
  · rfl
  · split
    · rename_i hsame
      simp only [Bool.and_eq_true, beq_iff_eq] at hsame
      split
      · rfl
      · apply bind_pure_answers
        rw [args_eq_parts hsame.right]
        exact parts_answers hkeeps h _ _
    · rfl
  · split
    · rename_i hlen
      apply bind_pure_answers
      rw [items_eq_parts hlen]
      exact parts_answers hkeeps h _ _
    · rfl
  · split
    · apply bind_pure_answers
      apply fields_answers hkeeps
      intro item hitem g
      have hpart := h _ (List.mem_map.mpr ⟨item, hitem, rfl⟩) .covariant g
      rwa [Direction.within_covariant] at hpart
    · rfl
  · rename_i input output givenInput givenOutput
    have hinput := h input (by simp [Ty.parts]) .contravariant givenInput
    have houtput := h output (by simp [Ty.parts]) .covariant givenOutput
    rw [Direction.within_contravariant] at hinput
    rw [Direction.within_covariant] at houtput
    exact (hkeeps _ _ _).bind_answers hinput fun result => bind_pure_answers houtput
  · rfl

omit hkeeps in
theorem fixedParam_answers (index : Nat) (given : Ty) :
    ((fixedParam ctx recurse .exact index given).outcome i).isSome = true := by
  unfold fixedParam
  split
  · split <;> rfl
  · rfl

end Assign

theorem assignDirectly_exact (ctx : TypeContext) (depth : Nat) (t given : Ty) :
    assignDirectly ctx (depth + 1) .exact t given =
      target ctx (assignDirectly ctx depth) (assign ctx depth) .exact t given := by
  have hbound : givenBound? ctx .exact given = none := by
    unfold givenBound?
    split <;> rfl
  rw [assignDirectly, directly, hbound]

/-- An exact match answers at a depth that the size of the target gives, whatever type it
is matched with and whatever is declared. -/
theorem exact_answers (ctx : TypeContext) (a b : Ty) {depth : Nat} (hdepth : 2 * sizeOf a ≤ depth) :
    ((assign ctx depth .exact a b).outcome .disabled).isSome = true := by
  induction a using Ty.induction_parts generalizing b depth with
  | step a ih =>
      -- A part takes two of the depth, one for the assignment and one for its direct match.
      have hpos : 0 < sizeOf a := by cases a <;> simp +arith
      obtain ⟨depth, rfl⟩ : exists n, depth = n + 2 := ⟨depth - 2, by omega⟩
      have hkeeps : forall d t g, (assign ctx depth d t g).Keeps .disabled :=
        fun d t g => assign_keeps (Or.inl rfl) (Or.inl rfl)
      have hparts : forall s, s ∈ a.parts -> forall v g,
          ((assign ctx depth (Direction.exact.within v) s g).outcome .disabled).isSome = true := by
        intro s hs v g
        have hsize := Ty.sizeOf_part_lt hs
        exact ih s hs g (by omega)
      have hdirect : ((assignDirectly ctx (depth + 1) .exact a b).outcome .disabled).isSome =
          true := by
        rw [assignDirectly_exact]
        cases hparam : a.former.isParam with
        | true =>
            rcases Ty.former_eq_param hparam with ⟨index, inferring, rfl⟩
            cases inferring with
            | true => rfl
            | false =>
                rw [Assign.target]
                exact fixedParam_answers index b
        | false =>
            rw [target_of_not_param hparam]
            exact structural_answers hkeeps hparts b
      rcases Option.isSome_iff_exists.mp hdirect with ⟨⟨result, j⟩, hrun⟩
      rw [assign_outcome, hrun]
      cases result <;> rfl

/-!
## What exact matches accept
-/

section

variable {ctx : TypeContext} {a b t : Ty}

theorem Admits.of_coincide (ha : a.everywhere (Former.isKnown ctx.registry) = true)
    (hb : b.everywhere Former.isOrdered = true) (h : a.Coincide b) : Admits ctx .exact a b := by
  induction a using Ty.induction_parts generalizing b with
  | step a ih =>
      rcases Ty.everywhere_iff.mp ha with ⟨haHere, haParts⟩
      rcases Ty.everywhere_iff.mp hb with ⟨hbHere, hbParts⟩
      cases hparam : a.former.isParam with
      | true =>
          rcases Ty.former_eq_param hparam with ⟨index, inferring, rfl⟩
          cases inferring with
          | true => cases haHere
          | false =>
              have halike := h.alike
              cases b <;> try cases halike
              rename_i other marked
              rw [Ty.alike, beq_iff_eq] at halike
              rw [halike]
              exact Admits.param other marked
      | false =>
          have haOrdered := Former.isOrdered_of_isPlain (Former.isPlain_of_isKnown haHere)
          rcases (Ty.coincide_iff hparam haOrdered hbHere).mp h with ⟨hformer, hparts⟩
          apply Admits.of_parts hparam hformer (hformer ▸ haHere)
          intro k v x y _ hx hy
          have hxMem := List.mem_of_getElem? hx
          exact ih x hxMem (haParts x hxMem) (hbParts y (List.mem_of_getElem? hy))
            (hparts k x y hx hy)

theorem Assign.structural_exact_ok {recurse : Assigner} {i j : Inference}
    (ha : a.former.isKnown ctx.registry = true) (hb : b.former.isOrdered = true)
    (hrecurse : forall x, x ∈ a.parts -> forall y, y ∈ b.parts -> forall r i' j',
      (recurse .exact x y).outcome i' = some (.ok r, j') -> r = y ∧ x.Coincide y)
    (h : (structural ctx recurse .exact a b).outcome i = some (.ok t, j)) :
    t = b ∧ a.Coincide b := by
  -- A parameter being inferred is ordered but not plain. No structure matches it.
  have hbParam : b.former.isParam = false := by
    cases hparam : b.former.isParam with
    | true =>
        rcases Ty.former_eq_param hparam with ⟨index, inferring, rfl⟩
        cases a <;> cases h
    | false => rfl
  have haPlain := Former.isPlain_of_isKnown ha
  have hbKnown := (known_of_structural_ok haPlain
    (Former.isPlain_of_isOrdered hb hbParam) h).right
  rcases structural_parts_ok ha hbKnown h with ⟨hformer, results, hrun, rfl⟩
  rcases parts_ok hrun with ⟨hlen, hall⟩
  have hsame := Ty.parts_length_eq hformer
  have heach : forall (k : Nat) x y, a.parts[k]? = some x -> b.parts[k]? = some y ->
      results[k]? = some y ∧ x.Coincide y := by
    intro k x y hx hy
    have hk : k < a.parts.length := (List.getElem?_eq_some_iff.mp hx).choose
    have hv := List.getElem?_eq_getElem
      (hk.trans_eq (Ty.length_positions ctx.registry a).symm)
    have hr := List.getElem?_eq_getElem (hk.trans_eq hlen.symm)
    rcases hall k _ x y _ hv hx hy hr with ⟨i', j', hpart⟩
    rcases hrecurse x (List.mem_of_getElem? hx) y (List.mem_of_getElem? hy) _ i' j' hpart with
      ⟨hresult, hcoincide⟩
    exact ⟨hr.trans (congrArg some hresult), hcoincide⟩
  have hresults : results = b.parts := by
    apply List.ext_getElem (hlen.trans hsame)
    intro k hk hk'
    have hx := List.getElem?_eq_getElem (hk'.trans_eq hsame.symm)
    have hr := (heach k _ _ hx (List.getElem?_eq_getElem hk')).left
    exact (List.getElem?_eq_some_iff.mp hr).choose_spec
  constructor
  · rw [hresults]
    exact Ty.eq_of_former_eq ((Former.former_build hsame.symm).trans hformer)
      (Former.parts_build hsame.symm)
  · exact (Ty.coincide_iff (hformer ▸ hbParam) (Former.isOrdered_of_isPlain haPlain) hb).mpr
      ⟨hformer, fun k x y hx hy => (heach k x y hx hy).right⟩

theorem exact_ok {depth : Nat} {i j : Inference}
    (ha : a.everywhere (Former.isKnown ctx.registry) = true)
    (hb : b.everywhere Former.isOrdered = true)
    (h : (assign ctx depth .exact a b).outcome i = some (.ok t, j)) :
    t = b ∧ a.Coincide b := by
  induction a using Ty.induction_parts generalizing b t depth i j with
  | step a ih =>
      rcases Ty.everywhere_iff.mp ha with ⟨haHere, haParts⟩
      rcases Ty.everywhere_iff.mp hb with ⟨hbHere, hbParts⟩
      rcases assign_ok h with ⟨smaller, rfl, hdirect | hafter⟩
      · cases smaller with
        | zero => cases hdirect
        | succ depth =>
            rw [assignDirectly_exact] at hdirect
            cases hparam : a.former.isParam with
            | true =>
                rcases Ty.former_eq_param hparam with ⟨index, inferring, rfl⟩
                cases inferring with
                | true => cases haHere
                | false =>
                    rw [Assign.target] at hdirect
                    rcases fixedParam_ok hdirect with ⟨marked, rfl, rfl⟩ | ⟨_, bound, hbound, _⟩
                    · exact ⟨rfl, by simp [Ty.alike], rfl⟩
                    · cases hbound
            | false =>
                rw [target_of_not_param hparam] at hdirect
                apply structural_exact_ok haHere hbHere ?_ hdirect
                intro x hx y hy r i' j' hrun
                exact ih x hx (haParts x hx) (hbParts y hy) hrun
      · cases hafter

/-- Over a registry that declares the names of the target, an exact match accepts what
coincides with the target, as it is, and refuses all else. -/
theorem exact_outcome (ha : a.everywhere (Former.isKnown ctx.registry) = true)
    (hb : b.everywhere Former.isOrdered = true) {depth : Nat} (hdepth : 2 * sizeOf a ≤ depth) :
    (assign ctx depth .exact a b).outcome .disabled =
      some (if a.alike b && a.sameSlots b then .ok b else .error .mismatch, .disabled) := by
  rcases Option.isSome_iff_exists.mp (exact_answers ctx a b hdepth) with ⟨⟨result, j⟩, hrun⟩
  have hkeeps : (assign ctx depth .exact a b).Keeps .disabled :=
    assign_keeps (Or.inl rfl) (Or.inl rfl)
  cases hkeeps.eq hrun
  cases result with
  | ok t =>
      rcases exact_ok ha hb hrun with ⟨rfl, hcoincide⟩
      rw [hrun, hcoincide.alike, hcoincide.slots]
      rfl
  | error e =>
      have hapart : ¬ (a.alike b && a.sameSlots b) = true := by
        intro h
        rw [Bool.and_eq_true] at h
        exact Admits.of_coincide ha hb ⟨h.left, h.right⟩ _ _ _ hrun
      rw [hrun, if_neg hapart]

end

/-- Likeness is an equivalence, and instances of types that are alike are alike. An exact
match comes to an end at a depth that the size of the target gives, for all types over
every registry. If the names of the target are declared and none of its parameters is being
inferred, it accepts just the types that are alike and have their fields in the same slots,
and results in the type that was given. -/
theorem exact_match_decides_likeness :
    (Equivalence fun a b : OrderedTy => a.val.alike b.val = true) ∧
    (forall (a b : Ty) (as bs : List Ty), a.alike b = true ->
      List.Forall₂ (fun x y => x.alike y = true) as bs ->
        (a.instantiate as).alike (b.instantiate bs) = true) ∧
    forall (ctx : TypeContext) (a : Ty) (depth : Nat), 2 * sizeOf a ≤ depth ->
      (forall b, ((assign ctx depth .exact a b).outcome .disabled).isSome = true) ∧
      (a.everywhere (Former.isKnown ctx.registry) = true -> forall b : OrderedTy,
        (assign ctx depth .exact a b.val).outcome .disabled =
          some (if a.alike b.val && a.sameSlots b.val then .ok b.val else .error .mismatch,
            .disabled)) := by
  refine ⟨Ty.alike_equivalence, fun a b as bs => Ty.alike_instantiate, ?_⟩
  intro ctx a depth hdepth
  constructor
  · intro b
    exact exact_answers ctx a b hdepth
  · intro ha b
    exact exact_outcome ha b.property hdepth

/-- A box of two fields, one of them a function into a parameter. With its slots swapped it
is alike and refused; with its parameter being inferred it is matched as it is. -/
theorem boxed_fields_match_exactly :
    let num := Ty.named ⟨"Main", "Num"⟩ []
    let box := fun (first second : Nat) (marked : Bool) => Ty.named ⟨"Main", "Box"⟩
      [.bundle [("x", ⟨first, .func num (.param 0 marked)⟩), ("y", ⟨second, .tuple [.any]⟩)]]
    (box 0 1 true).alike (box 1 0 false) = true ∧
    ((box 1 0 false).instantiate [box 0 1 false]).alike
      ((box 0 1 true).instantiate [box 1 0 true]) = true ∧
    exists enough, forall depth, enough ≤ depth ->
      (assign boxContext depth .exact (box 1 0 false) (box 1 0 true)).outcome .disabled =
        some (.ok (box 1 0 true), .disabled) ∧
      (assign boxContext depth .exact (box 1 0 false) (box 0 1 true)).outcome .disabled =
        some (.error .mismatch, .disabled) := by
  intro num box
  rcases exact_match_decides_likeness with ⟨hequivalence, hinstances, hmatch⟩
  have halike : (box 1 0 false).alike (box 0 1 true) = true := by decide +kernel
  let plain : OrderedTy := ⟨box 1 0 false, by decide +kernel⟩
  let marked : OrderedTy := ⟨box 1 0 true, by decide +kernel⟩
  let swapped : OrderedTy := ⟨box 0 1 true, by decide +kernel⟩
  refine ⟨hequivalence.symm (show plain.val.alike swapped.val = true from halike),
    hinstances _ _ _ _ halike (.cons (by decide +kernel) .nil), 2 * sizeOf (box 1 0 false), ?_⟩
  intro depth hdepth
  have hmatches := (hmatch boxContext _ depth hdepth).right (by decide +kernel)
  have hmarked : ((box 1 0 false).alike marked.val && (box 1 0 false).sameSlots marked.val) =
      true := by decide +kernel
  have hswapped : ((box 1 0 false).alike swapped.val && (box 1 0 false).sameSlots swapped.val) =
      false := by decide +kernel
  constructor
  · rw [hmatches marked, if_pos hmarked]
  · rw [hmatches swapped, if_neg (ne_true_of_eq_false hswapped)]

end TypeChecker
