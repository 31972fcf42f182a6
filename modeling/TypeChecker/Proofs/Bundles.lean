import TypeChecker.Proofs.Formers
import TypeChecker.Proofs.Tables
import TypeChecker.Ty.Basic

/-!
# Slots of bundles

The fields of a bundle stand in the order of their names, their values in the order
of their slots. Fields listed in slot order and numbered again make up the same
bundle, if the slots were numbered without gaps.
-/

namespace TypeChecker

def Former.isNumbered : Former -> Bool
  | .bundle fields => (fields.map Prod.snd).isPerm (List.range fields.length)
  | _ => true

namespace Ty

/-!
## Sorting by number
-/

theorem insertByNumber_perm {α : Type} (item : Nat × α) (items : List (Nat × α)) :
    (insertByNumber item items).Perm (item :: items) := by
  induction items with
  | nil => exact List.Perm.refl _
  | cons next rest ih =>
      rw [insertByNumber]
      split
      · exact (ih.cons next).trans (List.Perm.swap _ _ _)
      · exact List.Perm.refl _

theorem insertByNumber_sorted {α : Type} (item : Nat × α) {items : List (Nat × α)}
    (h : items.Pairwise fun a b => a.1 ≤ b.1) :
    (insertByNumber item items).Pairwise fun a b => a.1 ≤ b.1 := by
  induction items with
  | nil => exact List.pairwise_singleton _ _
  | cons next rest ih =>
      rcases List.pairwise_cons.mp h with ⟨hnext, hrest⟩
      rw [insertByNumber]
      split
      · rename_i hle
        refine List.pairwise_cons.mpr ⟨?_, ih hrest⟩
        intro other hother
        rcases List.mem_cons.mp ((insertByNumber_perm item rest).mem_iff.mp hother) with rfl | hmem
        · exact Nat.le_of_ble_eq_true hle
        · exact hnext other hmem
      · rename_i hlt
        have hle : item.1 ≤ next.1 := by
          rw [Nat.ble_eq] at hlt
          omega
        refine List.pairwise_cons.mpr ⟨?_, h⟩
        intro other hother
        rcases List.mem_cons.mp hother with rfl | hmem
        · exact hle
        · exact Nat.le_trans hle (hnext other hmem)

theorem sortByNumber_spec {α : Type} (items : List (Nat × α)) :
    (sortByNumber items).Perm items ∧ (sortByNumber items).Pairwise fun a b => a.1 ≤ b.1 := by
  have hfold : forall (rest sorted : List (Nat × α)),
      (sorted.Pairwise fun a b => a.1 ≤ b.1) ->
        (rest.foldl (fun sorted item => insertByNumber item sorted) sorted).Perm
            (sorted ++ rest) ∧
          (rest.foldl (fun sorted item => insertByNumber item sorted) sorted).Pairwise
            fun a b => a.1 ≤ b.1 := by
    intro rest
    induction rest with
    | nil =>
        intro sorted hsorted
        rw [List.append_nil]
        exact ⟨List.Perm.refl _, hsorted⟩
    | cons item rest ih =>
        intro sorted hsorted
        rcases ih _ (insertByNumber_sorted item hsorted) with ⟨hperm, hpairwise⟩
        refine ⟨?_, hpairwise⟩
        exact hperm.trans
          (((insertByNumber_perm item sorted).append_right rest).trans List.perm_middle.symm)
  exact hfold items [] List.Pairwise.nil

theorem inSlotOrder_perm (fields : List (String × Field Ty)) :
    (inSlotOrder fields).Perm fields := by
  have hperm := (sortByNumber_spec (fields.map fun item => (item.2.slot, item))).left
  simpa [inSlotOrder, List.map_map, Function.comp_def] using hperm.map Prod.snd

theorem slots_inSlotOrder {fields : List (String × Field Ty)}
    (h : (bundle fields).former.isNumbered = true) :
    (inSlotOrder fields).map (fun item => item.2.slot) = List.range fields.length := by
  rcases sortByNumber_spec (fields.map fun item => (item.2.slot, item)) with ⟨hperm, hsorted⟩
  have hslots : (inSlotOrder fields).map (fun item => item.2.slot) =
      (sortByNumber (fields.map fun item => (item.2.slot, item))).map Prod.fst := by
    rw [inSlotOrder, List.map_map]
    apply List.map_congr_left
    intro item hitem
    rcases List.mem_map.mp (hperm.mem_iff.mp hitem) with ⟨field, _, rfl⟩
    rfl
  have hrange : (fields.map fun item => item.2.slot).Perm (List.range fields.length) := by
    simpa [former, Former.isNumbered, List.isPerm_iff, List.map_map, Function.comp_def] using h
  rw [hslots]
  refine List.Perm.eq_of_pairwise ?_ (List.pairwise_map.mpr hsorted) List.pairwise_le_range ?_
  · intro a b _ _ hab hba
    exact Nat.le_antisymm hab hba
  · simpa [List.map_map, Function.comp_def] using (hperm.map Prod.fst).trans (by
      simpa [List.map_map, Function.comp_def] using hrange)

/-!
## Numbering again
-/

section

variable {declared : List (String × Field Ty)} {typed : List (String × Ty)}

theorem ordered_heads {fields : List (String × Field Ty)}
    (h : Table.Ordered (fields.map Prod.fst)) :
    (fields.map fun item => (item.1, item.2.slot)).Pairwise
      fun a b => KeyOrder.order a.1 b.1 = .lt := by
  rw [Table.Ordered, List.pairwise_map] at h
  exact List.pairwise_map.mpr h

theorem mem_numberFields {item : String × Field Ty} (h : item ∈ numberFields typed) :
    typed[item.2.slot]? = some (item.1, item.2.type) := by
  rcases List.mem_map.mp (Table.mem_ofPairs h) with ⟨⟨pair, index⟩, hpair, rfl⟩
  exact List.mk_mem_zipIdx_iff_getElem?.mp hpair

variable (hordered : Table.Ordered (declared.map Prod.fst))
  (hnumbered : (bundle declared).former.isNumbered = true)
  (hnames : typed.map Prod.fst = (inSlotOrder declared).map Prod.fst)

include hnumbered hnames in
theorem heads_inSlotOrder :
    (typed.zipIdx.map fun item => (item.1.1, item.2)) =
      (inSlotOrder declared).map fun item => (item.1, item.2.slot) := by
  have hlength : typed.length = (inSlotOrder declared).length := by
    simpa using congrArg List.length hnames
  have hslots := slots_inSlotOrder hnumbered
  apply List.ext_getElem
  · simpa using hlength
  · intro m hm hm'
    have hm : m < typed.length := by simpa using hm
    have hm' : m < (inSlotOrder declared).length := by simpa using hm'
    have hname : (typed.map Prod.fst)[m]? = ((inSlotOrder declared).map Prod.fst)[m]? := by
      rw [hnames]
    have hslot : ((inSlotOrder declared).map fun item => item.2.slot)[m]? =
        (List.range declared.length)[m]? := by
      rw [hslots]
    have hrange : m < declared.length := (inSlotOrder_perm declared).length_eq ▸ hm'
    simp [hm, hm'] at hname
    simp [hm', hrange] at hslot
    simp [hname, hslot]

include hordered hnumbered hnames

/-- Fields listed in slot order and numbered again have their slots back. -/
theorem former_bundleOf : (bundleOf typed).former = (bundle declared).former := by
  have hsame : (typed.map Prod.fst).Perm (declared.map Prod.fst) :=
    hnames ▸ (inSlotOrder_perm declared).map Prod.fst
  have hnodup : ((typed.zipIdx.map fun item =>
      (item.1.1, ({ slot := item.2, type := item.1.2 } : Field Ty))).map Prod.fst).Nodup := by
    have hfst : (typed.zipIdx.map fun item =>
        (item.1.1, ({ slot := item.2, type := item.1.2 } : Field Ty))).map Prod.fst =
          typed.map Prod.fst := by
      have hzip := congrArg (List.map Prod.fst) (List.zipIdx_map_fst 0 typed)
      rw [List.map_map] at hzip ⊢
      exact hzip
    rw [hfst]
    exact hsame.nodup_iff.mpr hordered.nodup
  have hperm : ((numberFields typed).map fun item => (item.1, item.2.slot)).Perm
      (declared.map fun item => (item.1, item.2.slot)) := by
    refine ((Table.ofPairs_perm hnodup).map _).trans ?_
    rw [List.map_map]
    exact (List.Perm.of_eq (heads_inSlotOrder hnumbered hnames)).trans
      ((inSlotOrder_perm declared).map _)
  have hheads : (numberFields typed).map (fun item => (item.1, item.2.slot)) =
      declared.map fun item => (item.1, item.2.slot) := by
    refine hperm.eq_of_pairwise ?_ (ordered_heads (Table.ordered_ofPairs _))
      (ordered_heads hordered)
    intro a b _ _ hab hba
    exact absurd hba (Table.order_asymm hab)
  exact congrArg Former.bundle hheads

theorem field_bundleOf {k : Nat} {field given : String × Field Ty}
    (hfield : declared[k]? = some field) (hgiven : (numberFields typed)[k]? = some given) :
    exists m : Nat, (inSlotOrder declared)[m]? = some field ∧
      typed[m]? = some (given.1, given.2.type) := by
  have hformer := former_bundleOf hordered hnumbered hnames
  have hheads : (numberFields typed).map (fun item => (item.1, item.2.slot)) =
      declared.map fun item => (item.1, item.2.slot) := Former.bundle.inj hformer
  have hhead : given.1 = field.1 := by
    have hk := congrArg (fun heads => heads[k]?) hheads
    simp [hfield, hgiven] at hk
    exact hk.left
  have htyped := mem_numberFields (List.mem_of_getElem? hgiven)
  refine ⟨given.2.slot, ?_, htyped⟩
  have hname : ((inSlotOrder declared).map Prod.fst)[given.2.slot]? = some given.1 := by
    rw [<- hnames, List.getElem?_map, htyped]
    rfl
  rw [List.getElem?_map] at hname
  rcases Option.map_eq_some_iff.mp hname with ⟨other, hother, hsame⟩
  have hmem : other ∈ declared :=
    (inSlotOrder_perm declared).mem_iff.mp (List.mem_of_getElem? hother)
  have hname := hsame.trans hhead
  have hentry : other.2 = field.2 := by
    have hget := Table.get?_of_mem hordered.nodup hmem
    rw [hname, Table.get?_of_mem hordered.nodup (List.mem_of_getElem? hfield)] at hget
    exact (Option.some.inj hget).symm
  rw [hother, Prod.ext hname hentry]

end

end Ty
end TypeChecker
