import TypeChecker.Inference.Basic

/-!
# Slots of an inference

A binding changes its own slot only. What a copy of an inference has bound is taken over
slot by slot, over the slots that both have. The copy has as many as the inference itself,
so that in the end all slots are those of the copy.
-/

namespace TypeChecker
namespace Inference

theorem slot?_bind (i : Inference) {index : Nat} (hindex : index < i.slots.length) (slot : Slot)
    (k : Nat) : (i.bind index slot).slot? k = if index = k then some slot else i.slot? k := by
  unfold slot? bind
  by_cases hk : index = k
  · subst hk
    simp [hindex]
  · simp [hk]

theorem lt_length_of_slot? {i : Inference} {index : Nat} {s : Slot} (h : i.slot? index = some s) :
    index < i.slots.length :=
  (List.getElem?_eq_some_iff.mp (Option.join_eq_some_iff.mp h)).choose

theorem getElem?_slots (i : Inference) {index : Nat} (h : index < i.arity) :
    i.slots[index]? = some (i.slot? index) := by
  unfold slot?
  rw [List.getElem?_eq_getElem h]
  rfl

theorem adoptSlot_eq (i other : Inference) {index : Nat} (h : index < i.arity) :
    other.adoptSlot i index = { i with slots := i.slots.set index (other.slot? index) } := by
  unfold adoptSlot
  split
  · rename_i hsame
    have hset : i.slots.set index (i.slot? index) = i.slots := by
      apply List.ext_getElem?
      intro k
      by_cases hk : index = k
      · subst hk
        rw [List.getElem?_set_self h, i.getElem?_slots h]
      · rw [List.getElem?_set_ne hk]
    rw [<- hsame, hset]
  · rfl

theorem foldl_adoptSlot (i other : Inference) {bound : Nat} (hi : bound ≤ i.arity)
    (hother : bound ≤ other.arity) :
    (List.range bound).foldl other.adoptSlot i =
      { i with slots := other.slots.take bound ++ i.slots.drop bound } := by
  induction bound with
  | zero => rfl
  | succ bound ih =>
      have hstart : (other.slots.take bound).length = bound :=
        List.length_take_of_le (Nat.le_of_succ_le hother)
      have hlt : bound < i.slots.length := hi
      rw [List.range_succ, List.foldl_append, ih (Nat.le_of_succ_le hi) (Nat.le_of_succ_le hother),
        List.foldl_cons, List.foldl_nil, adoptSlot_eq]
      · dsimp only
        rw [List.set_append_right _ _ (Nat.le_of_eq hstart), hstart, Nat.sub_self,
          List.drop_eq_getElem_cons hlt, List.set_cons_zero, List.take_add_one,
          other.getElem?_slots hother, List.append_assoc]
        rfl
      · show bound < (other.slots.take bound ++ i.slots.drop bound).length
        rw [List.length_append, List.length_drop]
        omega

theorem slots_adopt (i other : Inference) : (i.adopt other).slots =
    other.slots.take (Nat.min i.arity other.arity) ++
      i.slots.drop (Nat.min i.arity other.arity) := by
  unfold adopt
  rw [i.foldl_adoptSlot other (Nat.min_le_left _ _) (Nat.min_le_right _ _)]

theorem arity_adopt (i other : Inference) : (i.adopt other).arity = i.arity := by
  have hi : Nat.min i.arity other.arity ≤ i.slots.length := Nat.min_le_left _ _
  have hother : Nat.min i.arity other.arity ≤ other.slots.length := Nat.min_le_right _ _
  show (i.adopt other).slots.length = i.slots.length
  rw [slots_adopt, List.length_append, List.length_drop, List.length_take_of_le hother,
    Nat.add_sub_of_le hi]

theorem slot?_adopt (i other : Inference) (k : Nat) :
    (i.adopt other).slot? k = other.slot? k ∨ (i.adopt other).slot? k = i.slot? k := by
  have hother : Nat.min i.arity other.arity ≤ other.slots.length := Nat.min_le_right _ _
  have hlength := List.length_take_of_le hother
  unfold slot?
  rw [slots_adopt]
  by_cases hk : k < Nat.min i.arity other.arity
  · rw [List.getElem?_append_left (hlength.symm ▸ hk), List.getElem?_take_of_lt hk]
    exact Or.inl rfl
  · have hle := Nat.le_of_not_lt hk
    rw [List.getElem?_append_right (hlength.symm ▸ hle), List.getElem?_drop, hlength,
      Nat.add_sub_of_le hle]
    exact Or.inr rfl

/-- The slots of a copy are all taken over. -/
theorem adopt_eq {i other : Inference} (h : other.arity = i.arity) :
    i.adopt other = { i with slots := other.slots } := by
  have hmin : Nat.min i.arity other.arity = i.arity := Nat.min_eq_left (Nat.le_of_eq h.symm)
  have hall : other.slots.take i.arity = other.slots := List.take_of_length_le (Nat.le_of_eq h)
  have hnone : i.slots.drop i.arity = [] := List.drop_of_length_le (Nat.le_refl _)
  unfold adopt
  rw [hmin, i.foldl_adoptSlot other (Nat.le_refl _) (Nat.le_of_eq h.symm), hall, hnone,
    List.append_nil]

end Inference
end TypeChecker
