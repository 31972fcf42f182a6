import TypeChecker.Symbol
import Mathlib.Data.List.Perm.Subperm
import Mathlib.Data.List.Pairwise

/-!
# Laws of ordered tables

The order of keys is total and strict, so that a table kept in key order holds each
key once, and two such tables with the same keys list them alike.
-/

namespace TypeChecker

/-- An order of keys in which exactly equal keys are equal and that can be chained
and turned round. -/
class LawfulKeyOrder (κ : Type) [KeyOrder κ] : Prop where
  eq_iff : forall a b : κ, KeyOrder.order a b = .eq ↔ a = b
  swap : forall a b : κ, KeyOrder.order b a = (KeyOrder.order a b).swap
  trans : forall a b c : κ,
    KeyOrder.order a b = .lt -> KeyOrder.order b c = .lt -> KeyOrder.order a c = .lt

instance : LawfulKeyOrder Nat where
  eq_iff a b := by
    simp only [KeyOrder.order, Nat.blt_eq]
    split
    · simp_all
    · split <;> simp_all
  swap a b := by
    simp only [KeyOrder.order, Nat.blt_eq]
    rcases Nat.lt_trichotomy a b with h | h | h
    · simp [h, Nat.ne_of_lt h, Nat.ne_of_gt h, Nat.not_lt_of_gt h]
    · simp [h]
    · simp [h, Nat.ne_of_lt h, Nat.ne_of_gt h, Nat.not_lt_of_gt h]
  trans a b c := by
    simp only [KeyOrder.order, Nat.blt_eq]
    intro hab hbc
    split at hab <;> try cases hab
    split at hab <;> try cases hab
    split at hbc <;> try cases hbc
    split at hbc <;> try cases hbc
    rw [if_neg (by omega), if_pos (by omega)]

namespace Text

theorem orderChars_eq_iff (as bs : List Char) : orderChars as bs = .eq ↔ as = bs := by
  induction as generalizing bs with
  | nil => cases bs <;> simp [orderChars]
  | cons a as ih =>
      cases bs with
      | nil => simp [orderChars]
      | cons b bs =>
          by_cases h : a.toNat = b.toNat
          · have hab : a = b := Char.ext (UInt32.toNat.inj h)
            simp [orderChars, hab, ih]
          · have hab : a ≠ b := fun e => h (e ▸ rfl)
            by_cases hlt : a.toNat < b.toNat <;> simp [orderChars, h, hlt, hab]

theorem orderChars_swap (as bs : List Char) : orderChars bs as = (orderChars as bs).swap := by
  induction as generalizing bs with
  | nil => cases bs <;> simp [orderChars]
  | cons a as ih =>
      cases bs with
      | nil => simp [orderChars]
      | cons b bs =>
          rcases Nat.lt_trichotomy a.toNat b.toNat with h | h | h
          · simp [orderChars, h, Nat.ne_of_lt h, Nat.ne_of_gt h, Nat.not_lt_of_gt h]
          · simp [orderChars, h, ih]
          · simp [orderChars, h, Nat.ne_of_lt h, Nat.ne_of_gt h, Nat.not_lt_of_gt h]

theorem orderChars_cons_lt {a b : Char} {as bs : List Char} :
    orderChars (a :: as) (b :: bs) = .lt ↔
      a.toNat < b.toNat ∨ a.toNat = b.toNat ∧ orderChars as bs = .lt := by
  rcases Nat.lt_trichotomy a.toNat b.toNat with h | h | h
  · simp [orderChars, h, Nat.ne_of_lt h]
  · simp [orderChars, h]
  · simp [orderChars, Nat.ne_of_gt h, Nat.not_lt_of_gt h]

theorem orderChars_trans (as bs cs : List Char)
    (hab : orderChars as bs = .lt) (hbc : orderChars bs cs = .lt) : orderChars as cs = .lt := by
  induction as generalizing bs cs with
  | nil =>
      cases bs with
      | nil => simp [orderChars] at hab
      | cons b bs =>
          cases cs with
          | nil => simp [orderChars] at hbc
          | cons c cs => rfl
  | cons a as ih =>
      cases bs with
      | nil => simp [orderChars] at hab
      | cons b bs =>
          cases cs with
          | nil => simp [orderChars] at hbc
          | cons c cs =>
              rw [orderChars_cons_lt] at hab hbc ⊢
              rcases hab with hab | ⟨hab, hrest⟩
              · rcases hbc with hbc | ⟨hbc, _⟩
                · exact Or.inl (Nat.lt_trans hab hbc)
                · exact Or.inl (hbc ▸ hab)
              · rcases hbc with hbc | ⟨hbc, hrest'⟩
                · exact Or.inl (hab ▸ hbc)
                · exact Or.inr ⟨hab.trans hbc, ih bs cs hrest hrest'⟩

end Text

instance : LawfulKeyOrder String where
  eq_iff _ _ := (Text.orderChars_eq_iff _ _).trans String.toList_inj
  swap _ _ := Text.orderChars_swap _ _
  trans _ _ _ := Text.orderChars_trans _ _ _

instance : LawfulKeyOrder Symbol where
  eq_iff a b := by
    show Symbol.order a b = .eq ↔ a = b
    rcases a with ⟨ma, na⟩
    rcases b with ⟨mb, nb⟩
    have hm := LawfulKeyOrder.eq_iff ma mb
    have hn := LawfulKeyOrder.eq_iff na nb
    simp only [KeyOrder.order] at hm hn
    simp only [Symbol.order, Symbol.mk.injEq]
    cases h : Text.order ma mb <;> simp_all
  swap a b := by
    show Symbol.order b a = (Symbol.order a b).swap
    rcases a with ⟨ma, na⟩
    rcases b with ⟨mb, nb⟩
    have hm := LawfulKeyOrder.swap ma mb
    have hn := LawfulKeyOrder.swap na nb
    simp only [KeyOrder.order] at hm hn
    simp only [Symbol.order, hm]
    cases h : Text.order ma mb <;> simp [hn]
  trans a b c := by
    show Symbol.order a b = .lt -> Symbol.order b c = .lt -> Symbol.order a c = .lt
    rcases a with ⟨ma, na⟩
    rcases b with ⟨mb, nb⟩
    rcases c with ⟨mc, nc⟩
    have hn := LawfulKeyOrder.trans na nb nc
    have hm := LawfulKeyOrder.trans ma mb mc
    have hab := LawfulKeyOrder.eq_iff ma mb
    have hbc := LawfulKeyOrder.eq_iff mb mc
    simp only [KeyOrder.order] at hm hn hab hbc
    simp only [Symbol.order]
    intro h1 h2
    cases e1 : Text.order ma mb with
    | gt => rw [e1] at h1; cases h1
    | eq =>
        rw [e1] at h1
        cases hab.mp e1
        cases e2 : Text.order ma mc with
        | gt => rw [e2] at h2; cases h2
        | eq => rw [e2] at h2; exact hn h1 h2
        | lt => rfl
    | lt =>
        cases e2 : Text.order mb mc with
        | gt => rw [e2] at h2; cases h2
        | eq => cases hbc.mp e2; rw [e1]
        | lt => rw [hm e1 e2]

namespace Table

variable {κ β : Type}

theorem mem_of_get? [DecidableEq κ] {table : Table κ β} {key : κ} {entry : β}
    (h : get? table key = some entry) : (key, entry) ∈ table := by
  induction table with
  | nil => cases h
  | cons item rest ih =>
      rcases item with ⟨k, e⟩
      by_cases hk : k = key
      · simp only [get?, hk, if_true, Option.some.injEq] at h
        rw [hk, h]
        exact List.mem_cons_self
      · simp only [get?, hk, if_false] at h
        exact List.mem_cons_of_mem _ (ih h)

theorem get?_of_mem [DecidableEq κ] {table : Table κ β} (hkeys : (table.map Prod.fst).Nodup)
    {key : κ} {entry : β} (h : (key, entry) ∈ table) : get? table key = some entry := by
  induction table with
  | nil => cases h
  | cons item rest ih =>
      rcases item with ⟨k, e⟩
      rw [List.map_cons, List.nodup_cons] at hkeys
      rcases List.mem_cons.mp h with hhead | htail
      · cases hhead
        simp [get?]
      · have hk : k ≠ key := by
          rintro rfl
          exact hkeys.left (List.mem_map.mpr ⟨(k, entry), htail, rfl⟩)
        simpa [get?, hk] using ih hkeys.right htail

theorem get?_perm [DecidableEq κ] {table other : Table κ β} (h : table.Perm other)
    (hkeys : (table.map Prod.fst).Nodup) (key : κ) : get? table key = get? other key := by
  have hkeys' : (other.map Prod.fst).Nodup := (h.map Prod.fst).nodup_iff.mp hkeys
  ext entry
  constructor
  · intro hentry
    exact get?_of_mem hkeys' (h.mem_iff.mp (mem_of_get? hentry))
  · intro hentry
    exact get?_of_mem hkeys (h.mem_iff.mpr (mem_of_get? hentry))

theorem get?_map [DecidableEq κ] {γ : Type} (f : β -> γ) (table : Table κ β) (key : κ) :
    get? (table.map fun item => (item.1, f item.2)) key = (get? table key).map f := by
  induction table with
  | nil => rfl
  | cons item rest ih =>
      rcases item with ⟨k, entry⟩
      simp only [List.map_cons, get?]
      split
      · rfl
      · exact ih

theorem get?_erase [DecidableEq κ] (table : Table κ β) (key k : κ) :
    get? (erase table key) k = if key = k then none else get? table k := by
  induction table with
  | nil => simp [erase, get?]
  | cons item rest ih =>
      rcases item with ⟨k', entry⟩
      by_cases hk' : k' = key
      · have hdrop : erase ((k', entry) :: rest) key = erase rest key := by simp [erase, hk']
        rw [hdrop, ih, get?, hk']
        split <;> rfl
      · have hkeep : erase ((k', entry) :: rest) key = (k', entry) :: erase rest key := by
          simp [erase, hk']
        rw [hkeep, get?, get?, ih]
        by_cases hk : k' = k
        · rw [if_pos hk, if_pos hk, if_neg fun h => hk' (hk.trans h.symm)]
        · rw [if_neg hk, if_neg hk]

/-!
## Keys in order
-/

section Ordered

variable [KeyOrder κ]

def Ordered (keys : List κ) : Prop :=
  keys.Pairwise fun a b => KeyOrder.order a b = .lt

theorem mem_keys_put {key : κ} {entry : β} {table : Table κ β} {k : κ}
    (h : k ∈ (put key entry table).map Prod.fst) : k = key ∨ k ∈ table.map Prod.fst := by
  induction table with
  | nil => simpa [put] using h
  | cons item rest ih =>
      rcases item with ⟨key', old⟩
      simp only [put] at h
      split at h
      · simpa using h
      · simp at h ⊢
        rcases h with h | h
        · exact Or.inl h
        · exact Or.inr (Or.inr h)
      · simp only [List.map_cons, List.mem_cons] at h ⊢
        rcases h with h | h
        · exact Or.inr (Or.inl h)
        · rcases ih h with h | h
          · exact Or.inl h
          · exact Or.inr (Or.inr h)

theorem mem_put {key : κ} {entry : β} {table : Table κ β} {item : κ × β}
    (h : item ∈ put key entry table) : item = (key, entry) ∨ item ∈ table := by
  induction table with
  | nil => simpa [put] using h
  | cons first rest ih =>
      rcases first with ⟨k, old⟩
      simp only [put] at h
      split at h
      · simpa using h
      · rcases List.mem_cons.mp h with h | h
        · exact Or.inl h
        · exact Or.inr (List.mem_cons_of_mem _ h)
      · rcases List.mem_cons.mp h with h | h
        · exact Or.inr (h ▸ List.mem_cons_self)
        · rcases ih h with h | h
          · exact Or.inl h
          · exact Or.inr (List.mem_cons_of_mem _ h)

theorem mem_ofPairs {pairs : List (κ × β)} {item : κ × β} (h : item ∈ ofPairs pairs) :
    item ∈ pairs := by
  have hfold : forall (rest : List (κ × β)) (table : Table κ β),
      item ∈ rest.foldl (fun table pair => put pair.1 pair.2 table) table ->
        item ∈ table ∨ item ∈ rest := by
    intro rest
    induction rest with
    | nil =>
        intro table h
        exact Or.inl h
    | cons pair rest ih =>
        intro table h
        rcases ih _ h with h | h
        · rcases mem_put h with h | h
          · exact Or.inr (h ▸ List.mem_cons_self)
          · exact Or.inl h
        · exact Or.inr (List.mem_cons_of_mem _ h)
  rcases hfold pairs [] h with h | h
  · cases h
  · exact h

theorem length_put_le (key : κ) (entry : β) (table : Table κ β) :
    (put key entry table).length ≤ table.length + 1 := by
  induction table with
  | nil => exact Nat.le_refl _
  | cons item rest ih =>
      rcases item with ⟨key', old⟩
      simp only [put]
      split
      · exact Nat.le_refl _
      · exact Nat.le_succ _
      · exact Nat.succ_le_succ ih

theorem length_ofPairs_le (pairs : List (κ × β)) : (ofPairs pairs).length ≤ pairs.length := by
  have hfold : forall (rest : List (κ × β)) (table : Table κ β),
      (rest.foldl (fun table pair => put pair.1 pair.2 table) table).length ≤
        table.length + rest.length := by
    intro rest
    induction rest with
    | nil =>
        intro table
        exact Nat.le_refl _
    | cons pair rest ih =>
        intro table
        have hput := length_put_le pair.1 pair.2 table
        have hrest := ih (put pair.1 pair.2 table)
        rw [List.foldl_cons, List.length_cons]
        omega
  simpa [ofPairs] using hfold pairs []

variable [LawfulKeyOrder κ]

theorem order_self (a : κ) : KeyOrder.order a a = .eq :=
  (LawfulKeyOrder.eq_iff a a).mpr rfl

theorem order_asymm {a b : κ} (h : KeyOrder.order a b = .lt) : KeyOrder.order b a ≠ .lt := by
  rw [LawfulKeyOrder.swap, h]
  simp

theorem eq_of_not_lt {a b : κ} (hab : KeyOrder.order a b ≠ .lt)
    (hba : KeyOrder.order b a ≠ .lt) : a = b := by
  rw [LawfulKeyOrder.swap] at hba
  cases h : KeyOrder.order a b with
  | lt => exact absurd h hab
  | eq => exact (LawfulKeyOrder.eq_iff a b).mp h
  | gt =>
      rw [h] at hba
      exact absurd rfl hba

theorem exists_smallest {keys : List κ} (h : keys ≠ []) :
    exists a, a ∈ keys ∧ forall b, b ∈ keys -> KeyOrder.order b a ≠ .lt := by
  induction keys with
  | nil => exact absurd rfl h
  | cons key keys ih =>
      by_cases hnil : keys = []
      · subst hnil
        refine ⟨key, List.mem_cons_self, ?_⟩
        intro b hb
        rw [List.mem_singleton.mp hb, order_self]
        simp
      · rcases ih hnil with ⟨a, ha, hleast⟩
        by_cases hlt : KeyOrder.order key a = .lt
        · refine ⟨key, List.mem_cons_self, ?_⟩
          intro b hb hbkey
          rcases List.mem_cons.mp hb with rfl | hb
          · exact order_asymm hbkey hbkey
          · exact hleast b hb (LawfulKeyOrder.trans b key a hbkey hlt)
        · refine ⟨a, List.mem_cons_of_mem key ha, ?_⟩
          intro b hb
          rcases List.mem_cons.mp hb with rfl | hb
          · exact hlt
          · exact hleast b hb

theorem Ordered.nodup {keys : List κ} (h : Ordered keys) : keys.Nodup := by
  apply h.imp
  rintro a b hab rfl
  rw [order_self] at hab
  cases hab

/-- Ordered lists of one length, the one within the other, are the same. -/
theorem Ordered.eq_of_subset {as bs : List κ} (ha : Ordered as) (hb : Ordered bs)
    (hlen : as.length = bs.length) (hsub : as ⊆ bs) : as = bs := by
  have hperm : as.Perm bs :=
    (List.subperm_of_subset ha.nodup hsub).perm_of_length_le (Nat.le_of_eq hlen.symm)
  refine hperm.eq_of_pairwise ?_ ha hb
  intro a b _ _ hab hba
  exact absurd hba (order_asymm hab)

theorem eq_of_perm {table other : Table κ β} (htable : Ordered (table.map Prod.fst))
    (hother : Ordered (other.map Prod.fst)) (h : table.Perm other) : table = other := by
  refine h.eq_of_pairwise ?_ (List.pairwise_map.mp htable) (List.pairwise_map.mp hother)
  intro a b _ _ hab hba
  exact absurd hba (order_asymm hab)

theorem ordered_put {key : κ} {entry : β} {table : Table κ β}
    (h : Ordered (table.map Prod.fst)) : Ordered ((put key entry table).map Prod.fst) := by
  induction table with
  | nil => exact List.pairwise_singleton _ _
  | cons item rest ih =>
      rcases item with ⟨k, old⟩
      rcases List.pairwise_cons.mp h with ⟨hk, hrest⟩
      cases horder : KeyOrder.order key k with
      | lt =>
          simp only [put, horder]
          refine List.pairwise_cons.mpr ⟨?_, h⟩
          intro b hb
          rcases List.mem_cons.mp hb with rfl | hb
          · exact horder
          · exact LawfulKeyOrder.trans _ _ _ horder (hk b hb)
      | eq =>
          simp only [put, horder]
          cases (LawfulKeyOrder.eq_iff key k).mp horder
          exact h
      | gt =>
          simp only [put, horder]
          refine List.pairwise_cons.mpr ⟨?_, ih hrest⟩
          intro b hb
          rcases mem_keys_put hb with rfl | hb
          · rw [LawfulKeyOrder.swap, horder]
            rfl
          · exact hk b hb

theorem get?_put [DecidableEq κ] (key k : κ) (entry : β) (table : Table κ β) :
    get? (put key entry table) k = if key = k then some entry else get? table k := by
  induction table with
  | nil => rfl
  | cons item rest ih =>
      rcases item with ⟨k', old⟩
      cases horder : KeyOrder.order key k' with
      | lt => simp only [put, horder, get?]
      | eq =>
          cases (LawfulKeyOrder.eq_iff key k').mp horder
          simp only [put, horder, get?]
          split <;> rfl
      | gt =>
          simp only [put, horder, get?, ih]
          by_cases hk : k' = k
          · have hne : key ≠ k := by
              rintro rfl
              rw [hk, order_self] at horder
              cases horder
            simp [hk, hne]
          · simp [hk]

theorem contains_put [DecidableEq κ] {key k : κ} {entry : β} {table : Table κ β} :
    contains (put key entry table) k = true <-> key = k ∨ contains table k = true := by
  unfold contains
  rw [get?_put]
  split
  · rename_i hkey
    simp [hkey]
  · rename_i hkey
    simp [hkey]

theorem ordered_ofPairs (pairs : List (κ × β)) : Ordered ((ofPairs pairs).map Prod.fst) := by
  have hfold : forall (rest : List (κ × β)) (table : Table κ β), Ordered (table.map Prod.fst) ->
      Ordered ((rest.foldl (fun table pair => put pair.1 pair.2 table) table).map Prod.fst) := by
    intro rest
    induction rest with
    | nil =>
        intro table h
        exact h
    | cons pair rest ih =>
        intro table h
        exact ih _ (ordered_put h)
  exact hfold pairs [] List.Pairwise.nil

theorem put_perm {key : κ} {entry : β} {table : Table κ β} (h : key ∉ table.map Prod.fst) :
    (put key entry table).Perm ((key, entry) :: table) := by
  induction table with
  | nil => exact List.Perm.refl _
  | cons item rest ih =>
      rcases item with ⟨k, old⟩
      simp only [List.map_cons, List.mem_cons, not_or] at h
      cases horder : KeyOrder.order key k with
      | lt =>
          simp only [put, horder]
          exact List.Perm.refl _
      | eq => exact absurd ((LawfulKeyOrder.eq_iff key k).mp horder) h.left
      | gt =>
          simp only [put, horder]
          exact ((ih h.right).cons _).trans (List.Perm.swap _ _ _)

theorem ofPairs_perm {pairs : List (κ × β)} (h : (pairs.map Prod.fst).Nodup) :
    (ofPairs pairs).Perm pairs := by
  have hfold : forall (rest : List (κ × β)) (table : Table κ β),
      ((table ++ rest).map Prod.fst).Nodup ->
        (rest.foldl (fun table pair => put pair.1 pair.2 table) table).Perm (table ++ rest) := by
    intro rest
    induction rest with
    | nil =>
        intro table _
        rw [List.append_nil]
        exact List.Perm.refl _
    | cons pair rest ih =>
        intro table hnodup
        have hkey : pair.1 ∉ table.map Prod.fst := by
          rw [List.map_append, List.nodup_append] at hnodup
          intro hmem
          exact hnodup.right.right _ hmem _ (by simp) rfl
        have hput : (put pair.1 pair.2 table ++ rest).Perm (table ++ pair :: rest) :=
          ((put_perm hkey).append_right rest).trans List.perm_middle.symm
        exact (ih _ ((hput.map Prod.fst).nodup_iff.mpr hnodup)).trans hput
  exact hfold pairs [] h

end Ordered

end Table
end TypeChecker
