import TypeChecker.Checking.Coverage
import Mathlib.Algebra.BigOperators.Group.List.Basic
import Mathlib.Algebra.Ring.Nat
import Mathlib.Data.List.Nodup
import Mathlib.Data.List.Sections

/-!
# Combinations of cases

The combinations of cases are the product of the index ranges of the unions. A row expands
to the combinations it covers, each listed once. So two rows expand to a combination in
common just if both cover it, and where no combination is covered twice, the number of the
combinations expanded so far and of those left out give the size of the product.
-/

namespace TypeChecker
namespace Coverage

def product (counts : List Nat) : List Combination :=
  (counts.map List.range).sections

/-- Every case of a row is the index at its place in the combination. -/
def covers (row : Row) (combination : Combination) : Bool :=
  (row.zip combination).all fun item => item.1.all (· == item.2)

abbrev Within (counts : List Nat) (row : Row) : Prop :=
  List.Forall₂ (fun count entry => forall i, entry = some i -> i < count) counts row

/-- Some combination is covered by two rows. -/
def Overlaps (counts : List Nat) (rows : List Row) : Prop :=
  exists combination, combination ∈ product counts ∧ 2 ≤ rows.countP (covers · combination)

def leftOut (counts : List Nat) (rows : List Row) : List Combination :=
  (product counts).filter fun combination => !rows.any (covers · combination)

variable {counts : List Nat} {row : Row} {rows : List Row} {combination : Combination}
  {covered : List Combination}

theorem mem_product : combination ∈ product counts ↔ List.Forall₂ (· < ·) combination counts := by
  rw [product, List.mem_sections, List.forall₂_map_right_iff]
  simp only [List.mem_range]

theorem product_cons (count : Nat) (counts : List Nat) :
    product (count :: counts) =
      (product counts).flatMap fun rest => (List.range count).map fun i => i :: rest :=
  rfl

@[simp] theorem covers_cons (entry : Option Nat) (row : Row) (i : Nat) (rest : Combination) :
    covers (entry :: row) (i :: rest) = (entry.all (· == i) && covers row rest) :=
  rfl

theorem nodup_product (counts : List Nat) : (product counts).Nodup := by
  induction counts with
  | nil => exact List.nodup_singleton _
  | cons count counts ih =>
      rw [product_cons, List.nodup_flatMap]
      constructor
      · intro rest _
        exact List.nodup_range.map fun i j h => List.head_eq_of_cons_eq h
      · refine ih.imp ?_
        intro first second hne combination hfirst hsecond
        rcases List.mem_map.mp hfirst with ⟨i, _, rfl⟩
        rcases List.mem_map.mp hsecond with ⟨j, _, htail⟩
        exact hne (List.tail_eq_of_cons_eq htail).symm

theorem length_product (counts : List Nat) : (product counts).length = counts.prod := by
  induction counts with
  | nil => rfl
  | cons count counts ih =>
      rw [product_cons, List.length_flatMap, List.prod_cons, <- ih, Nat.mul_comm]
      simp only [List.length_map, List.length_range, List.map_const', List.sum_replicate_nat]

/-!
## The expansion of a row
-/

def extend (keys : List Combination) (entry : Option Nat × Nat) : List Combination :=
  keys.flatMap fun key => (choices entry.2 entry.1).map fun index => key ++ [index]

theorem expand_eq (counts : List Nat) (row : Row) :
    expand counts row = (row.zip counts).foldl extend [[]] :=
  rfl

theorem mem_extend {keys : List Combination} {entry : Option Nat × Nat} {key : Combination} :
    key ∈ extend keys entry ↔
      exists first, first ∈ keys ∧ exists i, i ∈ choices entry.2 entry.1 ∧ first ++ [i] = key := by
  simp only [extend, List.mem_flatMap, List.mem_map]

theorem nodup_choices (count : Nat) (entry : Option Nat) : (choices count entry).Nodup := by
  cases entry with
  | some i => exact List.nodup_singleton i
  | none => exact List.nodup_range

theorem nodup_extend {keys : List Combination} (h : keys.Nodup) (entry : Option Nat × Nat) :
    (extend keys entry).Nodup := by
  rw [extend, List.nodup_flatMap]
  constructor
  · intro key _
    refine (nodup_choices _ _).map ?_
    exact fun i j hsame => List.singleton_inj.mp (List.append_cancel_left hsame)
  · refine h.imp ?_
    intro first second hne combination hfirst hsecond
    rcases List.mem_map.mp hfirst with ⟨i, _, rfl⟩
    rcases List.mem_map.mp hsecond with ⟨j, _, hsame⟩
    exact hne (List.append_inj_left' hsame rfl).symm

theorem nodup_expand (counts : List Nat) (row : Row) : (expand counts row).Nodup := by
  have hrun : forall (entries : List (Option Nat × Nat)) (keys : List Combination), keys.Nodup ->
      (entries.foldl extend keys).Nodup := by
    intro entries
    induction entries with
    | nil => exact fun keys h => h
    | cons entry entries ih => exact fun keys h => ih _ (nodup_extend h entry)
  exact hrun _ _ (List.nodup_singleton _)

theorem mem_foldl_extend {entries : List (Option Nat × Nat)} {keys : List Combination}
    {key : Combination} :
    key ∈ entries.foldl extend keys ↔ exists first, first ∈ keys ∧ exists rest,
      List.Forall₂ (fun entry i => i ∈ choices entry.2 entry.1) entries rest ∧
        first ++ rest = key := by
  induction entries generalizing keys with
  | nil =>
      constructor
      · intro hkey
        exact ⟨key, hkey, [], .nil, List.append_nil _⟩
      · rintro ⟨first, hfirst, _, ⟨⟩, rfl⟩
        rw [List.append_nil]
        exact hfirst
  | cons entry entries ih =>
      rw [List.foldl_cons, ih]
      constructor
      · rintro ⟨first, hfirst, rest, hrest, rfl⟩
        rcases mem_extend.mp hfirst with ⟨start, hstart, i, hi, rfl⟩
        exact ⟨start, hstart, i :: rest, .cons hi hrest, List.append_cons _ _ _⟩
      · rintro ⟨start, hstart, _, hchosen, rfl⟩
        cases hchosen with
        | @cons _ i _ rest hi hrest =>
            exact ⟨start ++ [i], mem_extend.mpr ⟨start, hstart, i, hi, rfl⟩, rest, hrest,
              (List.append_cons _ _ _).symm⟩

theorem mem_choices {count : Nat} {entry : Option Nat} (h : forall i, entry = some i -> i < count)
    {i : Nat} : i ∈ choices count entry ↔ i < count ∧ entry.all (· == i) = true := by
  cases entry with
  | none => simp [choices]
  | some j =>
      rw [choices, List.mem_singleton, Option.all_some, beq_iff_eq]
      constructor
      · rintro rfl
        exact ⟨h i rfl, rfl⟩
      · exact fun hi => hi.right.symm

theorem chosen_iff (h : Within counts row) :
    List.Forall₂ (fun entry i => i ∈ choices entry.2 entry.1) (row.zip counts) combination ↔
      List.Forall₂ (· < ·) combination counts ∧ covers row combination = true := by
  induction h generalizing combination with
  | nil =>
      constructor
      · rintro ⟨⟩
        exact ⟨.nil, rfl⟩
      · rintro ⟨⟨⟩, _⟩
        exact .nil
  | @cons count entry counts row hentry _ ih =>
      cases combination with
      | nil =>
          constructor
          · rintro ⟨⟩
          · rintro ⟨⟨⟩, _⟩
      | cons i rest =>
          rw [List.zip_cons_cons, List.forall₂_cons, List.forall₂_cons, mem_choices hentry, ih,
            covers_cons, Bool.and_eq_true, and_and_and_comm]

/-- A row expands to just the combinations it covers. -/
theorem mem_expand (h : Within counts row) : combination ∈ expand counts row ↔
    combination ∈ product counts ∧ covers row combination = true := by
  rw [expand_eq, mem_foldl_extend, mem_product, <- chosen_iff h]
  constructor
  · rintro ⟨first, hfirst, rest, hrest, rfl⟩
    rw [List.mem_singleton.mp hfirst]
    exact hrest
  · intro hchosen
    exact ⟨[], List.mem_singleton_self _, combination, hchosen, rfl⟩

/-!
## Covering combinations
-/

theorem cover_eq (covered : List Combination) {keys : List Combination} (hkeys : keys.Nodup)
    (span : Span) :
    cover span covered keys =
      if keys.any covered.contains then .error { value := .caseTakenTwice, span := span }
      else .ok (keys.reverse ++ covered) := by
  induction keys generalizing covered with
  | nil => rfl
  | cons key keys ih =>
      rcases List.nodup_cons.mp hkeys with ⟨hnew, hrest⟩
      rw [cover, List.any_cons]
      by_cases hkey : covered.contains key = true
      · rw [if_pos hkey, hkey, Bool.true_or]
        rfl
      · have hany : keys.any (key :: covered).contains = keys.any covered.contains := by
          rw [Bool.eq_iff_iff, List.any_eq_true, List.any_eq_true]
          refine exists_congr fun other => and_congr_right fun hother => ?_
          have hne : other ≠ key := fun h => hnew (h ▸ hother)
          rw [List.contains_cons, Bool.or_eq_true, beq_iff_eq, or_iff_right hne]
        rw [if_neg hkey, ih _ hrest, hany, eq_false_of_ne_true hkey, Bool.false_or,
          List.reverse_cons, List.append_assoc]
        rfl

/-- The combinations covered so far, once each, are those that some row covers. -/
structure Tracks (counts : List Nat) (rows : List Row) (covered : List Combination) : Prop where
  distinct : covered.Nodup
  mem : forall combination, combination ∈ covered ↔
    combination ∈ product counts ∧ rows.any (covers · combination) = true

theorem tracks_nil (counts : List Nat) : Tracks counts [] [] :=
  ⟨List.nodup_nil, by simp⟩

/-- A row expands to a combination that is covered already just if it overlaps with a row
before it. -/
theorem Tracks.overlaps_iff (h : Tracks counts rows covered) (hclear : ¬ Overlaps counts rows)
    (hrow : Within counts row) :
    (expand counts row).any covered.contains = true ↔ Overlaps counts (rows ++ [row]) := by
  rw [List.any_eq_true]
  constructor
  · rintro ⟨combination, hkey, hcovered⟩
    rcases (mem_expand hrow).mp hkey with ⟨hmem, hcovers⟩
    have hbefore := ((h.mem combination).mp (List.contains_iff_mem.mp hcovered)).right
    refine ⟨combination, hmem, ?_⟩
    rw [List.countP_append, List.countP_singleton, if_pos hcovers]
    exact Nat.succ_le_succ (List.one_le_countP_iff.mpr (List.any_eq_true.mp hbefore))
  · rintro ⟨combination, hmem, htwo⟩
    rw [List.countP_append, List.countP_singleton] at htwo
    have hone : ¬ 2 ≤ rows.countP (covers · combination) := fun hrows => hclear ⟨_, hmem, hrows⟩
    have hcovers : covers row combination = true := by
      by_contra hnot
      rw [if_neg hnot] at htwo
      exact hone htwo
    rw [if_pos hcovers] at htwo
    have hbefore := List.any_eq_true.mpr
      (List.one_le_countP_iff.mp (Nat.le_of_succ_le_succ htwo))
    exact ⟨combination, (mem_expand hrow).mpr ⟨hmem, hcovers⟩,
      List.contains_iff_mem.mpr ((h.mem combination).mpr ⟨hmem, hbefore⟩)⟩

theorem Tracks.concat (h : Tracks counts rows covered) (hrow : Within counts row)
    (hnew : ¬ (expand counts row).any covered.contains = true) :
    Tracks counts (rows ++ [row]) ((expand counts row).reverse ++ covered) where
  distinct := by
    rw [List.nodup_append, List.nodup_reverse]
    refine ⟨nodup_expand counts row, h.distinct, ?_⟩
    rintro key hkey other hother rfl
    exact hnew (List.any_eq_true.mpr ⟨key, List.mem_reverse.mp hkey,
      List.contains_iff_mem.mpr hother⟩)
  mem := by
    intro combination
    rw [List.mem_append, List.mem_reverse, mem_expand hrow, h.mem, List.any_append,
      Bool.or_eq_true, <- and_or_left, or_comm, List.any_cons, List.any_nil, Bool.or_false]

theorem Overlaps.append (h : Overlaps counts rows) (others : List Row) :
    Overlaps counts (rows ++ others) := by
  rcases h with ⟨combination, hmem, htwo⟩
  refine ⟨combination, hmem, Nat.le_trans htwo ?_⟩
  rw [List.countP_append]
  exact Nat.le_add_right _ _

theorem leftOut_ne_nil : leftOut counts rows ≠ [] ↔ exists combination,
    combination ∈ product counts ∧ rows.countP (covers · combination) = 0 := by
  rw [leftOut, ne_eq, List.filter_eq_nil_iff]
  simp [List.countP_eq_zero]

theorem countP_covers (hclear : ¬ Overlaps counts rows) (hmem : combination ∈ product counts) :
    rows.countP (covers · combination) = 0 ∨ rows.countP (covers · combination) = 1 := by
  apply Nat.le_one_iff_eq_zero_or_eq_one.mp
  apply Nat.le_of_not_lt
  intro htwo
  exact hclear ⟨combination, hmem, htwo⟩

theorem Tracks.length_add_leftOut (h : Tracks counts rows covered) :
    covered.length + (leftOut counts rows).length = counts.prod := by
  have hperm : covered.Perm
      ((product counts).filter fun combination => rows.any (covers · combination)) := by
    apply (List.perm_ext_iff_of_nodup h.distinct ((nodup_product counts).filter _)).mpr
    intro combination
    rw [h.mem, List.mem_filter]
  rw [hperm.length_eq, leftOut, <- length_product, <- List.length_eq_length_filter_add]

/-!
## Counting in a machine word
-/

theorem combinations_eq (counts : List Nat) : combinations counts = UInt64.ofNat counts.prod := by
  suffices h : forall total : Nat,
      counts.foldl (fun total count => total * UInt64.ofNat count) (UInt64.ofNat total) =
        UInt64.ofNat (total * counts.prod) by
    simpa [combinations] using h 1
  induction counts with
  | nil => simp
  | cons count counts ih =>
      intro total
      rw [List.foldl_cons, <- UInt64.ofNat_mul, ih, List.prod_cons, Nat.mul_assoc]

section

variable (htracks : Tracks counts rows covered) (hword : counts.prod < 2 ^ 64)

include htracks hword

theorem covered_beq_iff :
    (UInt64.ofNat covered.length == combinations counts) = true ↔ leftOut counts rows = [] := by
  have hsum := htracks.length_add_leftOut
  rw [beq_iff_eq, combinations_eq, <- UInt64.toNat_inj, UInt64.toNat_ofNat',
    UInt64.toNat_ofNat', Nat.mod_eq_of_lt hword, Nat.mod_eq_of_lt (by omega),
    <- List.length_eq_zero_iff]
  omega

/-- The difference of the counts is the number of combinations left out: it does not wrap
around. -/
theorem combinations_sub_covered :
    (combinations counts - UInt64.ofNat covered.length).toNat = (leftOut counts rows).length := by
  have hsum := htracks.length_add_leftOut
  rw [combinations_eq, UInt64.toNat_sub_of_le, UInt64.toNat_ofNat',
    UInt64.toNat_ofNat', Nat.mod_eq_of_lt hword, Nat.mod_eq_of_lt (by omega)]
  · omega
  · rw [UInt64.le_iff_toNat_le, UInt64.toNat_ofNat', UInt64.toNat_ofNat', Nat.mod_eq_of_lt hword,
      Nat.mod_eq_of_lt (by omega)]
    omega

theorem requireCombinations_none (span : Span) :
    requireCombinations counts covered none span =
      if leftOut counts rows = [] then .ok ()
      else .error {
        value := .incompleteCombinations (leftOut counts rows).length
        span := span } := by
  rw [requireCombinations]
  simp only [covered_beq_iff htracks hword, combinations_sub_covered htracks hword]
  rfl

theorem requireCombinations_some (place span : Span) :
    requireCombinations counts covered (some place) span =
      if leftOut counts rows = [] then .error { value := .superfluousDefault, span := place }
      else .ok () := by
  rw [requireCombinations]
  simp only [covered_beq_iff htracks hword]
  rfl

end
end Coverage
end TypeChecker
