import TypeChecker.Proofs.Tables
import TypeChecker.Registry.Cycles

/-!
# Every circle is reported

A registry without a reported circle has no circle at all, so nothing is taken out of
it. All members of a circle come back to themselves after the same number of layers.
The search therefore finds the circle from its smallest member too, and that is where
it is reported.
-/

namespace TypeChecker
namespace Registry

variable {registry : Registry}

/-!
## Going inwards
-/

def follow (registry : Registry) : Nat -> Symbol -> Option Symbol
  | 0, name => some name
  | n + 1, name => (innerName? registry name).bind (follow registry n)

theorem follow_add (m n : Nat) (name : Symbol) :
    follow registry (m + n) name = (follow registry m name).bind (follow registry n) := by
  induction m generalizing name with
  | zero => simp [follow]
  | succ m ih =>
      rw [Nat.add_right_comm]
      simp only [follow, Option.bind_assoc]
      congr 1
      funext next
      exact ih next

theorem follow_succ {n : Nat} {name current : Symbol} (h : follow registry n name = some current) :
    follow registry (n + 1) name = innerName? registry current := by
  rw [follow_add, h, Option.bind_some]
  simp [follow]

theorem follow_isSome_of_le {m n : Nat} {name last : Symbol} (hle : m ≤ n)
    (h : follow registry n name = some last) :
    exists middle, follow registry m name = some middle := by
  rw [<- Nat.add_sub_cancel' hle, follow_add] at h
  rcases Option.bind_eq_some_iff.mp h with ⟨middle, hmiddle, _⟩
  exact ⟨middle, hmiddle⟩

theorem follow_mod {k : Nat} {name : Symbol} (h : follow registry k name = some name) (n : Nat) :
    follow registry n name = follow registry (n % k) name := by
  have hrounds : forall rounds, follow registry (k * rounds) name = some name := by
    intro rounds
    induction rounds with
    | zero => rfl
    | succ rounds ih => rw [Nat.mul_succ, follow_add, ih, Option.bind_some, h]
  conv => lhs; rw [<- Nat.div_add_mod n k]
  rw [follow_add, hrounds, Option.bind_some]

theorem follow_member {k n : Nat} {start name : Symbol}
    (hstart : follow registry k start = some start) (hname : follow registry n start = some name) :
    follow registry k name = some name := by
  have hround : follow registry (k + n) start = some name := by
    rw [follow_add, hstart, Option.bind_some, hname]
  rw [Nat.add_comm, follow_add, hname, Option.bind_some] at hround
  exact hround

/-!
## The search
-/

def Trail (registry : Registry) (start : Symbol) (path : List Symbol) : Prop :=
  path.reverse.map some = (List.range path.length).map fun n => follow registry n start

theorem Trail.start (start : Symbol) : Trail registry start [start] := rfl

theorem Trail.cons {start next : Symbol} {path : List Symbol} (h : Trail registry start path)
    (hnext : follow registry path.length start = some next) :
    Trail registry start (next :: path) := by
  unfold Trail at h ⊢
  rw [List.reverse_cons, List.map_append, h, List.length_cons, List.range_succ, List.map_append]
  simp [hnext]

theorem Trail.mem_iff {start name : Symbol} {path : List Symbol}
    (h : Trail registry start path) :
    name ∈ path ↔ exists n, n < path.length ∧ follow registry n start = some name := by
  have hmem : name ∈ path ↔ some name ∈ path.reverse.map some := by simp
  rw [hmem, h, List.mem_map]
  simp only [List.mem_range]

theorem circleFrom_eq_some {start : Symbol} {steps : Nat} {path : List Symbol} {current : Symbol}
    {found : List Symbol} (htrail : Trail registry start (current :: path))
    (hcurrent : follow registry path.length start = some current)
    (h : circleFrom registry start steps (current :: path) current = some found) :
    exists k, 0 < k ∧ k ≤ steps + path.length ∧ follow registry k start = some start ∧
      found.length = k + 1 ∧ Trail registry start found.reverse := by
  induction steps generalizing path current with
  | zero => cases h
  | succ steps ih =>
      have hstep := follow_succ hcurrent
      rw [circleFrom] at h
      split at h
      · cases h
      · rename_i next hnext
        rw [hnext] at hstep
        split at h
        · rename_i hback
          cases h
          subst hback
          refine ⟨path.length + 1, by omega, by omega, hstep, by simp, ?_⟩
          rw [List.reverse_reverse]
          exact htrail.cons hstep
        · split at h
          · cases h
          · rcases ih (htrail.cons hstep) hstep h with ⟨k, hpos, hle, hback, hlen, hfound⟩
            refine ⟨k, hpos, ?_, hback, hlen, hfound⟩
            rw [List.length_cons] at hle
            omega

/-- What is met twice on the way round brings the start back after fewer layers. -/
theorem follow_back_sooner {start next : Symbol} {k m n : Nat}
    (hback : follow registry k start = some start) (hn : n ≤ k) (hnm : n ≤ m)
    (hagain : follow registry n start = some next)
    (hnext : follow registry m start = some next) :
    follow registry (m - n) start = some start := by
  have hrest : follow registry (k - n) next = some start := by
    rw [<- Nat.add_sub_cancel' hn, follow_add, hagain, Option.bind_some] at hback
    exact hback
  have hround : follow registry (m + (k - n)) start = some start := by
    rw [follow_add, hnext, Option.bind_some, hrest]
  rw [show m + (k - n) = k + (m - n) by omega, follow_add, hback, Option.bind_some] at hround
  exact hround

theorem circleFrom_isSome {start : Symbol} {k : Nat} (hpos : 0 < k)
    (hback : follow registry k start = some start) {steps : Nat} {path : List Symbol}
    {current : Symbol} (htrail : Trail registry start (current :: path))
    (hcurrent : follow registry path.length start = some current)
    (hsteps : k ≤ steps + path.length)
    (hfirst : forall n, 0 < n -> n ≤ path.length -> follow registry n start ≠ some start) :
    (circleFrom registry start steps (current :: path) current).isSome = true := by
  induction steps generalizing path current with
  | zero => exact absurd hback (hfirst k hpos (by omega))
  | succ steps ih =>
      have hlong : path.length < k := by
        rcases Nat.lt_or_ge path.length k with hlt | hge
        · exact hlt
        · exact absurd hback (hfirst k hpos hge)
      have hstep := follow_succ hcurrent
      rcases follow_isSome_of_le hlong hback with ⟨next, hnext⟩
      rw [hnext] at hstep
      rw [circleFrom, <- hstep]
      show (if next = start then some (next :: current :: path).reverse
        else if (current :: path).contains next then none
        else circleFrom registry start steps (next :: current :: path) next).isSome = true
      by_cases hreturn : next = start
      · rw [if_pos hreturn]
        rfl
      · rw [if_neg hreturn]
        have hnew : (current :: path).contains next = false := by
          rw [Bool.eq_false_iff]
          intro hold
          rcases htrail.mem_iff.mp (by simpa using hold) with ⟨n, hn, hagain⟩
          rw [List.length_cons] at hn
          have hn0 : 0 < n := by
            rcases Nat.eq_zero_or_pos n with rfl | hn0
            · exact absurd (Option.some.inj hagain).symm hreturn
            · exact hn0
          exact hfirst (path.length + 1 - n) (by omega) (by omega)
            (follow_back_sooner hback (by omega) (by omega) hagain hnext)
        rw [hnew, if_neg (by simp)]
        refine ih (htrail.cons hnext) hnext ?_ ?_
        · rw [List.length_cons]
          omega
        · intro n hn hle
          rw [List.length_cons] at hle
          rcases Nat.lt_or_ge n (path.length + 1) with hlt | hge
          · exact hfirst n hn (by omega)
          · rw [show n = path.length + 1 by omega, hnext]
            exact fun hsame => hreturn (Option.some.inj hsame)

/-!
## Reports
-/

theorem mem_of_follow {k : Nat} {name : Symbol} (hpos : 0 < k)
    (h : follow registry k name = some name) : exists d, (name, d) ∈ registry := by
  cases k with
  | zero => cases hpos
  | succ k =>
      rw [follow] at h
      rcases Option.bind_eq_some_iff.mp h with ⟨next, hnext, _⟩
      rw [innerName?] at hnext
      split at hnext
      · cases hnext
      · rename_i d hd
        exact ⟨d, Table.mem_of_get? hd⟩

theorem circle?_returns {start : Symbol} {path : List Symbol}
    (h : circle? registry start = some path) :
    exists k, 0 < k ∧ k ≤ registry.length + 1 ∧ follow registry k start = some start := by
  rcases circleFrom_eq_some (Trail.start start) rfl h with ⟨k, hpos, hle, hback, _, _⟩
  exact ⟨k, hpos, hle, hback⟩

/-- The chain from a type back to itself meets all that the type leads to, and nothing else. -/
theorem mem_circle? {start name : Symbol} {path : List Symbol}
    (h : circle? registry start = some path) :
    name ∈ path ↔ exists n, follow registry n start = some name := by
  rcases circleFrom_eq_some (Trail.start start) rfl h with ⟨k, hpos, _, hback, hlen, htrail⟩
  rw [<- List.mem_reverse, htrail.mem_iff, List.length_reverse, hlen]
  constructor
  · intro hmem
    rcases hmem with ⟨n, _, hn⟩
    exact ⟨n, hn⟩
  · intro hreached
    rcases hreached with ⟨n, hn⟩
    rw [follow_mod hback] at hn
    exact ⟨n % k, Nat.lt_succ_of_lt (Nat.mod_lt n hpos), hn⟩

theorem exists_smallest_member {start : Symbol} {path : List Symbol}
    (h : circle? registry start = some path) :
    exists least path', least ∈ path ∧ circle? registry least = some path' ∧
      isSmallest least path' = true := by
  rcases circle?_returns h with ⟨k, hpos, hle, hback⟩
  have hnil : path ≠ [] := List.ne_nil_of_mem ((mem_circle? h).mpr ⟨0, rfl⟩)
  rcases Table.exists_smallest hnil with ⟨least, hleast, hsmallest⟩
  rcases (mem_circle? h).mp hleast with ⟨n, hn⟩
  have hsome : (circle? registry least).isSome = true :=
    circleFrom_isSome hpos (follow_member hback hn) (Trail.start least) rfl hle fun n hn0 hn =>
      absurd hn (by simp; omega)
  rcases Option.isSome_iff_exists.mp hsome with ⟨path', hpath'⟩
  refine ⟨least, path', hleast, hpath', ?_⟩
  unfold isSmallest
  rw [List.all_eq_true]
  intro other hother
  rcases (mem_circle? hpath').mp hother with ⟨m, hm⟩
  have hreached : follow registry (n + m) start = some other := by
    rw [follow_add, hn, Option.bind_some, hm]
  have hnot : Symbol.order other least ≠ .lt :=
    hsmallest other ((mem_circle? h).mpr ⟨_, hreached⟩)
  simpa using hnot

theorem mem_circles_of_circle? {name : Symbol} {path : List Symbol}
    (h : circle? registry name = some path) : (name, path) ∈ circles registry := by
  rcases circle?_returns h with ⟨k, hpos, _, hback⟩
  rcases mem_of_follow hpos hback with ⟨d, hd⟩
  exact List.mem_filterMap.mpr ⟨(name, d), hd, by simp [h]⟩

theorem circleProblems_ne_nil {start : Symbol} {path : List Symbol}
    (h : circle? registry start = some path) : circleProblems registry ≠ [] := by
  rcases exists_smallest_member h with ⟨least, path', _, hpath', hsmallest⟩
  intro hempty
  have hreported := List.filterMap_eq_nil_iff.mp hempty (least, path')
    (mem_circles_of_circle? hpath')
  simp [hsmallest] at hreported

theorem withoutCircles_eq_self (h : circleProblems registry = []) :
    withoutCircles registry = registry := by
  have hnone : circles registry = [] := by
    apply List.filterMap_eq_nil_iff.mpr
    intro item _
    cases hpath : circle? registry item.1 with
    | none => rfl
    | some path => exact absurd h (circleProblems_ne_nil hpath)
  rw [withoutCircles, hnone, List.foldl_nil]

/-!
## What is left
-/

/-- What comes back to itself does so within as many layers as there are declarations. -/
theorem exists_short_return {start : Symbol} {k : Nat} (hpos : 0 < k)
    (hback : follow registry k start = some start) :
    exists n, 0 < n ∧ n ≤ registry.length ∧ follow registry n start = some start := by
  induction k using Nat.strongRecOn with
  | _ k ih =>
      by_cases hsooner : exists m, 0 < m ∧ m < k ∧ follow registry m start = some start
      · rcases hsooner with ⟨m, hm, hlt, hagain⟩
        exact ih m hlt hm hagain
      · refine ⟨k, hpos, ?_, hback⟩
        have hdistinct : ((List.range k).map fun n => follow registry n start).Nodup := by
          refine List.pairwise_map.mpr (List.pairwise_lt_range.imp_of_mem ?_)
          intro i j _ hj hlt hsame
          rw [List.mem_range] at hj
          rcases follow_isSome_of_le (Nat.le_of_lt hj) hback with ⟨name, hname⟩
          refine hsooner ⟨j - i, by omega, by omega, ?_⟩
          exact follow_back_sooner hback (by omega) (by omega) (hsame.trans hname) hname
        have hdeclared : ((List.range k).map fun n => follow registry n start) ⊆
            registry.map fun item => some item.1 := by
          intro found hfound
          rcases List.mem_map.mp hfound with ⟨n, hn, rfl⟩
          rw [List.mem_range] at hn
          rcases follow_isSome_of_le (Nat.le_of_lt hn) hback with ⟨name, hname⟩
          rcases follow_isSome_of_le hn hback with ⟨next, hnext⟩
          rw [follow_succ hname, innerName?] at hnext
          split at hnext
          · cases hnext
          · rename_i d hd
            rw [hname]
            exact List.mem_map.mpr ⟨(name, d), Table.mem_of_get? hd, rfl⟩
        simpa using (List.subperm_of_subset hdistinct hdeclared).length_le

theorem circle?_isSome {start : Symbol} {k : Nat} (hpos : 0 < k)
    (hback : follow registry k start = some start) : (circle? registry start).isSome = true := by
  rcases exists_short_return hpos hback with ⟨n, hn, hle, hround⟩
  exact circleFrom_isSome hn hround (Trail.start start) rfl (Nat.le_succ_of_le hle)
    fun m hm hnone => absurd hnone (by simp; omega)

theorem mem_circles {name : Symbol} {d : Declaration} (h : (name, d) ∈ registry) :
    name ∈ (circles registry).map Prod.fst ↔ (circle? registry name).isSome = true := by
  constructor
  · intro hmem
    rcases List.mem_map.mp hmem with ⟨item, hitem, rfl⟩
    rcases List.mem_filterMap.mp hitem with ⟨entry, _, hpath⟩
    rcases Option.map_eq_some_iff.mp hpath with ⟨path, hpath, heq⟩
    rw [<- heq, hpath]
    rfl
  · intro hsome
    rcases Option.isSome_iff_exists.mp hsome with ⟨path, hpath⟩
    refine List.mem_map.mpr ⟨(name, path), ?_, rfl⟩
    exact List.mem_filterMap.mpr ⟨(name, d), h, by simp [hpath]⟩

theorem get?_withoutCircles (registry : Registry) (name : Symbol) :
    Table.get? (withoutCircles registry) name =
      if (circle? registry name).isSome then none else Table.get? registry name := by
  have hfold : forall (items : List (Symbol × List Symbol)) (table : Registry),
      Table.get? (items.foldl (fun rest item => Table.erase rest item.1) table) name =
        if name ∈ items.map Prod.fst then none else Table.get? table name := by
    intro items
    induction items with
    | nil => exact fun table => rfl
    | cons item items ih =>
        intro table
        rw [List.foldl_cons, ih, Table.get?_erase, List.map_cons]
        by_cases hlater : name ∈ items.map Prod.fst
        · rw [if_pos hlater, if_pos (List.mem_cons_of_mem _ hlater)]
        · rw [if_neg hlater]
          simp only [List.mem_cons, hlater, or_false, eq_comm]
  rw [withoutCircles, hfold]
  cases hget : Table.get? registry name with
  | none => simp
  | some d => simp only [mem_circles (Table.mem_of_get? hget)]

theorem innerName?_withoutCircles {name next : Symbol}
    (h : innerName? (withoutCircles registry) name = some next) :
    circle? registry name = none ∧ innerName? registry name = some next := by
  rw [innerName?, get?_withoutCircles] at h
  cases hcircle : circle? registry name with
  | none =>
      rw [hcircle] at h
      exact ⟨rfl, h⟩
  | some path =>
      rw [hcircle] at h
      cases h

theorem follow_withoutCircles_ne {n : Nat} (hn : 0 < n) (name : Symbol) :
    follow (withoutCircles registry) n name ≠ some name := by
  intro hback
  have hwhole : forall n name last, follow (withoutCircles registry) n name = some last ->
      follow registry n name = some last := by
    intro n
    induction n with
    | zero => exact fun _ _ h => h
    | succ n ih =>
        intro name last h
        rw [follow] at h ⊢
        rcases Option.bind_eq_some_iff.mp h with ⟨next, hnext, hrest⟩
        rw [(innerName?_withoutCircles hnext).right]
        exact ih next last hrest
  have hsome := circle?_isSome hn (hwhole n name name hback)
  cases n with
  | zero => cases hn
  | succ n =>
      rw [follow] at hback
      rcases Option.bind_eq_some_iff.mp hback with ⟨next, hnext, _⟩
      rw [(innerName?_withoutCircles hnext).left] at hsome
      cases hsome

theorem withoutCircles_sublist (registry : Registry) :
    (withoutCircles registry).Sublist registry := by
  have hfold : forall (items : List (Symbol × List Symbol)) (table : Registry),
      (items.foldl (fun rest circle => Table.erase rest circle.1) table).Sublist table := by
    intro items
    induction items with
    | nil => exact List.Sublist.refl
    | cons first items ih => exact fun table => (ih _).trans List.filter_sublist
  exact hfold _ _

theorem mem_of_withoutCircles {item : Symbol × Declaration}
    (h : item ∈ withoutCircles registry) : item ∈ registry :=
  (withoutCircles_sublist registry).subset h

end Registry
end TypeChecker
