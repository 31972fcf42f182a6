import TypeChecker.Proofs.Program.BuiltGraphs
import Mathlib.Data.List.Perm.Subperm
import Mathlib.Data.List.Nodup
import Mathlib.Data.Fintype.Card
import Mathlib.Data.Fintype.EquivFin
import Mathlib.Logic.Relation
import Mathlib.Order.WellFounded

/-!
# Orders of modules

Modules are taken into the order once all their imports are in it. This is known from the
counters alone: at every point the counter of a module is the number of its imports that
are not yet taken, since no module lists an import twice. So the modules taken or queued are
exactly those that wait for nothing. In the end all modules are taken, each after its
imports, or those left over wait for each other in a circle.
-/

namespace TypeChecker
namespace ImportGraph

variable {g : ImportGraph} {order queue pending : List Nat} {id taken : Nat}

/-!
## Sorting by name
-/

theorem insertByName_perm (g : ImportGraph) (id : Nat) (ids : List Nat) :
    (g.insertByName id ids).Perm (id :: ids) := by
  induction ids with
  | nil => exact List.Perm.refl _
  | cons next rest ih =>
      rw [insertByName]
      split
      · exact List.Perm.refl _
      · exact (ih.cons next).trans (List.Perm.swap id next rest)

theorem sortByName_perm (g : ImportGraph) (ids : List Nat) : (g.sortByName ids).Perm ids := by
  have hfold : forall (ids sorted : List Nat),
      (ids.foldl (fun sorted id => g.insertByName id sorted) sorted).Perm (ids ++ sorted) := by
    intro ids
    induction ids with
    | nil => exact fun sorted => List.Perm.refl _
    | cons id ids ih =>
        intro sorted
        have hinsert := (g.insertByName_perm id sorted).append_left ids
        exact (ih _).trans (hinsert.trans List.perm_middle)
  have hsorted := hfold ids []
  rw [List.append_nil] at hsorted
  exact hsorted

theorem mem_sortByName {ids : List Nat} : id ∈ g.sortByName ids ↔ id ∈ ids :=
  (g.sortByName_perm ids).mem_iff

/-!
## Counting down
-/

theorem isPending_iff : isPending pending id = true ↔ 0 < pending[id]?.getD 0 :=
  decide_eq_true_iff

theorem countDown_counter (g : ImportGraph) (taken : Nat) (state : List Nat × List Nat)
    (id i : Nat) :
    (g.countDown taken state id).1[i]?.getD 0 =
      if i = id ∧ taken ∈ g.importsOf id then state.1[i]?.getD 0 - 1 else state.1[i]?.getD 0 := by
  unfold countDown
  by_cases hcounts : isPending state.1 id = true ∧ taken ∈ g.importsOf id
  · have hpos := isPending_iff.mp hcounts.left
    have hlt : id < state.1.length := by
      by_contra hout
      rw [List.getElem?_eq_none (Nat.le_of_not_lt hout)] at hpos
      exact Nat.lt_irrefl 0 hpos
    rw [if_pos (by simpa using hcounts)]
    by_cases hi : i = id
    · subst hi
      rw [if_pos ⟨rfl, hcounts.right⟩]
      simp [hlt]
    · rw [if_neg (fun h => hi h.left)]
      simp [List.getElem?_set_ne (Ne.symm hi)]
  · rw [if_neg (by simpa using hcounts)]
    split
    · rename_i h
      rcases h with ⟨rfl, himports⟩
      have hzero : ¬ 0 < state.1[i]?.getD 0 :=
        fun hpos => hcounts ⟨isPending_iff.mpr hpos, himports⟩
      omega
    · rfl

theorem countDown_unlocked (g : ImportGraph) (taken : Nat) (state : List Nat × List Nat)
    (id : Nat) :
    (g.countDown taken state id).2 =
      if state.1[id]?.getD 0 = 1 ∧ taken ∈ g.importsOf id then state.2 ++ [id] else state.2 := by
  unfold countDown
  by_cases hcounts : isPending state.1 id = true ∧ taken ∈ g.importsOf id
  · have hpos := isPending_iff.mp hcounts.left
    rw [if_pos (by simpa using hcounts)]
    dsimp only
    by_cases hone : state.1[id]?.getD 0 = 1
    · rw [if_pos (by omega), if_pos ⟨hone, hcounts.right⟩]
    · rw [if_neg (by omega), if_neg (fun h => hone h.left)]
  · rw [if_neg (by simpa using hcounts), if_neg]
    intro h
    exact hcounts ⟨isPending_iff.mpr (by omega), h.right⟩

/-- What has come of the modules before `bound` when a module is taken. -/
theorem foldl_countDown (g : ImportGraph) (taken : Nat) (pending : List Nat) (bound : Nat) :
    let state := (List.range bound).foldl (g.countDown taken) (pending, [])
    (forall i, state.1[i]?.getD 0 =
      if i < bound ∧ taken ∈ g.importsOf i then pending[i]?.getD 0 - 1 else pending[i]?.getD 0) ∧
    state.2 = (List.range bound).filter fun i =>
      decide (pending[i]?.getD 0 = 1 ∧ taken ∈ g.importsOf i) := by
  induction bound with
  | zero => simp
  | succ bound ih =>
      rcases ih with ⟨hcounters, hunlocked⟩
      dsimp only
      rw [List.range_succ, List.foldl_append, List.foldl_cons, List.foldl_nil]
      constructor
      · intro i
        rw [countDown_counter, hcounters]
        by_cases hi : i = bound
        · subst hi
          simp
        · have hlt : i < bound + 1 ↔ i < bound := by omega
          simp [hi, hlt]
      · rw [countDown_unlocked, hunlocked, hcounters, List.filter_append]
        by_cases hlast : pending[bound]?.getD 0 = 1 ∧ taken ∈ g.importsOf bound <;> simp [hlast]

theorem release_counter (g : ImportGraph) (taken : Nat) (pending : List Nat) (id : Nat) :
    (g.release taken pending).1[id]?.getD 0 =
      if taken ∈ g.importsOf id then pending[id]?.getD 0 - 1 else pending[id]?.getD 0 := by
  have hrun := (g.foldl_countDown taken pending g.size).left id
  unfold release
  rw [hrun]
  by_cases himports : taken ∈ g.importsOf id
  · have hlt : id < g.size := Imports.lt_size himports
    rw [if_pos ⟨hlt, himports⟩, if_pos himports]
  · rw [if_neg (fun h => himports h.right), if_neg himports]

theorem mem_release : id ∈ (g.release taken pending).2 ↔
    id < g.size ∧ pending[id]?.getD 0 = 1 ∧ g.Imports id taken := by
  unfold release
  rw [(g.foldl_countDown taken pending g.size).right]
  simp [Imports]

theorem nodup_release (g : ImportGraph) (taken : Nat) (pending : List Nat) :
    (g.release taken pending).2.Nodup := by
  unfold release
  rw [(g.foldl_countDown taken pending g.size).right]
  exact List.nodup_range.filter _

/-!
## What the counters count
-/

def Counts (g : ImportGraph) (order pending : List Nat) : Prop :=
  forall id, pending[id]?.getD 0 = (g.importsOf id).countP fun imported => decide (imported ∉ order)

theorem counts_start (g : ImportGraph) : g.Counts g.start.order g.start.pending := by
  intro id
  unfold start importsOf
  cases hnode : g.nodes[id]? <;> simp [hnode]

theorem countP_not_taken {imports : List Nat} (hdistinct : imports.Nodup) (hnew : taken ∉ order) :
    (imports.countP fun imported => decide (imported ∉ order ++ [taken])) =
      if taken ∈ imports then (imports.countP fun imported => decide (imported ∉ order)) - 1
      else imports.countP fun imported => decide (imported ∉ order) := by
  have hsplit : (imports.filter fun imported => decide (imported ∉ order ++ [taken])) =
      (imports.filter fun imported => decide (imported ∉ order)).erase taken := by
    rw [(hdistinct.filter _).erase_eq_filter, List.filter_filter]
    apply List.filter_congr
    intro imported _
    by_cases hlast : imported = taken <;> simp [hlast]
  rw [List.countP_eq_length_filter, hsplit, List.length_erase, <- List.countP_eq_length_filter]
  simp [hnew]

theorem Counts.release (h : g.Counts order pending) (hdistinct : forall id, (g.importsOf id).Nodup)
    (hnew : taken ∉ order) : g.Counts (order ++ [taken]) (g.release taken pending).1 := by
  intro id
  rw [release_counter, h id, countP_not_taken (hdistinct id) hnew]

theorem Counts.isPending_iff (h : g.Counts order pending) :
    isPending pending id = true ↔ exists imported, g.Imports id imported ∧ imported ∉ order := by
  rw [ImportGraph.isPending_iff, h id, List.countP_pos_iff]
  simp only [decide_eq_true_eq, Imports]

theorem Counts.isPending_eq_false (h : g.Counts order pending) :
    isPending pending id = false ↔ forall imported, g.Imports id imported -> imported ∈ order := by
  rw [<- Bool.not_eq_true, h.isPending_iff]
  push Not
  rfl

/-- The modules unlocked are those for which the module taken was the last import. -/
theorem Counts.mem_release (h : g.Counts order pending)
    (hdistinct : forall id, (g.importsOf id).Nodup) (hnew : taken ∉ order) :
    id ∈ (g.release taken pending).2 ↔
      id < g.size ∧ g.Imports id taken ∧ forall imported, g.Imports id imported ->
        imported ∈ order ++ [taken] := by
  rw [ImportGraph.mem_release, <- (h.release hdistinct hnew).isPending_eq_false,
    <- Bool.not_eq_true, ImportGraph.isPending_iff, release_counter]
  refine and_congr_right fun _ => ?_
  constructor
  · rintro ⟨hone, himports⟩
    refine ⟨himports, ?_⟩
    rw [if_pos (show taken ∈ g.importsOf id from himports)]
    omega
  · rintro ⟨himports, hzero⟩
    have hpos := ImportGraph.isPending_iff.mp (h.isPending_iff.mpr ⟨taken, himports, hnew⟩)
    rw [if_pos (show taken ∈ g.importsOf id from himports)] at hzero
    exact ⟨by omega, himports⟩

/-!
## Taking modules
-/

/-- What is so at every point: no module is taken or queued twice, those taken or queued
are the ones whose imports are all taken, and each was taken after its imports. -/
structure Progresses (g : ImportGraph) (order queue : List Nat) : Prop where
  distinct : (order ++ queue).Nodup
  ready : forall id, id ∈ order ++ queue ↔
    id < g.size ∧ forall imported, g.Imports id imported -> imported ∈ order
  later : forall before id after, order = before ++ id :: after ->
    forall imported, g.Imports id imported -> imported ∈ before

theorem progresses_start (g : ImportGraph) : g.Progresses g.start.order g.start.queue where
  distinct := by
    show (g.sortByName _).Nodup
    rw [(g.sortByName_perm _).nodup_iff]
    exact List.nodup_range.filter _
  ready := by
    intro id
    show id ∈ g.sortByName _ ↔ _
    rw [mem_sortByName, List.mem_filter, List.mem_range, Bool.not_eq_true']
    exact and_congr_right fun _ => g.counts_start.isPending_eq_false
  later := by
    intro before id after h
    simp [start] at h

theorem Progresses.not_taken (h : g.Progresses order (id :: queue)) : id ∉ order := by
  have hdistinct := h.distinct
  rw [List.nodup_append] at hdistinct
  exact fun hmem => hdistinct.right.right id hmem id List.mem_cons_self rfl

theorem Progresses.step (h : g.Progresses order (id :: queue)) (hcounts : g.Counts order pending)
    (hdistinct : forall id, (g.importsOf id).Nodup) :
    g.Progresses (order ++ [id]) (queue ++ g.sortByName (g.release id pending).2) := by
  have hsplit : order ++ [id] ++ (queue ++ g.sortByName (g.release id pending).2) =
      (order ++ id :: queue) ++ g.sortByName (g.release id pending).2 := by simp
  have hnew := h.not_taken
  constructor
  · rw [hsplit, List.nodup_append]
    refine ⟨h.distinct, ?_, ?_⟩
    · rw [(g.sortByName_perm _).nodup_iff]
      exact g.nodup_release id pending
    · -- What was there before waits for nothing, and so not for the module taken now.
      rintro other hother unlocked hunlocked rfl
      rcases mem_release.mp (mem_sortByName.mp hunlocked) with ⟨_, _, himports⟩
      exact hnew (((h.ready other).mp hother).right id himports)
  · intro other
    rw [hsplit, List.mem_append, h.ready, mem_sortByName, hcounts.mem_release hdistinct hnew]
    constructor
    · rintro (⟨hlt, hbefore⟩ | ⟨hlt, _, hnow⟩)
      · exact ⟨hlt, fun imported himports => List.mem_append_left _ (hbefore imported himports)⟩
      · exact ⟨hlt, hnow⟩
    · rintro ⟨hlt, hnow⟩
      by_cases himports : g.Imports other id
      · exact Or.inr ⟨hlt, himports, hnow⟩
      · refine Or.inl ⟨hlt, ?_⟩
        intro imported himported
        rcases List.mem_append.mp (hnow imported himported) with hmem | hlast
        · exact hmem
        · rw [List.mem_singleton.mp hlast] at himported
          exact absurd himported himports
  · intro before taken after heq
    rcases List.eq_nil_or_concat after with rfl | ⟨rest, last, rfl⟩
    · rcases List.append_inj' heq rfl with ⟨rfl, hlast⟩
      cases hlast
      exact ((h.ready id).mp (by simp)).right
    · have hcut : order ++ [id] = (before ++ taken :: rest) ++ [last] := by
        rw [heq]
        simp
      exact h.later before taken rest (List.append_inj' hcut rfl).left

theorem Progresses.length_le (h : g.Progresses order queue) :
    (order ++ queue).length ≤ g.size := by
  have hsubset : order ++ queue ⊆ List.range g.size := by
    intro id hid
    exact List.mem_range.mpr ((h.ready id).mp hid).left
  have hle := (List.subperm_of_subset h.distinct hsubset).length_le
  rwa [List.length_range] at hle

def Sound (g : ImportGraph) (s : Sorting) : Prop :=
  g.Progresses s.order s.queue ∧ g.Counts s.order s.pending

variable {s : Sorting}

theorem takeNext_cons (h : s.queue = id :: queue) : g.takeNext s =
    { order := s.order ++ [id]
      queue := queue ++ g.sortByName (g.release id s.pending).2
      pending := (g.release id s.pending).1 } := by
  rw [takeNext, h]

theorem takeNext_nil (h : s.queue = []) : g.takeNext s = s := by
  rw [takeNext, h]

theorem Sound.takeNext (h : g.Sound s) (hdistinct : forall id, (g.importsOf id).Nodup) :
    g.Sound (g.takeNext s) := by
  rcases h with ⟨hprogress, hcounts⟩
  cases hqueue : s.queue with
  | nil =>
      rw [takeNext_nil hqueue]
      exact ⟨hprogress, hcounts⟩
  | cons id queue =>
      rw [hqueue] at hprogress
      rw [takeNext_cons hqueue]
      exact ⟨hprogress.step hcounts hdistinct, hcounts.release hdistinct hprogress.not_taken⟩

theorem Sound.takeMany (h : g.Sound s) (hdistinct : forall id, (g.importsOf id).Nodup)
    (rounds : Nat) : g.Sound (g.takeMany rounds s) := by
  induction rounds generalizing s with
  | zero => exact h
  | succ rounds ih => exact ih (h.takeNext hdistinct)

theorem takeMany_nil (h : s.queue = []) (rounds : Nat) : g.takeMany rounds s = s := by
  induction rounds with
  | zero => rfl
  | succ rounds ih => rw [takeMany, takeNext_nil h, ih]

theorem Sound.queue_takeMany (h : g.Sound s) (hdistinct : forall id, (g.importsOf id).Nodup)
    {rounds : Nat} (hrounds : g.size ≤ rounds + s.order.length) :
    (g.takeMany rounds s).queue = [] := by
  induction rounds generalizing s with
  | zero =>
      have hle := h.left.length_le
      rw [List.length_append] at hle
      show s.queue = []
      exact List.eq_nil_of_length_eq_zero (by omega)
  | succ rounds ih =>
      cases hqueue : s.queue with
      | nil => rw [takeMany_nil hqueue, hqueue]
      | cons id queue =>
          apply ih (h.takeNext hdistinct)
          rw [takeNext_cons hqueue, List.length_append, List.length_singleton]
          omega

/-- At every point of the run the order and the counters are right. -/
theorem Built.sound (h : g.Built) (rounds : Nat) : g.Sound (g.takeMany rounds g.start) :=
  Sound.takeMany ⟨g.progresses_start, g.counts_start⟩ h.nodup_importsOf rounds

theorem Built.queue_sorting (h : g.Built) : g.sorting.queue = [] :=
  (h.sound 0).queue_takeMany h.nodup_importsOf (Nat.le_add_right _ _)

theorem Built.progresses (h : g.Built) : g.Progresses g.sorting.order [] := by
  have hsound := (h.sound g.size).left
  rw [show (g.takeMany g.size g.start).queue = [] from h.queue_sorting] at hsound
  exact hsound

theorem Built.counts (h : g.Built) : g.Counts g.sorting.order g.sorting.pending :=
  (h.sound g.size).right

/-!
## Complete orders and circles
-/

/-- Some module imports itself, directly or through others. -/
def HasCircle (g : ImportGraph) : Prop :=
  exists id, Relation.TransGen g.Imports id id

theorem Progresses.idxOf_lt (h : g.Progresses order []) {importer imported : Nat}
    (hmem : importer ∈ order) (himports : g.Imports importer imported) :
    order.idxOf imported < order.idxOf importer := by
  rcases List.append_of_mem hmem with ⟨before, after, rfl⟩
  have hbefore := h.later before importer after rfl imported himports
  have hdistinct := h.distinct
  rw [List.append_nil, List.nodup_append] at hdistinct
  have hfirst : importer ∉ before := fun hin =>
    hdistinct.right.right importer hin importer List.mem_cons_self rfl
  rw [List.idxOf_append_of_mem hbefore, List.idxOf_append_of_notMem hfirst, List.idxOf_cons_self,
    Nat.add_zero]
  exact List.idxOf_lt_length_of_mem hbefore

theorem Progresses.not_hasCircle (h : g.Progresses order [])
    (hall : forall id, id < g.size -> id ∈ order) : ¬ g.HasCircle := by
  rintro ⟨id, hcircle⟩
  have hless : forall a b, Relation.TransGen g.Imports a b -> order.idxOf b < order.idxOf a := by
    intro a b hab
    induction hab with
    | single hstep => exact h.idxOf_lt (hall a hstep.lt_size) hstep
    | tail _ hstep ih => exact Nat.lt_trans (h.idxOf_lt (hall _ hstep.lt_size) hstep) ih
  exact Nat.lt_irrefl _ (hless id id hcircle)

/-- Modules that are left over wait for each other in a circle. -/
theorem Progresses.hasCircle (hclosed : g.Closed) (h : g.Progresses order []) {id : Nat}
    (hid : id < g.size) (hleft : id ∉ order) : g.HasCircle := by
  by_contra hnone
  -- Without circles the modules are well-founded by what they import.
  let below : Fin g.size -> Fin g.size -> Prop :=
    fun a b => Relation.TransGen g.Imports b.val a.val
  have htrans : IsTrans (Fin g.size) below := ⟨fun a b c hab hbc => hbc.trans hab⟩
  have hirrefl : Std.Irrefl below := ⟨fun a ha => hnone ⟨a.val, ha⟩⟩
  have hfounded : WellFounded below := Finite.wellFounded_of_trans_of_irrefl below
  rcases hfounded.has_min {a : Fin g.size | a.val ∉ order} ⟨⟨id, hid⟩, hleft⟩ with
    ⟨least, hleast, hmin⟩
  have hwaits : ¬ forall imported, g.Imports least.val imported -> imported ∈ order := by
    intro hready
    have hmem := (h.ready least.val).mpr ⟨least.isLt, hready⟩
    rw [List.append_nil] at hmem
    exact hleast hmem
  push Not at hwaits
  rcases hwaits with ⟨imported, himports, hmissing⟩
  exact hmin ⟨imported, hclosed _ _ himports⟩ hmissing (Relation.TransGen.single himports)

theorem Progresses.mem_of_length_eq (h : g.Progresses order []) (hlen : order.length = g.size)
    {id : Nat} (hid : id < g.size) : id ∈ order := by
  have hdistinct : order.Nodup := by simpa using h.distinct
  have hsubset : order ⊆ List.range g.size := by
    intro other hother
    exact List.mem_range.mpr ((h.ready other).mp (List.mem_append_left _ hother)).left
  have hperm : order.Perm (List.range g.size) := by
    apply (List.subperm_of_subset hdistinct hsubset).perm_of_length_le
    rw [List.length_range, hlen]
  exact hperm.mem_iff.mpr (List.mem_range.mpr hid)

theorem order_ok (hbuilt : g.Built) (h : g.order = .ok order) :
    g.Progresses order [] ∧ (forall id, id ∈ order ↔ id < g.size) ∧ ¬ g.HasCircle := by
  unfold ImportGraph.order at h
  dsimp only at h
  split at h
  · rename_i hlen
    cases h
    have hprogress := hbuilt.progresses
    have hall : forall id, id < g.size -> id ∈ g.sorting.order :=
      fun id hid => hprogress.mem_of_length_eq hlen hid
    refine ⟨hprogress, ?_, hprogress.not_hasCircle hall⟩
    intro id
    constructor
    · intro hid
      exact ((hprogress.ready id).mp (List.mem_append_left _ hid)).left
    · exact hall id
  · cases h

theorem order_error (hbuilt : g.Built) {path : List String} (h : g.order = .error path) :
    g.HasCircle := by
  unfold ImportGraph.order at h
  dsimp only at h
  split at h
  · cases h
  · rename_i hlen
    have hprogress := hbuilt.progresses
    have hmissing : exists id, id < g.size ∧ id ∉ g.sorting.order := by
      by_contra hnone
      push Not at hnone
      apply hlen
      apply Nat.le_antisymm
      · simpa using hprogress.length_le
      · have hsubset : List.range g.size ⊆ g.sorting.order :=
          fun id hid => hnone id (List.mem_range.mp hid)
        simpa using (List.subperm_of_subset List.nodup_range hsubset).length_le
    rcases hmissing with ⟨id, hid, hleft⟩
    exact hprogress.hasCircle hbuilt.closed hid hleft

end ImportGraph
end TypeChecker
