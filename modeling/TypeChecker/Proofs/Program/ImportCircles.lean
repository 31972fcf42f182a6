import Mathlib.Data.List.Chain
import TypeChecker.Proofs.Program.ImportOrder

/-!
# Orders or circles of imports

The modules of a built graph have an order in which each stands after its imports, or some
imports go round in a circle. In the second case every module whose counter has not come
down to zero imports another such module, so that a walk along such imports never gets
stuck. It comes back to a module it has met after at most as many steps as there are
modules.
-/

namespace TypeChecker
namespace ImportGraph

variable {g : ImportGraph} {order pending path : List Nat} {start current : Nat}

/-!
## Modules that are left over
-/

/-- The modules could not be taken any further: none is queued and the counters are right. -/
structure Ended (g : ImportGraph) (order pending : List Nat) : Prop where
  closed : g.Closed
  progress : g.Progresses order []
  counts : g.Counts order pending

theorem Built.ended (h : g.Built) : g.Ended g.sorting.order g.sorting.pending :=
  ⟨h.closed, h.progresses, h.counts⟩

namespace Ended

variable {id : Nat}

theorem lt_size (h : g.Ended order pending) (hpending : isPending pending id = true) :
    id < g.size := by
  rcases h.counts.isPending_iff.mp hpending with ⟨imported, himports, _⟩
  exact himports.lt_size

theorem isPending_of_not_mem (h : g.Ended order pending) (hid : id < g.size)
    (hleft : id ∉ order) : isPending pending id = true := by
  by_contra hready
  have hall := h.counts.isPending_eq_false.mp (Bool.eq_false_iff.mpr hready)
  have hmem := (h.progress.ready id).mpr ⟨hid, hall⟩
  rw [List.append_nil] at hmem
  exact hleft hmem

theorem exists_next (h : g.Ended order pending) (hpending : isPending pending id = true) :
    exists next, (g.importsOf id).find? (isPending pending) = some next := by
  rcases h.counts.isPending_iff.mp hpending with ⟨imported, himports, hleft⟩
  have hnext := h.isPending_of_not_mem (h.closed id imported himports) hleft
  exact Option.isSome_iff_exists.mp (List.find?_isSome.mpr ⟨imported, himports, hnext⟩)

theorem exists_isPending (h : g.Ended order pending) (hlen : order.length ≠ g.size) :
    exists id, id < g.size ∧ isPending pending id = true := by
  by_contra hnone
  push Not at hnone
  have hall : List.range g.size ⊆ order := by
    intro id hid
    have hid := List.mem_range.mp hid
    by_contra hleft
    exact hnone id hid (h.isPending_of_not_mem hid hleft)
  have hle := (List.subperm_of_subset List.nodup_range hall).length_le
  have hge := h.progress.length_le
  rw [List.length_range] at hle
  rw [List.append_nil] at hge
  exact hlen (Nat.le_antisymm hge hle)

end Ended

/-!
## The walk
-/

/-- From `start`, going on to the first import that has pending imports itself, the walk has
come along `path` to `current`, and has met none of the modules on `path` twice. -/
inductive Reaches (g : ImportGraph) (pending : List Nat) (start : Nat) :
    List Nat -> Nat -> Prop where
  | start : Reaches g pending start [] start
  | step {path : List Nat} {current next : Nat} : Reaches g pending start path current ->
      current ∉ path -> (g.importsOf current).find? (isPending pending) = some next ->
      Reaches g pending start (path ++ [current]) next

namespace Reaches

theorem current_isPending (h : g.Reaches pending start path current)
    (hstart : isPending pending start = true) : isPending pending current = true := by
  cases h with
  | start => exact hstart
  | step _ _ hnext => exact List.find?_some hnext

theorem path_isPending (h : g.Reaches pending start path current)
    (hstart : isPending pending start = true) :
    forall id, id ∈ path -> isPending pending id = true := by
  induction h with
  | start =>
      intro id hid
      cases hid
  | step hreaches _ _ ih =>
      exact List.forall_mem_append.mpr
        ⟨ih, List.forall_mem_singleton.mpr (hreaches.current_isPending hstart)⟩

theorem nodup (h : g.Reaches pending start path current) : path.Nodup := by
  induction h with
  | start => exact List.nodup_nil
  | step _ hnew _ ih =>
      exact (List.nodup_cons.mpr ⟨hnew, ih⟩).perm (List.perm_append_singleton _ _).symm

theorem isChain (h : g.Reaches pending start path current) :
    (path ++ [current]).IsChain g.Imports := by
  induction h with
  | start => exact List.isChain_singleton _
  | @step path current next _ _ hnext ih =>
      apply List.isChain_append.mpr
      refine ⟨ih, List.isChain_singleton _, ?_⟩
      intro last hlast first hfirst
      rw [List.getLast?_concat, Option.mem_some_iff] at hlast
      rw [List.head?_cons, Option.mem_some_iff] at hfirst
      rw [<- hlast, <- hfirst]
      exact List.mem_of_find?_eq_some hnext

end Reaches

section

variable (hended : g.Ended order pending) (hstart : isPending pending start = true)

include hended hstart

theorem Reaches.length_le (h : g.Reaches pending start path current) : path.length ≤ g.size := by
  have hsubset : path ⊆ List.range g.size := by
    intro id hid
    exact List.mem_range.mpr (hended.lt_size (h.path_isPending hstart id hid))
  have hle := (List.subperm_of_subset h.nodup hsubset).length_le
  rwa [List.length_range] at hle

/-- With enough steps left the walk ends where it has come back to a module, and gives
the way from there on. -/
theorem walkCircle_returns {steps : Nat} (h : g.Reaches pending start path current)
    (hsteps : g.size < steps + path.length) :
    exists whole last, g.Reaches pending start whole last ∧ last ∈ whole ∧
      g.walkCircle pending steps path current = whole.dropWhile (· != last) ++ [last] := by
  induction steps generalizing path current with
  | zero =>
      have hle := h.length_le hended hstart
      omega
  | succ steps ih =>
      rw [walkCircle]
      split
      · rename_i hback
        exact ⟨path, current, h, List.contains_iff_mem.mp hback, rfl⟩
      · rename_i hfresh
        have hfresh : current ∉ path := fun hmem => hfresh (List.contains_iff_mem.mpr hmem)
        rcases hended.exists_next (h.current_isPending hstart) with ⟨next, hnext⟩
        rw [hnext]
        apply ih (h.step hfresh hnext)
        rw [List.length_append, List.length_singleton]
        omega

theorem walkCircle_add {steps : Nat} (h : g.Reaches pending start path current)
    (hsteps : g.size < steps + path.length) (more : Nat) :
    g.walkCircle pending (steps + more) path current = g.walkCircle pending steps path current := by
  induction steps generalizing path current with
  | zero =>
      have hle := h.length_le hended hstart
      omega
  | succ steps ih =>
      rw [Nat.add_right_comm, walkCircle, walkCircle]
      split
      · rfl
      · rename_i hfresh
        have hfresh : current ∉ path := fun hmem => hfresh (List.contains_iff_mem.mpr hmem)
        rcases hended.exists_next (h.current_isPending hstart) with ⟨next, hnext⟩
        rw [hnext]
        apply ih (h.step hfresh hnext)
        rw [List.length_append, List.length_singleton]
        omega

end

/-!
## Circles
-/

theorem dropWhile_append_cons {before after : List Nat} {last : Nat} (h : last ∉ before) :
    (before ++ last :: after).dropWhile (· != last) = last :: after := by
  induction before with
  | nil => simp
  | cons first before ih =>
      rw [List.mem_cons, not_or] at h
      rw [List.cons_append, List.dropWhile_cons_of_pos (by simpa using Ne.symm h.left)]
      exact ih h.right

/-- The names along a circle: each imports the next, the last is the first again, and
apart from this none comes twice. -/
structure IsCircle (g : ImportGraph) (names : List String) : Prop where
  long : 2 ≤ names.length
  closed : names.head? = names.getLast?
  simple : names.dropLast.Nodup
  linked : names.IsChain g.ImportsNamed

/-- Where the walk has come back to a module, the way from there on is a circle. -/
theorem Reaches.isCircle (hdistinct : g.names.Nodup) (hended : g.Ended order pending)
    (hstart : isPending pending start = true)
    (h : g.Reaches pending start path current) (hback : current ∈ path) :
    g.IsCircle ((path.dropWhile (· != current) ++ [current]).map g.nameOf) := by
  rcases List.append_of_mem hback with ⟨before, after, rfl⟩
  have hnodup := List.nodup_append.mp h.nodup
  have hfirst : current ∉ before :=
    fun hmem => hnodup.right.right current hmem current List.mem_cons_self rfl
  rw [dropWhile_append_cons hfirst]
  have hbelow : forall id, id ∈ current :: after -> id < g.size := fun id hid =>
    hended.lt_size (h.path_isPending hstart id (List.mem_append_right _ hid))
  constructor
  · simp
  · rw [List.map_append, List.map_singleton, List.getLast?_concat]
    rfl
  · rw [List.map_append, List.map_singleton, List.dropLast_concat]
    apply hnodup.right.left.map_on
    intro i hi j hj hsame
    exact nameOf_inj hdistinct (hbelow i hi) (hbelow j hj) hsame
  · have hchain := h.isChain
    rw [List.append_assoc] at hchain
    refine List.isChain_map_of_isChain g.nameOf ?_ (List.isChain_append.mp hchain).right.left
    intro i j himports
    exact ⟨i, j, himports, rfl, rfl⟩

theorem order_eq_ok : g.order = .ok order ↔ g.sorting.order.length = g.size ∧
    g.sorting.order = order := by
  unfold ImportGraph.order
  dsimp only
  split
  · rename_i hlen
    simp [hlen]
  · rename_i hlen
    simp [hlen]

theorem order_eq_error {names : List String} :
    g.order = .error names ↔ g.sorting.order.length ≠ g.size ∧
      (g.circle g.sorting.pending).map g.nameOf = names := by
  unfold ImportGraph.order
  dsimp only
  split
  · rename_i hlen
    simp [hlen]
  · rename_i hlen
    simp [hlen]

theorem Built.isCircle (h : g.Built) {names : List String} (herror : g.order = .error names) :
    g.IsCircle names := by
  rcases order_eq_error.mp herror with ⟨hlen, rfl⟩
  rcases h.ended.exists_isPending hlen with ⟨id, hid, hpending⟩
  unfold circle
  split
  · rename_i hnone
    exact absurd hpending (List.find?_eq_none.mp hnone id (List.mem_range.mpr hid))
  · rename_i start hfound
    have hstart := List.find?_some hfound
    rcases walkCircle_returns h.ended hstart Reaches.start (Nat.lt_succ_self g.size) with
      ⟨whole, last, hreaches, hback, hwalk⟩
    rw [hwalk]
    exact hreaches.isCircle h.distinct h.ended hstart hback

/-- The modules of a graph are ordered, each after its imports, unless some imports go
round in a circle. Then a circle is shown. Modules are taken until none is queued, and at
every point the counter of a module is the number of its imports, all distinct, that are not
yet taken. The search for a circle, from whichever module whose counter has not come down
to zero, always finds such an import to go on to, makes no more steps than there are
modules, and ends where it is back at a module it has met. -/
theorem modules_ordered_or_circle_shown (h : g.Built) :
    (forall order, g.order = .ok order -> order.Perm (List.range g.size) ∧
      forall importer imported, g.Imports importer imported ->
        order.idxOf imported < order.idxOf importer) ∧
    ((exists names, g.order = .error names) ↔ g.HasCircle) ∧
    (forall names, g.order = .error names -> g.IsCircle names) ∧
    (g.sorting.queue = [] ∧ forall rounds id, (g.importsOf id).Nodup ∧
      (g.takeMany rounds g.start).pending[id]?.getD 0 =
        (g.importsOf id).countP fun imported =>
          decide (imported ∉ (g.takeMany rounds g.start).order)) ∧
    forall start, isPending g.sorting.pending start = true ->
      (forall path current, g.Reaches g.sorting.pending start path current ->
        path.length ≤ g.size ∧ exists next,
          (g.importsOf current).find? (isPending g.sorting.pending) = some next) ∧
      exists path current, g.Reaches g.sorting.pending start path current ∧ current ∈ path ∧
        forall steps, g.size < steps -> g.walkCircle g.sorting.pending steps [] start =
          path.dropWhile (· != current) ++ [current] := by
  constructor
  · intro order hok
    rcases order_ok h hok with ⟨hordered, hmem, _⟩
    have hnodup : order.Nodup := by simpa using hordered.distinct
    constructor
    · apply (List.perm_ext_iff_of_nodup hnodup List.nodup_range).mpr
      intro id
      rw [hmem, List.mem_range]
    · intro importer imported himports
      exact hordered.idxOf_lt ((hmem importer).mpr himports.lt_size) himports
  constructor
  · constructor
    · intro hfails
      rcases hfails with ⟨names, herror⟩
      exact order_error h herror
    · intro hcircle
      cases horder : g.order with
      | error names => exact ⟨names, rfl⟩
      | ok order => exact absurd hcircle (order_ok h horder).right.right
  constructor
  · intro names herror
    exact h.isCircle herror
  constructor
  · refine ⟨h.queue_sorting, ?_⟩
    intro rounds id
    exact ⟨h.nodup_importsOf id, (h.sound rounds).right id⟩
  · intro start hstart
    constructor
    · intro path current hreaches
      exact ⟨hreaches.length_le h.ended hstart,
        h.ended.exists_next (hreaches.current_isPending hstart)⟩
    · rcases walkCircle_returns h.ended hstart Reaches.start (Nat.lt_succ_self g.size) with
        ⟨path, current, hreaches, hback, hwalk⟩
      refine ⟨path, current, hreaches, hback, ?_⟩
      intro steps hsteps
      have hmore := walkCircle_add h.ended hstart Reaches.start (Nat.lt_succ_self g.size)
        (steps - (g.size + 1))
      rw [Nat.add_sub_cancel' hsteps] at hmore
      rw [hmore, hwalk]

def ofLists (names : List String) (imports : List (Nat × Nat)) : ImportGraph :=
  imports.foldl (fun g item => g.addImport item.1 item.2)
    (names.foldl (fun g name => (g.addModule name).1) empty)

theorem Built.foldl_addModule (names : List String) {g : ImportGraph} (h : g.Built) :
    (names.foldl (fun g name => (g.addModule name).1) g).Built := by
  induction names generalizing g with
  | nil => exact h
  | cons name names ih => exact ih (.addModule name h)

theorem Built.foldl_addImport (imports : List (Nat × Nat)) {g : ImportGraph} (h : g.Built)
    (hbelow : forall item, item ∈ imports -> item.1 < g.size ∧ item.2 < g.size) :
    (imports.foldl (fun g item => g.addImport item.1 item.2) g).Built := by
  induction imports generalizing g with
  | nil => exact h
  | cons item imports ih =>
      have hitem := hbelow item List.mem_cons_self
      apply ih (.addImport h hitem.left hitem.right)
      intro later hlater
      rw [size_addImport]
      exact hbelow later (List.mem_cons_of_mem _ hlater)

theorem Built.ofLists {names : List String} {imports : List (Nat × Nat)}
    (hbelow : forall item, item ∈ imports ->
      item.1 < (ofLists names []).size ∧ item.2 < (ofLists names []).size) :
    (ofLists names imports).Built :=
  .foldl_addImport imports (.foldl_addModule names .empty) hbelow

/-- `X`, `Y` and `Z` import each other in a circle, and `X` imports `Base` before that. Two of
the counters come down, that of `X` by the one import that is taken. -/
theorem circle_behind_base_shown :
    let g := ofLists ["Base", "X", "Y", "Z"] [(1, 0), (1, 2), (2, 3), (3, 1), (1, 0)]
    g.order = .error ["X", "Y", "Z", "X"] ∧ g.HasCircle ∧ g.IsCircle ["X", "Y", "Z", "X"] ∧
      g.start.pending = [0, 2, 1, 1] ∧ g.sorting.pending = [0, 1, 1, 1] ∧ g.sorting.queue = [] ∧
      exists path current, g.Reaches g.sorting.pending 3 path current ∧ current ∈ path ∧
        forall steps, g.size < steps -> g.walkCircle g.sorting.pending steps [] 3 =
          path.dropWhile (· != current) ++ [current] := by
  intro g
  have hbuilt : g.Built := .ofLists (by decide)
  have herror : g.order = .error ["X", "Y", "Z", "X"] := by decide +kernel
  rcases modules_ordered_or_circle_shown hbuilt with ⟨_, hcircle, hshown, hcounts, hwalk⟩
  exact ⟨herror, hcircle.mp ⟨_, herror⟩, hshown _ herror, by decide +kernel, by decide +kernel,
    hcounts.left, (hwalk 3 (by decide +kernel)).right⟩

end ImportGraph
end TypeChecker
