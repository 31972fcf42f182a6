import TypeChecker.Proofs.Program.ImportCircles
import TypeChecker.Proofs.Tables

/-!
# Orders depend on names only

Modules are known by their positions, which depend on how a graph was built. Whenever
several modules become available they are taken in the order of their names, so that the
names of the modules taken and queued are the same in any two graphs with the same names
and the same imports between names. This is shown step by step for runs on both graphs.
-/

namespace TypeChecker
namespace ImportGraph

variable {g : ImportGraph} {ids : List Nat}

/-!
## Sorted by name
-/

theorem ordered_insertByName {id : Nat} (hnew : g.nameOf id ∉ ids.map g.nameOf)
    (h : Table.Ordered (ids.map g.nameOf)) :
    Table.Ordered ((g.insertByName id ids).map g.nameOf) := by
  induction ids with
  | nil => exact List.pairwise_singleton _ _
  | cons next rest ih =>
      rw [List.map_cons, List.mem_cons, not_or] at hnew
      rcases List.pairwise_cons.mp h with ⟨hnext, hrest⟩
      rw [insertByName]
      split
      · rename_i hless
        have hless : KeyOrder.order (g.nameOf id) (g.nameOf next) = .lt := beq_iff_eq.mp hless
        apply List.pairwise_cons.mpr
        constructor
        · intro name hname
          rcases List.mem_cons.mp hname with rfl | hname
          · exact hless
          · exact LawfulKeyOrder.trans _ _ _ hless (hnext name hname)
        · exact h
      · rename_i hless
        have hafter : KeyOrder.order (g.nameOf next) (g.nameOf id) = .lt := by
          rw [LawfulKeyOrder.swap]
          cases horder : KeyOrder.order (g.nameOf id) (g.nameOf next) with
          | lt => exact absurd (beq_iff_eq.mpr horder) hless
          | eq => exact absurd ((LawfulKeyOrder.eq_iff _ _).mp horder) hnew.left
          | gt => rfl
        apply List.pairwise_cons.mpr
        constructor
        · intro name hname
          have hperm := (g.insertByName_perm id rest).map g.nameOf
          rcases List.mem_cons.mp (hperm.mem_iff.mp hname) with rfl | hname
          · exact hafter
          · exact hnext name hname
        · exact ih hnew.right hrest

theorem ordered_sortByName (h : (ids.map g.nameOf).Nodup) :
    Table.Ordered ((g.sortByName ids).map g.nameOf) := by
  have hfold : forall (rest sorted : List Nat), ((sorted ++ rest).map g.nameOf).Nodup ->
      Table.Ordered (sorted.map g.nameOf) ->
      Table.Ordered ((rest.foldl (fun sorted id => g.insertByName id sorted) sorted).map
        g.nameOf) := by
    intro rest
    induction rest with
    | nil =>
        intro sorted _ hsorted
        exact hsorted
    | cons id rest ih =>
        intro sorted hdistinct hsorted
        have hmoved : (((id :: sorted) ++ rest).map g.nameOf).Nodup :=
          (List.perm_middle.map g.nameOf).nodup_iff.mp hdistinct
        have hnew : g.nameOf id ∉ sorted.map g.nameOf := by
          rw [List.cons_append, List.map_cons, List.map_append] at hmoved
          intro hmem
          exact (List.nodup_cons.mp hmoved).left (List.mem_append_left _ hmem)
        apply ih
        · have hperm := (g.insertByName_perm id sorted).append_right rest
          exact (hperm.map g.nameOf).nodup_iff.mpr hmoved
        · exact ordered_insertByName hnew hsorted
  exact hfold ids [] h List.Pairwise.nil

theorem nodup_names (hdistinct : g.names.Nodup) (hids : ids.Nodup)
    (hbelow : forall id, id ∈ ids -> id < g.size) : (ids.map g.nameOf).Nodup := by
  apply hids.map_on
  intro i hi j hj hsame
  exact nameOf_inj hdistinct (hbelow i hi) (hbelow j hj) hsame

theorem mem_names_iff {name : String} : name ∈ g.names ↔
    exists id, id < g.size ∧ g.nameOf id = name := by
  rw [List.mem_iff_getElem?]
  constructor
  · intro h
    rcases h with ⟨id, hid⟩
    have hlt := (List.getElem?_eq_some_iff.mp hid).choose
    rw [length_names] at hlt
    exact ⟨id, hlt, nameOf_eq hid⟩
  · intro h
    rcases h with ⟨id, hlt, rfl⟩
    rw [<- length_names] at hlt
    have hid := List.getElem?_eq_getElem hlt
    exact ⟨id, by rw [nameOf_eq hid]; exact hid⟩

/-!
## Two graphs with the same names and imports
-/

/-- Two built graphs have the same names, and the same imports between names. -/
structure Alike (g other : ImportGraph) : Prop where
  left : g.Built
  right : other.Built
  names : forall name, name ∈ g.names ↔ name ∈ other.names
  imports : forall importer imported,
    g.ImportsNamed importer imported ↔ other.ImportsNamed importer imported

variable {other : ImportGraph}

theorem Alike.symm (h : g.Alike other) : other.Alike g where
  left := h.right
  right := h.left
  names name := (h.names name).symm
  imports importer imported := (h.imports importer imported).symm

theorem Alike.size_eq (h : g.Alike other) : g.size = other.size := by
  have hperm := (List.perm_ext_iff_of_nodup h.left.distinct h.right.distinct).mpr h.names
  rw [<- length_names, <- length_names, hperm.length_eq]

theorem Built.importsNamed_iff (h : g.Built) {id : Nat} (hid : id < g.size) {imported : String} :
    g.ImportsNamed (g.nameOf id) imported ↔
      exists j, g.Imports id j ∧ g.nameOf j = imported := by
  constructor
  · intro himports
    rcases himports with ⟨i, j, himports, hname, rfl⟩
    rw [nameOf_inj h.distinct himports.lt_size hid hname] at himports
    exact ⟨j, himports, rfl⟩
  · intro himports
    rcases himports with ⟨j, himports, rfl⟩
    exact ⟨id, j, himports, rfl, rfl⟩

theorem Built.nameOf_mem_map (h : g.Built) {id : Nat} (hid : id < g.size)
    (hbelow : forall id, id ∈ ids -> id < g.size) : g.nameOf id ∈ ids.map g.nameOf ↔ id ∈ ids := by
  constructor
  · intro hmem
    rcases List.mem_map.mp hmem with ⟨j, hj, hsame⟩
    rw [<- nameOf_inj h.distinct (hbelow j hj) hid hsame]
    exact hj
  · exact List.mem_map_of_mem

theorem Built.imports_subset_iff (h : g.Built) {id : Nat} (hid : id < g.size)
    (hbelow : forall id, id ∈ ids -> id < g.size) :
    (forall imported, g.Imports id imported -> imported ∈ ids) ↔
      forall imported, g.ImportsNamed (g.nameOf id) imported -> imported ∈ ids.map g.nameOf := by
  constructor
  · intro htaken imported hnamed
    rcases (h.importsNamed_iff hid).mp hnamed with ⟨j, hj, rfl⟩
    exact List.mem_map_of_mem (htaken j hj)
  · intro htaken j hj
    have hnamed := htaken (g.nameOf j) ⟨id, j, hj, rfl, rfl⟩
    exact (h.nameOf_mem_map (h.closed _ _ hj) hbelow).mp hnamed

theorem Built.mem_start (h : g.Built) {name : String} : name ∈ g.start.queue.map g.nameOf ↔
    name ∈ g.names ∧ forall imported, ¬ g.ImportsNamed name imported := by
  have hready := g.progresses_start.ready
  rw [show g.start.order = [] from rfl, List.nil_append] at hready
  have hnone : forall id, id ∈ ([] : List Nat) -> id < g.size := List.forall_mem_nil _
  rw [mem_names_iff, List.mem_map]
  constructor
  · intro hmem
    rcases hmem with ⟨id, hid, rfl⟩
    rcases (hready id).mp hid with ⟨hlt, htaken⟩
    refine ⟨⟨id, hlt, rfl⟩, ?_⟩
    intro imported himports
    cases (h.imports_subset_iff hlt hnone).mp htaken imported himports
  · intro hmem
    rcases hmem with ⟨⟨id, hlt, rfl⟩, hfree⟩
    refine ⟨id, (hready id).mpr ⟨hlt, ?_⟩, rfl⟩
    apply (h.imports_subset_iff hlt hnone).mpr
    intro imported himports
    exact absurd himports (hfree imported)

/-- Which modules are unlocked by the last one taken, by name. -/
theorem Built.mem_release (h : g.Built) {order pending : List Nat} {last : Nat}
    (hcounts : g.Counts order pending) (hnew : last ∉ order)
    (hbelow : forall id, id ∈ order ++ [last] -> id < g.size) {name : String} :
    name ∈ (g.release last pending).2.map g.nameOf ↔
      name ∈ g.names ∧ g.ImportsNamed name (g.nameOf last) ∧
        forall imported, g.ImportsNamed name imported ->
          imported ∈ (order ++ [last]).map g.nameOf := by
  have hlast : last < g.size := hbelow last (List.mem_append_right _ (List.mem_singleton_self _))
  rw [mem_names_iff, List.mem_map]
  constructor
  · intro hmem
    rcases hmem with ⟨id, hid, rfl⟩
    rcases (hcounts.mem_release h.nodup_importsOf hnew).mp hid with ⟨hlt, himports, htaken⟩
    exact ⟨⟨id, hlt, rfl⟩, ⟨id, last, himports, rfl, rfl⟩,
      (h.imports_subset_iff hlt hbelow).mp htaken⟩
  · intro hmem
    rcases hmem with ⟨⟨id, hlt, rfl⟩, himports, htaken⟩
    refine ⟨id, (hcounts.mem_release h.nodup_importsOf hnew).mpr ⟨hlt, ?_, ?_⟩, rfl⟩
    · rcases (h.importsNamed_iff hlt).mp himports with ⟨j, hj, hsame⟩
      rw [nameOf_inj h.distinct (h.closed _ _ hj) hlast hsame] at hj
      exact hj
    · exact (h.imports_subset_iff hlt hbelow).mpr htaken

theorem Alike.sortByName_names (h : g.Alike other) {as bs : List Nat} (has : as.Nodup)
    (hbs : bs.Nodup) (hbelow : forall id, id ∈ as -> id < g.size)
    (hbelow' : forall id, id ∈ bs -> id < other.size)
    (hsame : forall name, name ∈ as.map g.nameOf ↔ name ∈ bs.map other.nameOf) :
    (g.sortByName as).map g.nameOf = (other.sortByName bs).map other.nameOf := by
  have hleft := nodup_names h.left.distinct has hbelow
  have hright := nodup_names h.right.distinct hbs hbelow'
  have hperm : (as.map g.nameOf).Perm (bs.map other.nameOf) :=
    (List.perm_ext_iff_of_nodup hleft hright).mpr hsame
  have hsorted : ((g.sortByName as).map g.nameOf).Perm
      ((other.sortByName bs).map other.nameOf) :=
    ((g.sortByName_perm as).map g.nameOf).trans
      (hperm.trans ((other.sortByName_perm bs).map other.nameOf).symm)
  exact (ordered_sortByName hleft).eq_of_subset (ordered_sortByName hright) hsorted.length_eq
    hsorted.subset

/-!
## Runs on both graphs
-/

theorem Progresses.below {order queue : List Nat} (h : g.Progresses order queue) :
    forall id, id ∈ order ++ queue -> id < g.size :=
  fun id hid => ((h.ready id).mp hid).left

/-- Two runs have taken and queued the same names. -/
structure InStep (g other : ImportGraph) (s t : Sorting) : Prop where
  left : g.Sound s
  right : other.Sound t
  order : s.order.map g.nameOf = t.order.map other.nameOf
  queue : s.queue.map g.nameOf = t.queue.map other.nameOf

theorem Alike.start (h : g.Alike other) : g.InStep other g.start other.start where
  left := h.left.sound 0
  right := h.right.sound 0
  order := rfl
  queue := by
    have hmem : forall name,
        name ∈ g.start.queue.map g.nameOf ↔ name ∈ other.start.queue.map other.nameOf := by
      intro name
      rw [h.left.mem_start, h.right.mem_start, h.names]
      simp only [h.imports]
    have hperm := g.sortByName_perm
      ((List.range g.size).filter fun id => !isPending g.start.pending id)
    have hperm' := other.sortByName_perm
      ((List.range other.size).filter fun id => !isPending other.start.pending id)
    apply h.sortByName_names (List.nodup_range.filter _) (List.nodup_range.filter _)
    · exact fun id hid => List.mem_range.mp (List.mem_filter.mp hid).left
    · exact fun id hid => List.mem_range.mp (List.mem_filter.mp hid).left
    · intro name
      exact (hperm.map g.nameOf).mem_iff.symm.trans
        ((hmem name).trans (hperm'.map other.nameOf).mem_iff)

section

variable {order queue pending order' queue' pending' : List Nat}

theorem Alike.released_names (h : g.Alike other) {id id' : Nat}
    (hprogress : g.Progresses order (id :: queue))
    (hprogress' : other.Progresses order' (id' :: queue'))
    (hcounts : g.Counts order pending) (hcounts' : other.Counts order' pending')
    (horder : (order ++ [id]).map g.nameOf = (order' ++ [id']).map other.nameOf)
    (hid : g.nameOf id = other.nameOf id') :
    (g.sortByName (g.release id pending).2).map g.nameOf =
      (other.sortByName (other.release id' pending').2).map other.nameOf := by
  have hbelow : forall k, k ∈ order ++ [id] -> k < g.size := by
    intro k hk
    apply hprogress.below
    exact List.append_subset.mpr ⟨List.subset_append_left _ _, by simp⟩ hk
  have hbelow' : forall k, k ∈ order' ++ [id'] -> k < other.size := by
    intro k hk
    apply hprogress'.below
    exact List.append_subset.mpr ⟨List.subset_append_left _ _, by simp⟩ hk
  apply h.sortByName_names (g.nodup_release _ _) (other.nodup_release _ _)
  · exact fun k hk => (mem_release.mp hk).left
  · exact fun k hk => (mem_release.mp hk).left
  · intro name
    rw [h.left.mem_release hcounts hprogress.not_taken hbelow,
      h.right.mem_release hcounts' hprogress'.not_taken hbelow', h.names, horder, hid]
    simp only [h.imports]

end

theorem Alike.takeNext (h : g.Alike other) {s t : Sorting} (hstep : g.InStep other s t) :
    g.InStep other (g.takeNext s) (other.takeNext t) := by
  have hleft := hstep.left.takeNext h.left.nodup_importsOf
  have hright := hstep.right.takeNext h.right.nodup_importsOf
  have hqueue := hstep.queue
  cases hs : s.queue with
  | nil =>
      rw [hs, List.map_nil, eq_comm, List.map_eq_nil_iff] at hqueue
      rw [takeNext_nil hs, takeNext_nil hqueue]
      exact hstep
  | cons id queue =>
      cases ht : t.queue with
      | nil =>
          rw [hs, ht] at hqueue
          cases hqueue
      | cons id' queue' =>
          rw [hs, ht] at hqueue
          rcases List.cons.inj hqueue with ⟨hid, hrest⟩
          have hprogress := hstep.left.left
          have hprogress' := hstep.right.left
          rw [hs] at hprogress
          rw [ht] at hprogress'
          have horder : (s.order ++ [id]).map g.nameOf = (t.order ++ [id']).map other.nameOf := by
            rw [List.map_append, List.map_append, hstep.order, List.map_singleton,
              List.map_singleton, hid]
          have hreleased := h.released_names hprogress hprogress' hstep.left.right
            hstep.right.right horder hid
          rw [takeNext_cons hs] at hleft ⊢
          rw [takeNext_cons ht] at hright ⊢
          refine ⟨hleft, hright, horder, ?_⟩
          rw [List.map_append, List.map_append, hrest, hreleased]

/-- Runs that are in step stay so. -/
theorem Alike.takeMany (h : g.Alike other) {s t : Sorting} (hstep : g.InStep other s t)
    (rounds : Nat) : g.InStep other (g.takeMany rounds s) (other.takeMany rounds t) := by
  induction rounds generalizing s t with
  | zero => exact hstep
  | succ rounds ih => exact ih (h.takeNext hstep)

theorem Alike.sorting_names (h : g.Alike other) :
    g.sorting.order.map g.nameOf = other.sorting.order.map other.nameOf := by
  unfold sorting
  rw [h.size_eq]
  exact (h.takeMany h.start other.size).order

theorem Alike.order_ok (h : g.Alike other) {order : List Nat} (hok : g.order = .ok order) :
    exists order', other.order = .ok order' ∧
      order'.map other.nameOf = order.map g.nameOf := by
  rcases order_eq_ok.mp hok with ⟨hlen, rfl⟩
  have hnames := h.sorting_names
  have hlen' : other.sorting.order.length = other.size := by
    rw [<- h.size_eq, <- hlen]
    have hlengths := congrArg List.length hnames
    rw [List.length_map, List.length_map] at hlengths
    exact hlengths.symm
  exact ⟨_, order_eq_ok.mpr ⟨hlen', rfl⟩, hnames.symm⟩

/-- However two graphs were built, with the same names and the same imports between names
they both have an order or neither has, and the orders list the same names. -/
theorem order_ignores_construction (hg : g.Built) (hother : other.Built)
    (hnames : forall name, name ∈ g.names ↔ name ∈ other.names)
    (himports : forall importer imported,
      g.ImportsNamed importer imported ↔ other.ImportsNamed importer imported) :
    ((exists order, g.order = .ok order) ↔ exists order, other.order = .ok order) ∧
    forall order order', g.order = .ok order -> other.order = .ok order' ->
      order.map g.nameOf = order'.map other.nameOf := by
  have halike : g.Alike other := ⟨hg, hother, hnames, himports⟩
  constructor
  · constructor
    · intro hok
      rcases hok with ⟨order, hok⟩
      rcases halike.order_ok hok with ⟨order', hok', _⟩
      exact ⟨order', hok'⟩
    · intro hok
      rcases hok with ⟨order, hok⟩
      rcases halike.symm.order_ok hok with ⟨order', hok', _⟩
      exact ⟨order', hok'⟩
  · intro order order' hok hok'
    rcases halike.order_ok hok with ⟨found, hfound, hsame⟩
    cases hfound.symm.trans hok'
    exact hsame.symm

def namedImports (g : ImportGraph) : List (String × String) :=
  (List.range g.size).flatMap fun id =>
    (g.importsOf id).map fun imported => (g.nameOf id, g.nameOf imported)

theorem mem_namedImports {importer imported : String} :
    (importer, imported) ∈ g.namedImports ↔ g.ImportsNamed importer imported := by
  unfold namedImports
  rw [List.mem_flatMap]
  constructor
  · intro h
    rcases h with ⟨id, _, h⟩
    rcases List.mem_map.mp h with ⟨j, hj, hnames⟩
    exact ⟨id, j, hj, (Prod.mk.inj hnames).left, (Prod.mk.inj hnames).right⟩
  · intro h
    rcases h with ⟨i, j, himports, rfl, rfl⟩
    exact ⟨i, List.mem_range.mpr himports.lt_size, List.mem_map.mpr ⟨j, himports, rfl⟩⟩

/-- `App` imports `Net` and `Log`, which import `Base`. The modules and the imports are added
in different orders, so that the positions in the two orders are not the same, and to the
first graph one of the imports is added again. -/
theorem diamond_order_ignores_construction :
    let g := ofLists ["Net", "App", "Log", "Base"] [(1, 0), (1, 2), (0, 3), (1, 0), (2, 3)]
    let other := ofLists ["App", "Base", "Log", "Net"] [(2, 1), (0, 2), (3, 1), (0, 3)]
    g.order = .ok [3, 2, 0, 1] ∧ other.order = .ok [1, 2, 3, 0] ∧
      [3, 2, 0, 1].map g.nameOf = [1, 2, 3, 0].map other.nameOf := by
  intro g other
  have hg : g.Built := .ofLists (by decide)
  have hother : other.Built := .ofLists (by decide)
  have hnames : g.names.Perm other.names := by decide +kernel
  have himports : g.namedImports.Perm other.namedImports := by decide +kernel
  have hok : g.order = .ok [3, 2, 0, 1] := by decide +kernel
  have hok' : other.order = .ok [1, 2, 3, 0] := by decide +kernel
  have hsame := order_ignores_construction hg hother (fun _ => hnames.mem_iff)
    (fun importer imported => by
      rw [<- mem_namedImports, <- mem_namedImports]
      exact himports.mem_iff)
  exact ⟨hok, hok', hsame.right _ _ hok hok'⟩

end ImportGraph
end TypeChecker
