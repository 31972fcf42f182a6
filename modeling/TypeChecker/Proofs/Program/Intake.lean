import TypeChecker.Program.Check
import TypeChecker.Proofs.Program.ImportOrder

/-!
# Accepted modules and their imports

Of the modules of a program those other than the core module take part, the first of
each name. The graph that is built for them holds just their imports of each other.
Whatever is refused on the way is reported, under the module it is about.
-/

namespace TypeChecker

/-!
## The import relation of a program
-/

namespace Program

def Accepts (modules : List Source.Module) (m : Source.Module) : Prop :=
  m.name ≠ coreModule ∧ modules.find? (fun other => other.name == m.name) = some m

/-- A module that takes part imports another one, both given by their names. -/
def Imports (modules : List Source.Module) (importer imported : String) : Prop :=
  exists a b, Accepts modules a ∧ Accepts modules b ∧ a.name = importer ∧ b.name = imported ∧
    exists i, i ∈ a.imports ∧ i.name = b.name

def HasCircle (modules : List Source.Module) : Prop :=
  exists name, Relation.TransGen (Imports modules) name name

variable {modules : List Source.Module} {m : Source.Module}

theorem Accepts.mem (h : Accepts modules m) : m ∈ modules :=
  List.mem_of_find?_eq_some h.right

theorem exists_accepts {name : String} (hname : name ≠ coreModule)
    (hm : m ∈ modules) (hsame : m.name = name) :
    exists first, Accepts modules first ∧ first.name = name := by
  cases hfind : modules.find? fun other => other.name == name with
  | none => exact absurd (beq_iff_eq.mpr hsame) (List.find?_eq_none.mp hfind m hm)
  | some first =>
      have hfirst : first.name = name := by simpa using List.find?_some hfind
      exact ⟨first, ⟨hfirst ▸ hname, by rw [hfirst, hfind]⟩, hfirst⟩

theorem accepts_append_singleton {x : Source.Module} :
    Accepts (modules ++ [x]) m ↔
      Accepts modules m ∨
        m = x ∧ x.name ≠ coreModule ∧ forall y, y ∈ modules -> y.name ≠ x.name := by
  unfold Accepts
  rw [List.find?_append]
  cases hfind : modules.find? fun other => other.name == m.name with
  | some first =>
      rw [Option.some_or]
      refine ⟨Or.inl, ?_⟩
      rintro (hold | ⟨rfl, _, hnew⟩)
      · exact hold
      · have hfirst : first.name = m.name := by simpa using List.find?_some hfind
        exact absurd hfirst (hnew first (List.mem_of_find?_eq_some hfind))
  | none =>
      rw [Option.none_or, List.find?_singleton]
      have hnew : forall y, y ∈ modules -> y.name ≠ m.name := by simpa using hfind
      constructor
      · rintro ⟨hcore, hfound⟩
        split at hfound
        · cases hfound
          exact Or.inr ⟨rfl, hcore, hnew⟩
        · cases hfound
      · rintro (⟨_, hnone⟩ | ⟨rfl, hcore, _⟩)
        · cases hnone
        · exact ⟨hcore, by simp⟩

end Program

/-!
## Building the graph
-/

namespace Intake

open Program

variable {p : Intake} {taken : List Source.Module}

/-- What has come of the modules taken so far, before their imports are looked at. -/
structure Takes (taken : List Source.Module) (p : Intake) : Prop where
  built : p.graph.Built
  nodes : p.graph.nodes = p.accepted.map fun m => { name := m.name }
  mem : forall m, m ∈ p.accepted ↔ Accepts taken m
  distinct : (p.accepted.map Source.Module.name).Nodup
  faults : forall item, item ∈ p.problems -> item.2 = .program (.repeatedModule item.1)
  clean : p.problems = [] -> p.accepted = taken

theorem Takes.names (h : p.Takes taken) : p.graph.names = p.accepted.map Source.Module.name := by
  rw [ImportGraph.names, h.nodes, List.map_map]
  rfl

theorem Takes.step (h : p.Takes taken) (x : Source.Module) :
    (p.accept x).Takes (taken ++ [x]) := by
  have hknown : (p.graph.find? x.name).isSome = true ↔
      x.name ≠ coreModule ∧ exists y, y ∈ taken ∧ y.name = x.name := by
    rw [ImportGraph.find?_isSome, h.names, List.mem_map]
    constructor
    · rintro ⟨y, hy, hsame⟩
      have haccepts := (h.mem y).mp hy
      exact ⟨hsame ▸ haccepts.left, y, haccepts.mem, hsame⟩
    · rintro ⟨hcore, y, hy, hsame⟩
      rcases exists_accepts hcore hy hsame with ⟨first, hfirst, hname⟩
      exact ⟨first, (h.mem first).mpr hfirst, hname⟩
  unfold accept
  split
  · rename_i hrefused
    have hold : forall m, Accepts (taken ++ [x]) m ↔ Accepts taken m := by
      intro m
      rw [accepts_append_singleton]
      refine ⟨?_, Or.inl⟩
      rintro (hm | ⟨rfl, hcore, hnew⟩)
      · exact hm
      · rcases (Bool.or_eq_true _ _).mp hrefused with hrefused | hrefused
        · exact absurd (of_decide_eq_true hrefused) hcore
        · rcases hknown.mp hrefused with ⟨_, y, hy, hsame⟩
          exact absurd hsame (hnew y hy)
    refine ⟨h.built, h.nodes, fun m => (h.mem m).trans (hold m).symm, h.distinct, ?_, ?_⟩
    · intro item hitem
      rcases List.mem_append.mp hitem with hitem | hitem
      · exact h.faults item hitem
      · rw [List.mem_singleton.mp hitem]
    · intro hnone
      simp [report] at hnone
  · rename_i hfresh
    simp only [Bool.or_eq_true, decide_eq_true_eq, not_or] at hfresh
    have hnew : forall y, y ∈ taken -> y.name ≠ x.name :=
      fun y hy hsame => hfresh.right (hknown.mpr ⟨hfresh.left, y, hy, hsame⟩)
    have hnone : p.graph.find? x.name = none := by simpa using hfresh.right
    refine ⟨.addModule x.name h.built, ?_, ?_, ?_, h.faults, ?_⟩
    · simp [ImportGraph.addModule, hnone, h.nodes]
    · intro m
      rw [List.mem_append, List.mem_singleton, accepts_append_singleton, h.mem,
        and_iff_left ⟨hfresh.left, hnew⟩]
    · rw [List.map_append, List.nodup_append]
      refine ⟨h.distinct, by simp, ?_⟩
      rintro name hname other hother rfl
      rcases List.mem_map.mp hname with ⟨y, hy, hsame⟩
      have hlast : name = x.name := by simpa using hother
      exact hnew y ((h.mem y).mp hy).mem (hsame.trans hlast)
    · intro hclean
      exact congrArg (· ++ [x]) (h.clean hclean)

theorem takes_accept (modules : List Source.Module) :
    (modules.foldl accept {}).Takes modules := by
  have hrun : forall (rest taken : List Source.Module) (p : Intake), p.Takes taken ->
      (rest.foldl accept p).Takes (taken ++ rest) := by
    intro rest
    induction rest with
    | nil =>
        intro taken p h
        rwa [List.append_nil]
    | cons x rest ih =>
        intro taken p h
        have hlater := ih (taken ++ [x]) (p.accept x) (h.step x)
        rwa [List.append_assoc] at hlater
  refine hrun modules [] {} ⟨.empty, rfl, ?_, by simp, by simp, fun _ => rfl⟩
  intro m
  simp [Accepts]

/-!
### Imports
-/

def links (accepted : List Source.Module) : List (Nat × String × Source.Ident) :=
  accepted.zipIdx.flatMap fun item =>
    item.1.imports.map fun imported => (item.2, item.1.name, imported)

theorem mem_links {accepted : List Source.Module} {id : Nat} {name : String}
    {imported : Source.Ident} :
    (id, name, imported) ∈ links accepted ↔
      exists m, accepted[id]? = some m ∧ m.name = name ∧ imported ∈ m.imports := by
  unfold links
  rw [List.mem_flatMap]
  constructor
  · rintro ⟨⟨m, k⟩, hitem, hmem⟩
    rcases List.mem_map.mp hmem with ⟨written, hwritten, heq⟩
    cases heq
    exact ⟨m, List.mem_zipIdx_iff_getElem?.mp hitem, rfl, hwritten⟩
  · rintro ⟨m, hat, rfl, himported⟩
    exact ⟨(m, id), List.mem_zipIdx_iff_getElem?.mpr hat, List.mem_map.mpr ⟨_, himported, rfl⟩⟩

theorem ofModules_eq (modules : List Source.Module) :
    ofModules modules =
      (links (modules.foldl accept {}).accepted).foldl
        (fun p item => link item.1 item.2.1 p item.2.2) (modules.foldl accept {}) := by
  unfold ofModules links
  rw [List.foldl_flatMap]
  simp only [List.foldl_map]

/-- What has come of the imports in `done`, starting from `base`. -/
structure Links (base : Intake) (done : List (Nat × String × Source.Ident)) (p : Intake) :
    Prop where
  accepted : p.accepted = base.accepted
  built : p.graph.Built
  names : p.graph.names = base.graph.names
  imports : forall i j, p.graph.Imports i j ↔ base.graph.Imports i j ∨
    exists item, item ∈ done ∧ item.1 = i ∧ item.2.2.name ≠ coreModule ∧
      base.graph.names[j]? = some item.2.2.name
  kept : base.problems ⊆ p.problems
  faults : forall item, item ∈ p.problems -> item ∈ base.problems ∨
    exists name importer span, item.2 = .program (.unknownImport name importer span)
  reported : forall item, item ∈ done -> item.2.2.name ≠ coreModule ->
    item.2.2.name ∈ base.graph.names ∨ exists problem, problem ∈ p.problems ∧
      problem.1 = item.2.1

theorem exists_link_concat {base : Intake} {done : List (Nat × String × Source.Ident)}
    {id : Nat} {name : String} {imported : Source.Ident} {i j : Nat} :
    (exists item, item ∈ done ++ [(id, name, imported)] ∧ item.1 = i ∧
        item.2.2.name ≠ coreModule ∧ base.graph.names[j]? = some item.2.2.name) ↔
      (exists item, item ∈ done ∧ item.1 = i ∧ item.2.2.name ≠ coreModule ∧
        base.graph.names[j]? = some item.2.2.name) ∨
        id = i ∧ imported.name ≠ coreModule ∧ base.graph.names[j]? = some imported.name := by
  simp only [List.mem_append, List.mem_singleton, or_and_right, exists_or, exists_eq_left]

theorem Links.find?_eq_some {base : Intake} {done : List (Nat × String × Source.Ident)}
    (hdistinct : base.graph.names.Nodup) (h : base.Links done p) {name : String} {j : Nat} :
    p.graph.find? name = some j ↔ base.graph.names[j]? = some name := by
  rw [ImportGraph.find?_eq_some (h.names ▸ hdistinct), h.names]

theorem Links.step {base : Intake} {done : List (Nat × String × Source.Ident)}
    (hdistinct : base.graph.names.Nodup) (h : base.Links done p) {id : Nat}
    (hid : id < base.graph.size) (name : String) (imported : Source.Ident) :
    base.Links (done ++ [(id, name, imported)]) (link id name p imported) := by
  have hcases : forall {item : Nat × String × Source.Ident},
      item ∈ done ++ [(id, name, imported)] -> item ∈ done ∨ item = (id, name, imported) := by
    intro item hitem
    simpa using hitem
  unfold link
  split
  · rename_i hcore
    refine ⟨h.accepted, h.built, h.names, ?_, h.kept, h.faults, ?_⟩
    · intro i j
      have hnot : ¬ (id = i ∧ imported.name ≠ coreModule ∧
          base.graph.names[j]? = some imported.name) := fun hlast => hlast.right.left hcore
      rw [h.imports, exists_link_concat, or_iff_left hnot]
    · intro item hitem hname
      rcases hcases hitem with hitem | rfl
      · exact h.reported item hitem hname
      · exact absurd hcore hname
  · rename_i hcore
    split
    · rename_i other hother
      have hat := (h.find?_eq_some hdistinct).mp hother
      have hsize : id < p.graph.size := by
        rw [<- ImportGraph.length_names, h.names, ImportGraph.length_names]
        exact hid
      have hbelow : other < p.graph.size := by
        rw [<- ImportGraph.length_names, h.names]
        exact (List.getElem?_eq_some_iff.mp hat).choose
      refine ⟨h.accepted, .addImport h.built hsize hbelow,
        ImportGraph.names_addImport.trans h.names, ?_, h.kept, h.faults, ?_⟩
      · intro i j
        have hplace : j = other ↔ base.graph.names[j]? = some imported.name := by
          rw [<- h.find?_eq_some hdistinct, hother, Option.some.injEq, eq_comm]
        rw [ImportGraph.imports_addImport hsize, h.imports, exists_link_concat, hplace, or_assoc,
          and_iff_right hcore, eq_comm]
      · intro item hitem hname
        rcases hcases hitem with hitem | rfl
        · exact h.reported item hitem hname
        · exact Or.inl (List.mem_of_getElem? hat)
    · rename_i hmissing
      have hnowhere : forall j : Nat, base.graph.names[j]? ≠ some imported.name := by
        intro j hj
        rw [<- h.find?_eq_some hdistinct, hmissing] at hj
        cases hj
      refine ⟨h.accepted, h.built, h.names, ?_, ?_, ?_, ?_⟩
      · intro i j
        show p.graph.Imports i j ↔ _
        have hnot : ¬ (id = i ∧ imported.name ≠ coreModule ∧
            base.graph.names[j]? = some imported.name) :=
          fun hlast => hnowhere j hlast.right.right
        rw [h.imports, exists_link_concat, or_iff_left hnot]
      · exact List.Subset.trans h.kept (List.subset_append_left _ _)
      · intro item hitem
        rcases List.mem_append.mp hitem with hitem | hitem
        · exact h.faults item hitem
        · rw [List.mem_singleton.mp hitem]
          exact Or.inr ⟨_, _, _, rfl⟩
      · intro item hitem hname
        rcases hcases hitem with hitem | rfl
        · rcases h.reported item hitem hname with hin | ⟨problem, hproblem, hmodule⟩
          · exact Or.inl hin
          · exact Or.inr ⟨problem, List.mem_append_left _ hproblem, hmodule⟩
        · exact Or.inr ⟨_, List.mem_append_right _ (List.mem_singleton.mpr rfl), rfl⟩

theorem Links.run {base : Intake} (hbuilt : base.graph.Built)
    (rest : List (Nat × String × Source.Ident))
    (hrest : forall item, item ∈ rest -> item.1 < base.graph.size) :
    base.Links rest (rest.foldl (fun p item => link item.1 item.2.1 p item.2.2) base) := by
  have hrun : forall (rest done : List (Nat × String × Source.Ident)) (p : Intake),
      (forall item, item ∈ rest -> item.1 < base.graph.size) -> base.Links done p ->
        base.Links (done ++ rest)
          (rest.foldl (fun p item => link item.1 item.2.1 p item.2.2) p) := by
    intro rest
    induction rest with
    | nil =>
        intro done p _ h
        rwa [List.append_nil]
    | cons item rest ih =>
        intro done p hrest h
        have hstep := h.step hbuilt.distinct (hrest item List.mem_cons_self) item.2.1 item.2.2
        have hlater :=
          ih _ _ (fun other hother => hrest other (List.mem_cons_of_mem _ hother)) hstep
        rwa [List.append_assoc] at hlater
  have hstart : base.Links [] base :=
    ⟨rfl, hbuilt, rfl, by simp, List.Subset.refl _, fun item => Or.inl, by simp⟩
  exact hrun rest [] base hrest hstart

/-!
### The outcome
-/

/-- What is known of the accepted modules of a program and their graph. -/
structure Describes (modules : List Source.Module) (p : Intake) : Prop where
  built : p.graph.Built
  names : p.graph.names = p.accepted.map Source.Module.name
  distinct : (p.accepted.map Source.Module.name).Nodup
  mem : forall m, m ∈ p.accepted ↔ Accepts modules m
  imports : forall i j, p.graph.Imports i j ↔ exists a b, p.accepted[i]? = some a ∧
    p.accepted[j]? = some b ∧ exists written, written ∈ a.imports ∧ written.name = b.name
  reported : forall m, m ∈ p.accepted -> forall written, written ∈ m.imports ->
    written.name ≠ coreModule -> (exists other, other ∈ p.accepted ∧ other.name = written.name) ∨
      exists item, item ∈ p.problems ∧ item.1 = m.name
  faults : forall item, item ∈ p.problems -> (exists name, item.2 =
      .program (.repeatedModule name)) ∨
    exists name importer span, item.2 = .program (.unknownImport name importer span)
  clean : p.problems = [] -> p.accepted = modules

theorem describes_ofModules (modules : List Source.Module) :
    (ofModules modules).Describes modules := by
  have htakes := takes_accept modules
  rw [ofModules_eq]
  generalize modules.foldl accept {} = base at htakes ⊢
  have hnames := htakes.names
  have hsize : base.graph.size = base.accepted.length := by
    rw [<- ImportGraph.length_names, hnames, List.length_map]
  have hlinks := Links.run htakes.built (links base.accepted) (by
    rintro ⟨id, name, imported⟩ hitem
    rcases mem_links.mp hitem with ⟨m, hat, _⟩
    rw [hsize]
    exact (List.getElem?_eq_some_iff.mp hat).choose)
  generalize (links base.accepted).foldl _ base = p at hlinks ⊢
  have hnone : forall i j, ¬ base.graph.Imports i j := by
    intro i j himports
    unfold ImportGraph.Imports ImportGraph.importsOf at himports
    rw [htakes.nodes, List.getElem?_map] at himports
    cases hat : base.accepted[i]? <;> simp [hat] at himports
  constructor
  · exact hlinks.built
  · rw [hlinks.names, hnames, hlinks.accepted]
  · rw [hlinks.accepted]
    exact htakes.distinct
  · rw [hlinks.accepted]
    exact htakes.mem
  · intro i j
    rw [hlinks.imports, or_iff_right (hnone i j), hlinks.accepted]
    constructor
    · rintro ⟨⟨id, name, written⟩, hitem, rfl, _, hname⟩
      rcases mem_links.mp hitem with ⟨a, ha, _, hwritten⟩
      rw [hnames, List.getElem?_map] at hname
      rcases Option.map_eq_some_iff.mp hname with ⟨b, hb, hsame⟩
      exact ⟨a, b, ha, hb, written, hwritten, hsame.symm⟩
    · rintro ⟨a, b, ha, hb, written, hwritten, hsame⟩
      refine ⟨(i, a.name, written), mem_links.mpr ⟨a, ha, rfl, hwritten⟩, rfl, ?_, ?_⟩
      · rw [hsame]
        exact ((htakes.mem b).mp (List.mem_of_getElem? hb)).left
      · rw [hnames, List.getElem?_map, hb, Option.map_some, hsame]
  · intro m hm written hwritten hcore
    rw [hlinks.accepted] at hm ⊢
    rcases List.getElem?_of_mem hm with ⟨i, hi⟩
    have hitem := mem_links.mpr ⟨m, hi, rfl, hwritten⟩
    rcases hlinks.reported _ hitem hcore with hknown | hproblem
    · rw [hnames] at hknown
      exact Or.inl (List.mem_map.mp hknown)
    · exact Or.inr hproblem
  · intro item hitem
    rcases hlinks.faults item hitem with hbase | hunknown
    · exact Or.inl ⟨item.1, htakes.faults item hbase⟩
    · exact Or.inr hunknown
  · intro hclean
    rw [hlinks.accepted]
    exact htakes.clean (List.subset_nil.mp (hclean ▸ hlinks.kept))

namespace Describes

variable {modules : List Source.Module} {a b : Source.Module} {i j : Nat}

theorem size (h : p.Describes modules) : p.graph.size = p.accepted.length := by
  rw [<- ImportGraph.length_names, h.names, List.length_map]

theorem nameOf (h : p.Describes modules) (ha : p.accepted[i]? = some a) :
    p.graph.nameOf i = a.name := by
  apply ImportGraph.nameOf_eq
  rw [h.names, List.getElem?_map, ha, Option.map_some]

theorem eq_of_name_eq (h : p.Describes modules) (ha : p.accepted[i]? = some a)
    (hb : p.accepted[j]? = some b) (hsame : a.name = b.name) : i = j := by
  apply (List.getElem?_inj ?_ h.distinct).mp
  · rw [List.getElem?_map, List.getElem?_map, ha, hb, Option.map_some, Option.map_some, hsame]
  · rw [List.length_map]
    exact (List.getElem?_eq_some_iff.mp ha).choose

theorem imports_iff (h : p.Describes modules) (ha : p.accepted[i]? = some a)
    (hb : p.accepted[j]? = some b) :
    p.graph.Imports i j ↔ Program.Imports modules a.name b.name := by
  rw [h.imports]
  constructor
  · rintro ⟨a', b', ha', hb', written⟩
    cases ha.symm.trans ha'
    cases hb.symm.trans hb'
    exact ⟨a, b, (h.mem a).mp (List.mem_of_getElem? ha), (h.mem b).mp (List.mem_of_getElem? hb),
      rfl, rfl, written⟩
  · rintro ⟨a', b', haccepts, hbccepts, hname, hname', written⟩
    rcases List.getElem?_of_mem ((h.mem a').mpr haccepts) with ⟨i', hi'⟩
    rcases List.getElem?_of_mem ((h.mem b').mpr hbccepts) with ⟨j', hj'⟩
    cases h.eq_of_name_eq ha hi' hname.symm
    cases h.eq_of_name_eq hb hj' hname'.symm
    exact ⟨a', b', hi', hj', written⟩

theorem hasCircle_iff (h : p.Describes modules) :
    p.graph.HasCircle ↔ Program.HasCircle modules := by
  constructor
  · rintro ⟨id, hcircle⟩
    refine ⟨p.graph.nameOf id, hcircle.lift p.graph.nameOf ?_⟩
    intro i j himports
    rcases (h.imports i j).mp himports with ⟨a, b, ha, hb, _⟩
    show Program.Imports modules (p.graph.nameOf i) (p.graph.nameOf j)
    rw [h.nameOf ha, h.nameOf hb]
    exact (h.imports_iff ha hb).mp himports
  · rintro ⟨name, hcircle⟩
    refine ⟨p.graph.names.idxOf name, hcircle.lift p.graph.names.idxOf ?_⟩
    have hplace : forall {m : Source.Module}, Accepts modules m ->
        p.accepted[p.graph.names.idxOf m.name]? = some m := by
      intro m hm
      rcases List.getElem?_of_mem ((h.mem m).mpr hm) with ⟨i, hi⟩
      have hname : p.graph.names[i]? = some m.name := by
        rw [h.names, List.getElem?_map, hi, Option.map_some]
      rcases List.getElem?_eq_some_iff.mp hname with ⟨hlt, hat⟩
      have hidx : p.graph.names.idxOf m.name = i := by
        rw [<- hat]
        exact List.Nodup.idxOf_getElem (h.names ▸ h.distinct) i hlt
      rw [hidx, hi]
    rintro _ _ himports
    rcases himports with ⟨a, b, ha, hb, rfl, rfl, written⟩
    exact (h.imports_iff (hplace ha) (hplace hb)).mpr ⟨a, b, ha, hb, rfl, rfl, written⟩

theorem exists_accepted (h : p.Describes modules) (hi : i < p.graph.size) :
    exists a, p.accepted[i]? = some a := by
  rw [h.size] at hi
  exact ⟨_, List.getElem?_eq_getElem hi⟩

theorem nameOf_inj (h : p.Describes modules) (hi : i < p.graph.size) (hj : j < p.graph.size)
    (hsame : p.graph.nameOf i = p.graph.nameOf j) : i = j :=
  ImportGraph.nameOf_inj h.built.distinct hi hj hsame

theorem exists_import (h : p.Describes modules) (ha : p.accepted[i]? = some a) {name : String}
    (himports : Program.Imports modules a.name name) :
    exists j b, p.accepted[j]? = some b ∧ b.name = name ∧ p.graph.Imports i j := by
  have hb := himports
  rcases hb with ⟨_, b, _, hb, _, rfl, _⟩
  rcases List.getElem?_of_mem ((h.mem b).mpr hb) with ⟨j, hj⟩
  exact ⟨j, b, hj, rfl, (h.imports_iff ha hj).mpr himports⟩

/-- The modules handed over as the imports of a module are those it imports. -/
theorem mem_importsOf (h : p.Describes modules) (ha : p.accepted[i]? = some a) {name : String} :
    name ∈ (p.importsOf i).map Source.Module.name ↔ Program.Imports modules a.name name := by
  unfold Intake.importsOf
  simp only [List.mem_map, List.mem_filterMap]
  constructor
  · intro hmem
    rcases hmem with ⟨b, ⟨j, himports, hb⟩, rfl⟩
    exact (h.imports_iff ha hb).mp himports
  · intro himports
    rcases h.exists_import ha himports with ⟨j, b, hb, hname, hgraph⟩
    exact ⟨b, ⟨j, hgraph, hb⟩, hname⟩

end Describes

end Intake
end TypeChecker
