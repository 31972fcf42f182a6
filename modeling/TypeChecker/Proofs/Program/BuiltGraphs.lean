import TypeChecker.Program.ImportGraph
import Mathlib.Data.List.Nodup

/-!
# Built graphs

A graph is built by adding modules and imports between them. Then every module has a name
of its own, only modules of the graph are imported, and no module lists an import twice.
-/

namespace TypeChecker
namespace ImportGraph

variable {g : ImportGraph} {name : String} {a b i j : Nat}

def Imports (g : ImportGraph) (importer imported : Nat) : Prop :=
  imported ∈ g.importsOf importer

def Closed (g : ImportGraph) : Prop :=
  forall importer imported, g.Imports importer imported -> imported < g.size

theorem Imports.lt_size {importer imported : Nat} (h : g.Imports importer imported) :
    importer < g.size := by
  unfold Imports importsOf at h
  cases hnode : g.nodes[importer]? with
  | none => simp [hnode] at h
  | some node => exact (List.getElem?_eq_some_iff.mp hnode).choose

/-!
## Names
-/

def names (g : ImportGraph) : List String := g.nodes.map ImportNode.name

theorem length_names : g.names.length = g.size := List.length_map _

theorem nameOf_eq (h : g.names[i]? = some name) : g.nameOf i = name := by
  unfold names at h
  rw [List.getElem?_map] at h
  rw [nameOf, h, Option.getD_some]

theorem find?_isSome : (g.find? name).isSome = true ↔ name ∈ g.names := by
  simp [find?, names]

theorem find?_eq_some (hdistinct : g.names.Nodup) :
    g.find? name = some i ↔ g.names[i]? = some name := by
  unfold find? names
  constructor
  · intro h
    rcases List.findIdx?_eq_some_iff_getElem.mp h with ⟨hlt, hname, _⟩
    rw [List.getElem?_map, List.getElem?_eq_getElem hlt, Option.map_some, beq_iff_eq.mp hname]
  · intro h
    rw [List.getElem?_map] at h
    rcases Option.map_eq_some_iff.mp h with ⟨node, hnode, hname⟩
    rcases List.getElem?_eq_some_iff.mp hnode with ⟨hlt, hat⟩
    refine List.findIdx?_eq_some_iff_getElem.mpr ⟨hlt, by simp [hat, hname], ?_⟩
    intro earlier hearlier hsame
    have hfirst : g.names[earlier]? = g.names[i]? := by
      unfold names
      rw [List.getElem?_map, List.getElem?_map, List.getElem?_eq_getElem (by omega), hnode,
        Option.map_some, Option.map_some, beq_iff_eq.mp hsame, hname]
    have hearlierLt : earlier < g.names.length := by
      rw [length_names]
      exact Nat.lt_trans hearlier hlt
    have hequal := (List.getElem?_inj hearlierLt hdistinct).mp hfirst
    omega

theorem names_addImport : (g.addImport a b).names = g.names := by
  unfold addImport names
  apply List.ext_getElem?
  intro k
  rw [List.getElem?_map, List.getElem?_map, List.getElem?_modify]
  cases g.nodes[k]? with
  | none => rfl
  | some node =>
      simp only [Option.map_eq_map, Option.map_some]
      split
      · split <;> rfl
      · rfl

/-!
## Building
-/

/-- A graph that comes about by adding modules, and imports between modules of the graph. -/
inductive Built : ImportGraph -> Prop where
  | empty : Built empty
  | addModule {g : ImportGraph} (name : String) : Built g -> Built (g.addModule name).1
  | addImport {g : ImportGraph} {importer imported : Nat} : Built g -> importer < g.size ->
      imported < g.size -> Built (g.addImport importer imported)

theorem size_addImport (g : ImportGraph) (importer imported : Nat) :
    (g.addImport importer imported).size = g.size :=
  List.length_modify _ _ _

theorem importsOf_addModule : (g.addModule name).1.importsOf i = g.importsOf i := by
  unfold addModule
  split
  · rfl
  · unfold importsOf
    by_cases hold : i < g.nodes.length
    · rw [List.getElem?_append_left hold]
    · have hold := Nat.le_of_not_lt hold
      rw [List.getElem?_append_right hold, List.getElem?_eq_none hold]
      cases i - g.nodes.length <;> simp

theorem importsOf_addImport (ha : a < g.size) :
    (g.addImport a b).importsOf i =
      if i = a ∧ b ∉ g.importsOf a then g.importsOf a ++ [b] else g.importsOf i := by
  have hnode : exists node, g.nodes[a]? = some node := ⟨_, List.getElem?_eq_getElem ha⟩
  rcases hnode with ⟨node, hnode⟩
  unfold importsOf addImport
  dsimp only
  rw [List.getElem?_modify]
  by_cases hi : a = i
  · subst hi
    by_cases hold : b ∈ node.imports <;> simp [hnode, hold]
  · simp [hi, Ne.symm hi]

theorem imports_addImport (ha : a < g.size) :
    (g.addImport a b).Imports i j ↔ g.Imports i j ∨ i = a ∧ j = b := by
  unfold Imports
  rw [importsOf_addImport ha]
  split
  · rename_i hnew
    rw [hnew.left, List.mem_append, List.mem_singleton, and_iff_right rfl]
  · rename_i hold
    refine ⟨Or.inl, ?_⟩
    rintro (hmem | ⟨rfl, rfl⟩)
    · exact hmem
    · by_contra hmissing
      exact hold ⟨rfl, hmissing⟩

theorem size_le_addModule (g : ImportGraph) (name : String) :
    g.size ≤ (g.addModule name).1.size := by
  unfold addModule
  split
  · exact Nat.le_refl _
  · simp [size]

theorem Built.distinct (h : g.Built) : g.names.Nodup := by
  induction h with
  | empty => exact List.nodup_nil
  | addImport _ _ _ ih =>
      rw [names_addImport]
      exact ih
  | @addModule g name _ ih =>
      unfold ImportGraph.addModule
      split
      · exact ih
      · rename_i hnone
        have hnew : name ∉ g.names := by
          rw [<- find?_isSome, hnone]
          exact Bool.false_ne_true
        show (List.map ImportNode.name (g.nodes ++ [{ name := name }])).Nodup
        rw [List.map_append]
        exact (List.nodup_cons.mpr ⟨hnew, ih⟩).perm (List.perm_append_singleton _ _).symm

theorem Built.closed (h : g.Built) : g.Closed := by
  induction h with
  | empty =>
      intro importer imported himports
      cases himports
  | @addModule g name _ ih =>
      intro importer imported himports
      unfold Imports at himports
      rw [importsOf_addModule] at himports
      exact Nat.lt_of_lt_of_le (ih importer imported himports) (g.size_le_addModule name)
  | @addImport g source target _ hsource htarget ih =>
      intro importer imported himports
      rw [size_addImport]
      rcases (imports_addImport hsource).mp himports with hold | hnew
      · exact ih importer imported hold
      · rw [hnew.right]
        exact htarget

theorem Built.nodup_importsOf (h : g.Built) (id : Nat) : (g.importsOf id).Nodup := by
  induction h with
  | empty => exact List.nodup_nil
  | addModule name _ ih =>
      rw [importsOf_addModule]
      exact ih
  | @addImport g source target _ hsource _ ih =>
      rw [importsOf_addImport hsource]
      split
      · rename_i hnew
        rw [<- hnew.left]
        rw [<- hnew.left] at hnew
        exact (List.nodup_cons.mpr ⟨hnew.right, ih⟩).perm (List.perm_append_singleton _ _).symm
      · exact ih

theorem nameOf_inj (hdistinct : g.names.Nodup) {i j : Nat} (hi : i < g.size) (hj : j < g.size)
    (h : g.nameOf i = g.nameOf j) : i = j := by
  rw [<- length_names] at hi hj
  have hat := List.getElem?_eq_getElem hi
  have hbt := List.getElem?_eq_getElem hj
  rw [nameOf_eq hat, nameOf_eq hbt] at h
  exact (List.getElem?_inj hi hdistinct).mp (by rw [hat, hbt, h])

def ImportsNamed (g : ImportGraph) (importer imported : String) : Prop :=
  exists i j, g.Imports i j ∧ g.nameOf i = importer ∧ g.nameOf j = imported

end ImportGraph
end TypeChecker
