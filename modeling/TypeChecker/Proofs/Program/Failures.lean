import TypeChecker.Proofs.Program.Progress

/-!
# How failures propagate

A program whose imports run in a circle is refused as a whole. Otherwise every module that
takes part is checked, what is reported under a module keeps it and its importers from
having a result, and no problem with the declarations of a module goes unreported.
-/

namespace TypeChecker
namespace Program

variable {limits : Limits} {depth : Nat} {modules : List Source.Module} {m : Source.Module}

/-!
## Finished runs
-/

/-- A finished run over the modules of a program. -/
structure Completes (limits : Limits) (depth : Nat) (modules : List Source.Module) (s : Setting)
    (order : List Nat) (p : Progress) : Prop where
  setting : s.Describes modules
  registered : Registration.ofModules limits depth (Core.module :: modules) = some s.registration
  data : s.dataProblems = (DataTable.ofRegistry s.registration.registry).2
  imports : s.intake.graph.Progresses order []
  all : forall id, id ∈ order <-> id < s.intake.graph.size
  sound : p.Sound modules s
  names : p.order = order.map s.intake.graph.nameOf

namespace Completes

variable {s : Setting} {order : List Nat} {p : Progress} {name : String}

theorem mem_order (h : Completes limits depth modules s order p) :
    name ∈ p.order <-> exists m, Accepts modules m ∧ m.name = name := by
  rw [h.names, List.mem_map]
  constructor
  · intro hmem
    rcases hmem with ⟨id, hid, rfl⟩
    rcases h.setting.intake.exists_accepted ((h.all id).mp hid) with ⟨m, hm⟩
    exact ⟨m, (h.setting.intake.mem m).mp (List.mem_of_getElem? hm),
      (h.setting.intake.nameOf hm).symm⟩
  · intro haccepts
    rcases haccepts with ⟨m, hm, rfl⟩
    rcases List.getElem?_of_mem ((h.setting.intake.mem m).mpr hm) with ⟨id, hid⟩
    refine ⟨id, (h.all id).mpr ?_, h.setting.intake.nameOf hid⟩
    rw [h.setting.intake.size]
    exact (List.getElem?_eq_some_iff.mp hid).choose

theorem distinct (h : Completes limits depth modules s order p) : p.order.Nodup := by
  rw [h.names]
  have hdistinct : order.Nodup := by simpa using h.imports.distinct
  refine hdistinct.map_on ?_
  intro i hi j hj hsame
  exact h.setting.intake.nameOf_inj ((h.all i).mp hi) ((h.all j).mp hj) hsame

theorem later (h : Completes limits depth modules s order p) {before after : List String}
    (hsplit : p.order = before ++ name :: after) {other : String}
    (himport : Imports modules name other) : other ∈ before := by
  rw [h.names] at hsplit
  rcases List.map_eq_append_iff.mp hsplit with ⟨first, last, rfl, rfl, hlast⟩
  rcases List.map_eq_cons_iff.mp hlast with ⟨id, rest, rfl, rfl, _⟩
  have hid := (h.all id).mp (List.mem_append_right first List.mem_cons_self)
  rcases h.setting.intake.exists_accepted hid with ⟨a, ha⟩
  rw [h.setting.intake.nameOf ha] at himport
  exact (Progress.next_ready h.setting h.imports (fun k => (h.all k).mp) rfl ha).right other himport

theorem clean (h : Completes limits depth modules s order p)
    (hnone : s.intake.problems ++ p.problems = []) {m : Source.Module} (hm : m ∈ modules) :
    m.name ≠ coreModule ∧ s.declarationProblems m.name = [] := by
  rw [<- h.setting.intake.clean (List.append_eq_nil_iff.mp hnone).left] at hm
  have haccepts := (h.setting.intake.mem m).mp hm
  refine ⟨haccepts.left, ?_⟩
  refine h.sound.declared m.name (h.mem_order.mpr ⟨m, haccepts, rfl⟩) ?_
  intro hfailed
  rcases ((h.sound.failed m.name).mp hfailed).right with ⟨problem, hproblem⟩
  rw [hnone] at hproblem
  cases hproblem

/-- A declaration with a problem that is not reported is one of the core module. -/
theorem home_of_lost (h : Completes limits depth modules s order p)
    (hnone : s.intake.problems ++ p.problems = []) {module : String} {problem : Problem}
    (hhome : module ∈ (Core.module :: modules).map Source.Module.name)
    (hproblem : problem ∈ s.declarationProblems module) : module = coreModule := by
  rcases List.mem_cons.mp hhome with hcore | hother
  · exact hcore
  · rcases List.mem_map.mp hother with ⟨m, hm, rfl⟩
    rw [(h.clean hnone hm).right] at hproblem
    cases hproblem

theorem declared (h : Completes limits depth modules s order p)
    (hnone : s.intake.problems ++ p.problems = []) :
    (forall item, item ∈ s.registration.problems -> item.1 = coreModule) ∧
      (2 ≤ limits.maxCases -> s.registration.problems = []) ∧ s.dataProblems = [] := by
  have hfree : forall m, m ∈ modules -> m.name ≠ coreModule := fun m hm => (h.clean hnone hm).left
  have hcore : forall item, item ∈ s.registration.problems -> item.1 = coreModule := by
    intro item hitem
    have hhome := ((Registration.reports_of_mem h.registered hitem).home h.registered).left
    exact h.home_of_lost hnone hhome (Setting.mem_declarationProblems.mpr (Or.inl hitem))
  refine ⟨hcore, ?_, ?_⟩
  · intro hlimit
    apply List.eq_nil_iff_forall_not_mem.mpr
    intro item hitem
    exact Core.not_reported hfree h.registered hlimit hitem (hcore item hitem)
  · apply List.eq_nil_iff_forall_not_mem.mpr
    intro item hitem
    rcases item with ⟨name, error⟩
    have htags : DataTable.Tags s.registration.registry name := by
      rw [h.data] at hitem
      exact DataTable.tags_of_problem hitem
    rcases htags with ⟨d, hd, htag⟩
    have hhome := (Registration.builds_of_mem h.registered hd).home
    have hproblem := Setting.mem_declarationProblems.mpr (Or.inr ⟨name, error, hitem, rfl, rfl⟩)
    exact Core.untagged hfree h.registered (h.home_of_lost hnone hhome hproblem) ⟨d, hd, htag⟩

end Completes

/-!
## Verdicts
-/

theorem hasCircle_iff_order :
    HasCircle modules <-> (Intake.ofModules modules).graph.order.isOk = false := by
  have hintake := Intake.describes_ofModules modules
  rw [<- hintake.hasCircle_iff]
  cases horder : (Intake.ofModules modules).graph.order with
  | error path => exact iff_of_true (ImportGraph.order_error hintake.built horder) rfl
  | ok order =>
      exact iff_of_false (ImportGraph.order_ok hintake.built horder).right.right
        fun heq => by cases heq

instance : Decidable (HasCircle modules) := decidable_of_iff _ hasCircle_iff_order.symm

theorem check_circle (h : HasCircle modules) :
    exists path, check limits depth modules = some {
      problems := (Intake.ofModules modules).problems ++
        [(path.headD "", .program (.importCycle path))] } := by
  rw [hasCircle_iff_order] at h
  unfold check
  dsimp only
  cases horder : (Intake.ofModules modules).graph.order with
  | error path => exact ⟨path, rfl⟩
  | ok order =>
      rw [horder] at h
      cases h

theorem check_completes (h : ¬ HasCircle modules) {v : Verdict}
    (hv : check limits depth modules = some v) :
    exists s order p, Completes limits depth modules s order p ∧ v.order = p.order ∧
      v.modules = p.modules ∧ v.problems = s.intake.problems ++ p.problems := by
  rw [hasCircle_iff_order] at h
  unfold check at hv
  dsimp only at hv
  cases horder : (Intake.ofModules modules).graph.order with
  | error path =>
      rw [horder] at h
      exact absurd rfl h
  | ok order =>
      rw [horder] at hv
      rcases Option.bind_eq_some_iff.mp hv with ⟨registration, hregistered, hv⟩
      rcases Option.bind_eq_some_iff.mp hv with ⟨p, hrun, hv⟩
      cases hv
      rcases ImportGraph.order_ok (Intake.describes_ofModules modules).built horder with
        ⟨hprogress, hall, _⟩
      have hown : forall item, item ∈ registration.problems -> item.2.IsOwn := by
        intro item hitem fault hfault
        have hhome := (Registration.reports_of_mem hregistered hitem).home hregistered
        rcases hhome.right with ⟨error, herror⟩
        cases herror.symm.trans hfault
      have hs : Setting.Describes modules
          { intake := Intake.ofModules modules
            registration := registration
            dataProblems := (DataTable.ofRegistry registration.registry).2
            limits := limits
            depth := depth } := ⟨Intake.describes_ofModules modules, hown⟩
      have hsound := Progress.Sound.run hs hprogress (fun id => (hall id).mp) hrun
      exact ⟨_, order, p, ⟨hs, hregistered, rfl, hprogress, hall, hsound.left, hsound.right⟩, rfl,
        rfl, rfl⟩

/-- How failures show in the verdict on a program whose imports run in no circle. -/
structure Propagated (modules : List Source.Module) (v : Verdict) : Prop where
  -- the order lists what takes part, once, and each module after those it imports
  distinct : v.order.Nodup
  complete : forall name, name ∈ v.order <-> exists m, Accepts modules m ∧ m.name = name
  later : forall before name after, v.order = before ++ name :: after ->
    forall other, Imports modules name other -> other ∈ before
  -- a module has a result if nothing is reported under it, and then all it imports have one
  checked : forall name, Table.contains v.modules name = true <->
    name ∈ v.order ∧ ¬ Blames v.problems name
  imported : forall m, Accepts modules m -> Table.contains v.modules m.name = true ->
    forall written, written ∈ m.imports -> written.name ≠ coreModule ->
      Table.contains v.modules written.name = true
  -- a module is skipped because of an import under which something is reported
  dependency : forall name module other,
    (name, .program (.failedDependency module other)) ∈ v.problems ->
      module = name ∧ Imports modules name other ∧ Blames v.problems other

theorem Completes.propagated {s : Setting} {order : List Nat} {p : Progress} {v : Verdict}
    (h : Completes limits depth modules s order p) (horder : v.order = p.order)
    (hmodules : v.modules = p.modules)
    (hproblems : v.problems = s.intake.problems ++ p.problems) : Propagated modules v := by
  have hfailed : forall name, name ∈ p.failed <-> name ∈ p.order ∧ Blames v.problems name := by
    rw [hproblems]
    exact h.sound.failed
  constructor
  · rw [horder]
    exact h.distinct
  · intro name
    rw [horder]
    exact h.mem_order
  · intro before name after hsplit other himport
    rw [horder] at hsplit
    exact h.later hsplit himport
  · intro name
    rw [horder, hmodules, h.sound.checked, hfailed]
    exact and_congr_right fun hmem => not_congr (and_iff_right hmem)
  · intro m hm hchecked written hwritten hcore
    rw [hmodules, h.sound.checked] at hchecked ⊢
    have hin := (h.setting.intake.mem m).mpr hm
    rcases h.setting.intake.reported m hin written hwritten hcore with ⟨b, hb, hname⟩ | hreported
    · have himport : Imports modules m.name written.name :=
        ⟨m, b, hm, (h.setting.intake.mem b).mp hb, rfl, hname, written, hwritten, hname.symm⟩
      exact h.sound.imported m.name hchecked.left hchecked.right written.name himport
    · rcases hreported with ⟨⟨_, problem⟩, hitem, rfl⟩
      have hblames : Blames v.problems m.name := by
        rw [hproblems]
        exact ⟨problem, List.mem_append_left _ hitem⟩
      exact absurd ((hfailed m.name).mpr ⟨hchecked.left, hblames⟩) hchecked.right
  · intro name module other hitem
    rw [hproblems] at hitem
    rcases List.mem_append.mp hitem with hintake | hrun
    · rcases h.setting.intake.faults _ hintake with ⟨_, heq⟩ | ⟨_, _, _, heq⟩ <;> cases heq
    · rcases h.sound.dependency name module other hrun with ⟨hmodule, himport, hother⟩
      exact ⟨hmodule, himport, ((hfailed other).mp hother).right⟩

end Program

def Problem.isImportCycle : Problem -> Bool
  | .program (.importCycle _) => true
  | _ => false

theorem Intake.Describes.not_isImportCycle {modules : List Source.Module} {p : Intake}
    (h : p.Describes modules) {item : String × Problem} (hitem : item ∈ p.problems) :
    item.2.isImportCycle = false := by
  rcases h.faults item hitem with ⟨_, heq⟩ | ⟨_, _, _, heq⟩ <;> rw [heq] <;> rfl

/-- Imports in a circle are reported once and end the check. Otherwise failures propagate
along the imports, and where nothing is reported no declaration of the program has a problem;
nor has one of the core module, if unions may have two cases. -/
theorem failures_propagate (limits : Limits) (depth : Nat) (modules : List Source.Module) :
    (Program.HasCircle modules -> exists v, Program.check limits depth modules = some v ∧
      v.modules = [] ∧ v.order = [] ∧
        v.problems.countP (fun item => item.2.isImportCycle) = 1) ∧
    (¬ Program.HasCircle modules -> forall v, Program.check limits depth modules = some v ->
      Program.Propagated modules v ∧
        exists r, Registration.ofModules limits depth (Core.module :: modules) = some r ∧
          (v.problems = [] ->
            (forall item, item ∈ r.problems -> item.1 = coreModule) ∧
              (2 ≤ limits.maxCases -> r.problems = []) ∧
                (DataTable.ofRegistry r.registry).2 = [])) := by
  constructor
  · intro hcircle
    rcases Program.check_circle hcircle with ⟨path, hcheck⟩
    refine ⟨_, hcheck, rfl, rfl, ?_⟩
    have hnone : (Intake.ofModules modules).problems.countP
        (fun item => item.2.isImportCycle) = 0 := by
      rw [List.countP_eq_zero]
      intro item hitem
      rw [(Intake.describes_ofModules modules).not_isImportCycle hitem]
      exact Bool.false_ne_true
    rw [List.countP_append, hnone]
    rfl
  · intro hnone v hv
    rcases Program.check_completes hnone hv with ⟨s, order, p, h, horder, hmodules, hproblems⟩
    refine ⟨h.propagated horder hmodules hproblems, s.registration, h.registered, ?_⟩
    intro hclean
    rw [<- h.data]
    exact h.declared (hproblems.symm.trans hclean)

def circularModules : List Source.Module :=
  [{ name := "Left", imports := [{ name := "Right" }] },
    { name := "Right", imports := [{ name := "Left" }] }]

def brokenModules : List Source.Module :=
  [{ name := "Main", imports := [{ name := "Lib" }] },
    { name := "Lib", imports := [{ name := "Nowhere" }] },
    { name := "Other" }]

def loneModule : List Source.Module := [{ name := "Main" }]

/-- A circle is reported once. A broken import keeps its importers from having a result, and
no other module. A module without declarations passes, and the core types with it. -/
theorem broken_import_propagates :
    (exists v, Program.check {} 4 circularModules = some v ∧ v.order = [] ∧
      v.problems.countP (fun item => item.2.isImportCycle) = 1) ∧
    (exists v, Program.check {} 4 brokenModules = some v ∧ v.order = ["Lib", "Other", "Main"] ∧
      v.modules.map Prod.fst = ["Other"] ∧ Program.Propagated brokenModules v) ∧
    exists r, Registration.ofModules {} 4 (Core.module :: loneModule) = some r ∧
      r.problems = [] := by
  refine ⟨?_, ?_, ?_⟩
  · rcases (failures_propagate {} 4 circularModules).left (by decide +kernel) with
      ⟨v, hv, _, horder, hcount⟩
    exact ⟨v, hv, horder, hcount⟩
  · have hcheck : (Program.check {} 4 brokenModules).map
        (fun v => (v.order, v.modules.map Prod.fst)) =
          some (["Lib", "Other", "Main"], ["Other"]) := by decide +kernel
    rcases Option.map_eq_some_iff.mp hcheck with ⟨v, hv, hshape⟩
    rcases Prod.mk.inj hshape with ⟨horder, hmodules⟩
    have hpropagated :=
      ((failures_propagate {} 4 brokenModules).right (by decide +kernel) v hv).left
    exact ⟨v, hv, horder, hmodules, hpropagated⟩
  · have hcheck : (Program.check {} 4 loneModule).map (fun v => v.problems.isEmpty) =
        some true := by decide +kernel
    rcases Option.map_eq_some_iff.mp hcheck with ⟨v, hv, hclean⟩
    rcases ((failures_propagate {} 4 loneModule).right (by decide +kernel) v hv).right with
      ⟨r, hr, hdeclared⟩
    exact ⟨r, hr, (hdeclared (List.isEmpty_iff.mp hclean)).right.left (by decide)⟩

/-- Where unions may have one case only, two of the core types are refused. Nothing of it is
reported, since the core module is not among those checked. -/
theorem core_problems_lost :
    ¬ Program.HasCircle loneModule ∧
      exists v r, Program.check { maxCases := 1 } 4 loneModule = some v ∧ v.problems = [] ∧
        Registration.ofModules { maxCases := 1 } 4 (Core.module :: loneModule) = some r ∧
          r.problems.map Prod.fst = [coreModule, coreModule] := by
  have heval : (Program.check { maxCases := 1 } 4 loneModule).map
        (fun v => v.problems.isEmpty) = some true ∧
      (Registration.ofModules { maxCases := 1 } 4 (Core.module :: loneModule)).map
        (fun r => r.problems.map Prod.fst) = some [coreModule, coreModule] := by
    decide +kernel
  rcases heval with ⟨hcheck, hregistered⟩
  rcases Option.map_eq_some_iff.mp hcheck with ⟨v, hv, hclean⟩
  rcases Option.map_eq_some_iff.mp hregistered with ⟨r, hr, hproblems⟩
  exact ⟨by decide +kernel, v, r, hv, List.isEmpty_iff.mp hclean, hr, hproblems⟩

end TypeChecker
