import TypeChecker.Proofs.Program.Intake
import TypeChecker.Proofs.Registry.CoreTypes

/-!
# Checking module after module

Modules are checked one after the other, each after those it imports. One with a problem
of its own fails, and so does every module that imports a failed one. What one check does
to the modules checked so far is stated first; an invariant of the whole run follows.
-/

namespace TypeChecker

/-!
## The problems of a single module
-/

def Problem.IsOwn (problem : Problem) : Prop :=
  forall fault, problem ≠ .program fault

namespace Scope.Collected

variable {registry : Registry} {limits : Limits} {depth : Nat} {P : Collected -> Prop}
  {c later : Collected}

/-- A condition is kept when a problem is reported and when a signature is added that was
read. -/
structure Kept (registry : Registry) (limits : Limits) (depth : Nat) (P : Collected -> Prop) :
    Prop where
  report : forall {c} error, P c -> P (c.report error)
  addFunction : forall {c module index decl f},
    (readFunction registry limits depth module index decl).outcome = some (.ok f) -> P c ->
      P (c.addFunction f)
  addConstant : forall {c module decl constant},
    (readConstant registry limits depth module decl).outcome = some (.ok constant) -> P c ->
      P (c.addConstant constant)

theorem Kept.ownFunction (h : Kept registry limits depth P) {item : Nat × Source.FunctionDecl}
    (hlater : ownFunction registry limits depth c item = some later) (hc : P c) : P later := by
  rcases Option.bind_eq_some_iff.mp hlater with ⟨outcome, hread, hlater⟩
  cases outcome with
  | ok f =>
      cases hlater
      exact h.addFunction hread hc
  | error e =>
      cases hlater
      exact h.report e hc

theorem Kept.ownConstant (h : Kept registry limits depth P) {decl : Source.ConstantDecl}
    (hlater : ownConstant registry limits depth c decl = some later) (hc : P c) : P later := by
  rcases Option.bind_eq_some_iff.mp hlater with ⟨outcome, hread, hlater⟩
  cases outcome with
  | ok constant =>
      dsimp only at hlater
      split at hlater
      · cases hlater
        exact h.report _ hc
      · cases hlater
        exact h.addConstant hread hc
  | error e =>
      cases hlater
      exact h.report e hc

theorem Kept.importFunction (h : Kept registry limits depth P) {module : String}
    {item : Nat × Source.FunctionDecl}
    (hlater : importFunction registry limits depth module c item = some later) (hc : P c) :
    P later := by
  unfold Collected.importFunction at hlater
  split at hlater
  · cases hlater
    exact hc
  · rcases Option.bind_eq_some_iff.mp hlater with ⟨outcome, hread, hlater⟩
    cases outcome with
    | ok f =>
        cases hlater
        exact h.addFunction hread hc
    | error e =>
        cases hlater
        exact hc

theorem Kept.importConstant (h : Kept registry limits depth P) {module : String}
    {decl : Source.ConstantDecl}
    (hlater : importConstant registry limits depth module c decl = some later) (hc : P c) :
    P later := by
  unfold Collected.importConstant at hlater
  split at hlater
  · cases hlater
    exact hc
  · rcases Option.bind_eq_some_iff.mp hlater with ⟨outcome, hread, hlater⟩
    cases outcome with
    | ok constant =>
        dsimp only at hlater
        split at hlater
        · cases hlater
          exact hc
        · cases hlater
          exact h.addConstant hread hc
    | error e =>
        cases hlater
        exact hc

theorem Kept.importModule (h : Kept registry limits depth P) {other : Source.Module}
    (hlater : importModule registry limits depth c other = some later) (hc : P c) : P later := by
  rcases Option.bind_eq_some_iff.mp hlater with ⟨mid, hmid, hlater⟩
  have hfunctions : P mid := bounded_foldlM_keeps h.importFunction hmid hc
  exact bounded_foldlM_keeps h.importConstant hlater hfunctions

theorem Kept.collect (h : Kept registry limits depth P) {module : Source.Module}
    {imported : List Source.Module}
    (hcollect : Scope.collect registry limits depth module imported = some c)
    (hstart : P { scope := { module := module.name } }) : P c := by
  rcases Option.bind_eq_some_iff.mp hcollect with ⟨c₁, hfunctions, hcollect⟩
  rcases Option.bind_eq_some_iff.mp hcollect with ⟨c₂, hconstants, hcollect⟩
  have h₁ : P c₁ := bounded_foldlM_keeps h.ownFunction hfunctions hstart
  have h₂ : P c₂ := bounded_foldlM_keeps h.ownConstant hconstants h₁
  exact bounded_foldlM_keeps h.importModule hcollect h₂

def OnlySignatures (c : Collected) : Prop :=
  forall problem, problem ∈ c.problems -> exists error, problem = .signature error

theorem OnlySignatures.report (h : c.OnlySignatures) (error : SignatureError) :
    (c.report error).OnlySignatures := by
  intro problem hproblem
  rcases List.mem_append.mp hproblem with hold | hnew
  · exact h problem hold
  · exact ⟨error, List.mem_singleton.mp hnew⟩

theorem OnlySignatures.addFunction (h : c.OnlySignatures) (s : Signature) :
    (c.addFunction s).OnlySignatures := by
  unfold Collected.addFunction
  split
  · exact h
  · split
    · exact h.report _
    · exact h

theorem onlySignatures_collect {module : Source.Module} {imported : List Source.Module}
    (h : collect registry limits depth module imported = some c) : c.OnlySignatures := by
  have hkept : Kept registry limits depth OnlySignatures :=
    { report := fun error hc => hc.report error
      addFunction := fun _ hc => hc.addFunction _
      addConstant := fun _ hc => hc }
  exact hkept.collect h (List.forall_mem_nil _)

end Scope.Collected

theorem BodyContext.checkEach_problem {α β : Type} {check : α -> Judge ExprError β}
    {items : List α} {accepted : List β} {problems : List Problem}
    (h : checkEach check items = some (accepted, problems)) {problem : Problem}
    (hproblem : problem ∈ problems) : exists error, problem = .expr error := by
  induction items generalizing accepted problems with
  | nil =>
      cases h
      cases hproblem
  | cons item rest ih =>
      rcases Option.bind_eq_some_iff.mp h with ⟨outcome, _, h⟩
      cases outcome with
      | ok checked =>
          rcases Option.bind_eq_some_iff.mp h with ⟨⟨_, _⟩, hrest, h⟩
          cases h
          exact ih hrest hproblem
      | error error =>
          rcases Option.bind_eq_some_iff.mp h with ⟨⟨_, _⟩, hrest, h⟩
          cases h
          rcases List.mem_cons.mp hproblem with rfl | hlater
          · exact ⟨error, rfl⟩
          · exact ih hrest hlater

namespace Program

variable {limits : Limits} {depth : Nat} {modules : List Source.Module} {m : Source.Module}

theorem checkModule_spec {registry : Registry} {imported : List Source.Module}
    {checked : CheckedModule} {problems : List Problem}
    (h : checkModule registry limits depth m imported = some (checked, problems)) :
    checked.name = m.name ∧ forall problem, problem ∈ problems -> problem.IsOwn := by
  rcases Option.bind_eq_some_iff.mp h with ⟨collected, hcollected, h⟩
  rcases Option.bind_eq_some_iff.mp h with ⟨⟨functions, inFunctions⟩, hfunctions, h⟩
  rcases Option.bind_eq_some_iff.mp h with ⟨⟨constants, inConstants⟩, hconstants, h⟩
  rcases Option.bind_eq_some_iff.mp h with ⟨⟨effects, inEffects⟩, heffects, h⟩
  cases h
  refine ⟨rfl, ?_⟩
  intro problem hproblem fault hfault
  subst hfault
  simp only [List.mem_append] at hproblem
  rcases hproblem with ((hsignature | hbody) | hbody) | hbody
  · rcases Scope.Collected.onlySignatures_collect hcollected _ hsignature with ⟨_, heq⟩
    cases heq
  · rcases BodyContext.checkEach_problem hfunctions hbody with ⟨_, heq⟩
    cases heq
  · rcases BodyContext.checkEach_problem hconstants hbody with ⟨_, heq⟩
    cases heq
  · rcases BodyContext.checkEach_problem heffects hbody with ⟨_, heq⟩
    cases heq

def Blames (faults : ModuleFaults) (module : String) : Prop :=
  exists problem, (module, problem) ∈ faults

theorem blames_append {faults more : ModuleFaults} {module : String} :
    Blames (faults ++ more) module <-> Blames faults module ∨ Blames more module := by
  simp [Blames, exists_or]

theorem blames_map {problems : List Problem} {module name : String} :
    Blames (problems.map fun problem => (name, problem)) module <->
      module = name ∧ problems ≠ [] := by
  constructor
  · intro h
    rcases h with ⟨problem, hmem⟩
    rcases List.mem_map.mp hmem with ⟨own, hown, heq⟩
    cases heq
    exact ⟨rfl, List.ne_nil_of_mem hown⟩
  · intro h
    rcases h with ⟨rfl, hsome⟩
    rcases List.exists_mem_of_ne_nil problems hsome with ⟨own, hown⟩
    exact ⟨own, List.mem_map_of_mem hown⟩

theorem any_iff_blames {faults : ModuleFaults} {module : String} :
    (faults.any fun item => item.1 == module) = true <-> Blames faults module := by
  simp [Blames]

namespace Setting

variable {s : Setting}

theorem mem_declarationProblems {module : String} {problem : Problem} :
    problem ∈ s.declarationProblems module <->
      (module, problem) ∈ s.registration.problems ∨
        exists name error, (name, error) ∈ s.dataProblems ∧ name.module = module ∧
          problem = .data error := by
  unfold declarationProblems Registration.problemsOf
  rw [List.mem_append, List.mem_map, List.mem_map]
  simp only [List.mem_filter, beq_iff_eq]
  constructor
  · rintro (⟨⟨_, _⟩, ⟨hmem, rfl⟩, rfl⟩ | ⟨⟨name, error⟩, ⟨hmem, hname⟩, rfl⟩)
    · exact Or.inl hmem
    · exact Or.inr ⟨name, error, hmem, hname, rfl⟩
  · rintro (hmem | ⟨name, error, hmem, hname, rfl⟩)
    · exact Or.inl ⟨(module, problem), ⟨hmem, rfl⟩, rfl⟩
    · exact Or.inr ⟨(name, error), ⟨hmem, hname⟩, rfl⟩

/-- The setting of a program: the imports are those of its modules, and what is wrong with
declarations is a matter of the declarations. -/
structure Describes (modules : List Source.Module) (s : Setting) : Prop where
  intake : s.intake.Describes modules
  registration : forall item, item ∈ s.registration.problems -> item.2.IsOwn

theorem Describes.declarationProblems (h : s.Describes modules) {module : String}
    {problem : Problem} (hproblem : problem ∈ s.declarationProblems module) : problem.IsOwn := by
  rcases mem_declarationProblems.mp hproblem with hmem | ⟨_, _, _, _, rfl⟩
  · exact h.registration _ hmem
  · intro fault heq
    cases heq

end Setting

/-!
## One module
-/

namespace Progress

variable {s : Setting} {p p' : Progress} {id : Nat} {name : String}

/-- What checking the module `name` makes of the modules checked so far, `imported` being
those it imports: it fails for a reason, or it is accepted. -/
inductive Moves (s : Setting) (name : String) (imported : List String) (p : Progress) :
    Progress -> Prop where
  | fails {problems : List Problem}
      (reason : problems ≠ [] ∨ Blames s.intake.problems name)
      (dependency : forall module other,
        .program (.failedDependency module other) ∈ problems ->
          module = name ∧ other ∈ imported ∧ other ∈ p.failed) :
      Moves s name imported p
        { p with
          order := p.order ++ [name]
          problems := p.problems ++ problems.map fun problem => (name, problem)
          failed := name :: p.failed }
  | succeeds (checked : CheckedModule)
      (unfailed : forall other, other ∈ imported -> other ∉ p.failed)
      (declared : s.declarationProblems name = [])
      (unbroken : ¬ Blames s.intake.problems name) :
      Moves s name imported p
        { p with
          order := p.order ++ [name]
          modules := Table.put name checked p.modules }

theorem step_moves (hs : s.Describes modules) (hm : s.intake.accepted[id]? = some m)
    (h : step s p id = some p') :
    Moves s m.name ((s.intake.importsOf id).map Source.Module.name) p p' := by
  unfold step at h
  rw [hm] at h
  dsimp only at h
  split at h
  · rename_i dependency hfind
    cases h
    have hfailed : dependency.name ∈ p.failed := by simpa using List.find?_some hfind
    refine Moves.fails (Or.inl (List.cons_ne_nil _ [])) ?_
    intro module other hmem
    cases List.mem_singleton.mp hmem
    exact ⟨rfl, List.mem_map_of_mem (List.mem_of_find?_eq_some hfind), hfailed⟩
  · rename_i hfind
    rcases Option.bind_eq_some_iff.mp h with ⟨⟨checked, problems⟩, hchecked, h⟩
    rcases checkModule_spec hchecked with ⟨hname, hown⟩
    cases h
    unfold finish
    dsimp only
    rw [hname]
    split
    · rename_i hbad
      refine Moves.fails ?_ ?_
      · rcases (Bool.or_eq_true _ _).mp hbad with hbroken | hproblems
        · exact Or.inr (any_iff_blames.mp hbroken)
        · left
          intro hnone
          rw [hnone] at hproblems
          cases hproblems
      · intro module other hmem
        rcases List.mem_append.mp hmem with hdeclared | hchecked
        · exact absurd rfl (hs.declarationProblems hdeclared _)
        · exact absurd rfl (hown _ hchecked _)
    · rename_i hgood
      simp only [Bool.or_eq_true, not_or, Bool.not_eq_true', Bool.not_eq_false,
        List.isEmpty_iff] at hgood
      rcases hgood with ⟨hunbroken, hnone⟩
      rcases List.append_eq_nil_iff.mp hnone with ⟨hdeclared, hclean⟩
      rw [hnone, List.map_nil, List.append_nil]
      refine Moves.succeeds checked ?_ hdeclared
        (fun hblames => hunbroken (any_iff_blames.mpr hblames))
      intro other hother hfailed
      rcases List.mem_map.mp hother with ⟨o, ho, rfl⟩
      exact List.find?_eq_none.mp hfind o ho (by simpa using hfailed)

theorem Moves.order_eq {imported : List String} (h : Moves s name imported p p') :
    p'.order = p.order ++ [name] := by
  cases h <;> rfl

/-!
## All modules
-/

/-- What is so after every module. A module has failed if something is reported under it, and
those that have not are the ones accepted. -/
structure Sound (modules : List Source.Module) (s : Setting) (p : Progress) : Prop where
  failed : forall name, name ∈ p.failed <->
    name ∈ p.order ∧ Blames (s.intake.problems ++ p.problems) name
  homes : forall name, Blames p.problems name -> name ∈ p.order
  checked : forall name, Table.contains p.modules name = true <->
    name ∈ p.order ∧ name ∉ p.failed
  imported : forall name, name ∈ p.order -> name ∉ p.failed ->
    forall other, Imports modules name other -> other ∈ p.order ∧ other ∉ p.failed
  dependency : forall name module other,
    (name, .program (.failedDependency module other)) ∈ p.problems ->
      module = name ∧ Imports modules name other ∧ other ∈ p.failed
  declared : forall name, name ∈ p.order -> name ∉ p.failed -> s.declarationProblems name = []

theorem sound_start (modules : List Source.Module) (s : Setting) : Sound modules s {} where
  failed := by simp
  homes := fun name hblames => by cases hblames with | intro _ hmem => cases hmem
  checked := fun name => by simp [Table.contains, Table.get?]
  imported := fun name hmem => by cases hmem
  dependency := fun name module other hmem => by cases hmem
  declared := fun name hmem => by cases hmem

/-- A module is checked once, after all that it imports. -/
theorem Sound.step {imported : List String} (h : Sound modules s p) (hfresh : name ∉ p.order)
    (hready : forall other, Imports modules name other -> other ∈ p.order)
    (himports : forall other, other ∈ imported <-> Imports modules name other)
    (hmoves : Moves s name imported p p') : Sound modules s p' := by
  have hunfailed : name ∉ p.failed := fun hfailed => hfresh ((h.failed name).mp hfailed).left
  have hmem : forall n, n ∈ p.order ++ [name] <-> n ∈ p.order ∨ n = name := by simp
  cases hmoves with
  | @fails problems hreason hdependency =>
      constructor
      · intro n
        rw [hmem, <- List.append_assoc, blames_append, blames_map, List.mem_cons, h.failed]
        by_cases hn : n = name
        · subst hn
          refine ⟨fun _ => ⟨Or.inr rfl, ?_⟩, fun _ => Or.inl rfl⟩
          rcases hreason with hsome | hbroken
          · exact Or.inr ⟨rfl, hsome⟩
          · exact Or.inl (blames_append.mpr (Or.inl hbroken))
        · simp [hn]
      · intro n hblames
        rw [hmem]
        rcases blames_append.mp hblames with hold | hnew
        · exact Or.inl (h.homes n hold)
        · exact Or.inr (blames_map.mp hnew).left
      · intro n
        rw [hmem, List.mem_cons, h.checked]
        by_cases hn : n = name
        · simp [hn, hfresh]
        · simp [hn]
      · intro n hn hgood other himport
        rw [List.mem_cons, not_or] at hgood
        have hold : n ∈ p.order := ((hmem n).mp hn).resolve_right hgood.left
        rcases h.imported n hold hgood.right other himport with ⟨hin, hout⟩
        refine ⟨(hmem other).mpr (Or.inl hin), ?_⟩
        rw [List.mem_cons, not_or]
        exact ⟨fun hsame => hfresh (hsame ▸ hin), hout⟩
      · intro n module other hitem
        rcases List.mem_append.mp hitem with hold | hnew
        · rcases h.dependency n module other hold with ⟨hmodule, himport, hfailed⟩
          exact ⟨hmodule, himport, List.mem_cons_of_mem _ hfailed⟩
        · rcases List.mem_map.mp hnew with ⟨problem, hproblem, heq⟩
          cases heq
          rcases hdependency module other hproblem with ⟨hmodule, hother, hfailed⟩
          exact ⟨hmodule, (himports other).mp hother, List.mem_cons_of_mem _ hfailed⟩
      · intro n hn hgood
        rw [List.mem_cons, not_or] at hgood
        exact h.declared n (((hmem n).mp hn).resolve_right hgood.left) hgood.right
  | succeeds checked hgood hdeclared hunbroken =>
      have hblameless : ¬ Blames (s.intake.problems ++ p.problems) name := by
        intro hblames
        rcases blames_append.mp hblames with hbroken | hproblems
        · exact hunbroken hbroken
        · exact hfresh (h.homes name hproblems)
      constructor
      · intro n
        rw [hmem, h.failed]
        by_cases hn : n = name
        · simp [hn, hblameless]
        · simp [hn]
      · exact fun n hblames => (hmem n).mpr (Or.inl (h.homes n hblames))
      · intro n
        rw [hmem, Table.contains_put, h.checked]
        by_cases hn : n = name
        · simp [hn, hunfailed]
        · simp [hn, Ne.symm hn]
      · intro n hn hnfailed other himport
        rw [hmem]
        rcases (hmem n).mp hn with hold | rfl
        · exact (h.imported n hold hnfailed other himport).imp_left Or.inl
        · exact ⟨Or.inl (hready other himport), hgood other ((himports other).mpr himport)⟩
      · exact h.dependency
      · intro n hn hnfailed
        rcases (hmem n).mp hn with hold | rfl
        · exact h.declared n hold hnfailed
        · exact hdeclared

theorem next_ready (hs : s.Describes modules) {order before rest : List Nat}
    (hprogress : s.intake.graph.Progresses order [])
    (hsize : forall id, id ∈ order -> id < s.intake.graph.size)
    (hsplit : order = before ++ id :: rest) (hat : s.intake.accepted[id]? = some m) :
    m.name ∉ before.map s.intake.graph.nameOf ∧
      forall other, Imports modules m.name other ->
        other ∈ before.map s.intake.graph.nameOf := by
  constructor
  · intro hin
    rcases List.mem_map.mp hin with ⟨j, hj, hname⟩
    rw [<- hs.intake.nameOf hat] at hname
    have hmem : forall k, k ∈ before ∨ k = id -> k ∈ order := by
      rw [hsplit]
      simp only [List.mem_append, List.mem_cons]
      exact fun k hk => hk.imp_right Or.inl
    have hsame : j = id := hs.intake.nameOf_inj (hsize j (hmem j (Or.inl hj)))
      (hsize id (hmem id (Or.inr rfl))) hname
    have hdistinct := hprogress.distinct
    rw [List.append_nil, hsplit, List.nodup_append] at hdistinct
    exact hdistinct.right.right j hj id List.mem_cons_self hsame
  · intro other himport
    rcases hs.intake.exists_import hat himport with ⟨j, b, hb, rfl, hgraph⟩
    rw [<- hs.intake.nameOf hb]
    exact List.mem_map_of_mem (hprogress.later before id rest hsplit j hgraph)

theorem Sound.run (hs : s.Describes modules) {order : List Nat}
    (hprogress : s.intake.graph.Progresses order [])
    (hsize : forall id, id ∈ order -> id < s.intake.graph.size)
    (hrun : order.foldlM (Progress.step s) {} = some p) :
    Sound modules s p ∧ p.order = order.map s.intake.graph.nameOf := by
  -- the induction is on what is left of the order; what is done determines the names checked
  have hrest : forall (rest before : List Nat) (p p' : Progress), order = before ++ rest ->
      p.order = before.map s.intake.graph.nameOf -> Sound modules s p ->
        rest.foldlM (Progress.step s) p = some p' ->
          Sound modules s p' ∧ p'.order = order.map s.intake.graph.nameOf := by
    intro rest
    induction rest with
    | nil =>
        intro before p p' hsplit horder hsound hrun
        cases hrun
        rw [List.append_nil] at hsplit
        rw [hsplit]
        exact ⟨hsound, horder⟩
    | cons id rest ih =>
        intro before p p' hsplit horder hsound hrun
        rw [List.foldlM_cons] at hrun
        rcases Option.bind_eq_some_iff.mp hrun with ⟨next, hnext, hrun⟩
        have hid : id < s.intake.graph.size := hsize id (by rw [hsplit]; simp)
        rcases hs.intake.exists_accepted hid with ⟨m, hat⟩
        have hmoves := step_moves hs hat hnext
        rcases next_ready hs hprogress hsize hsplit hat with ⟨hfresh, hready⟩
        rw [<- horder] at hfresh hready
        have hsound' := hsound.step hfresh hready (fun other => hs.intake.mem_importsOf hat) hmoves
        refine ih (before ++ [id]) next p' ?_ ?_ hsound' hrun
        · rw [hsplit, List.append_assoc, List.singleton_append]
        · rw [hmoves.order_eq, horder, List.map_append, List.map_singleton, hs.intake.nameOf hat]
  exact hrest order [] {} p rfl rfl (sound_start modules s) hrun

end Progress

end Program
end TypeChecker
