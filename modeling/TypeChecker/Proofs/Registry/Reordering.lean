import TypeChecker.Proofs.Registry.Relocation
import TypeChecker.Proofs.Registry.Validated

/-!
# The order of declarations

Registration reads the declarations of a program in the order they are written in,
and gives the same registry and the same problems in every order: a declaration is
built from what it and its cases say and from the arities of the declared types, and
neither depends on where the declaration stands.
-/

namespace TypeChecker

/-!
## Outlines
-/

/-- What a listed declaration is built from, without its place in the list. -/
structure Outline where
  symbol : Symbol
  decl : Source.TypeDecl
  params : List Param
  cases : List Case
  memberOf : Option Membership

namespace Entry

def outline (entries : List Entry) (index : Nat) (entry : Entry) : Outline where
  symbol := entry.symbol
  decl := entry.decl
  params := entry.params
  cases := casesOf entries index
  memberOf := membership? entries entry

theorem casesOf_append (entries later : List Entry) (index : Nat) :
    casesOf (entries ++ later) index = casesOf entries index ++ casesOf later index :=
  List.filterMap_append

theorem casesOf_moved (entries : List Entry) (count index : Nat) :
    casesOf (entries.map (Entry.moved count)) (count + index) = casesOf entries index := by
  unfold casesOf
  rw [List.filterMap_map]
  congr 1
  funext entry
  rcases entry with ⟨symbol, decl, params, owner⟩
  cases owner with
  | none => rfl
  | some owner => simp [moved, Owner.moved]

theorem casesOf_eq_nil {entries : List Entry} {index : Nat}
    (h : forall entry owner, entry ∈ entries -> entry.owner = some owner ->
      owner.index ≠ index) : casesOf entries index = [] := by
  rw [List.eq_nil_iff_forall_not_mem]
  intro case hcase
  rcases mem_casesOf.mp hcase with ⟨entry, owner, hentry, howner, hindex, _⟩
  exact h entry owner hentry howner hindex

end Entry

namespace Collection

variable {c d : Collection}

def Closed (c : Collection) : Prop :=
  forall entry owner, entry ∈ c.entries -> entry.owner = some owner ->
    owner.index < c.entries.length

theorem WellListed.closed (h : c.WellListed) : c.Closed := by
  intro entry owner hentry howner
  rcases h.owned entry hentry owner howner with ⟨union, hunion, _⟩
  exact (List.getElem?_eq_some_iff.mp hunion).choose

theorem closed_alone (item : String × Source.TypeDecl) : (alone item).Closed := by
  have hsteps : Steps [item.1] {} (alone item) :=
    collect_steps List.mem_cons_self (fun _ _ hnone => by cases hnone) item.2
  exact (wellListed_empty.steps hsteps).closed

theorem Closed.followedBy (hc : c.Closed) (hd : d.Closed) : (c.followedBy d).Closed := by
  intro entry owner hentry howner
  rw [length_followedBy]
  rcases List.mem_append.mp hentry with hleft | hright
  · exact Nat.lt_add_right _ (hc entry owner hleft howner)
  · rcases List.mem_map.mp hright with ⟨alone, halone, rfl⟩
    rcases Option.map_eq_some_iff.mp howner with ⟨own, hown, rfl⟩
    exact Nat.add_lt_add_left (hd alone own halone hown) _

theorem casesOf_followedBy_left {index : Nat} (h : index < c.entries.length) :
    Entry.casesOf (c.followedBy d).entries index = Entry.casesOf c.entries index := by
  have hbehind : Entry.casesOf (d.entries.map (Entry.moved c.entries.length)) index = [] := by
    apply Entry.casesOf_eq_nil
    rintro entry owner hentry howner rfl
    rcases List.mem_map.mp hentry with ⟨alone, _, rfl⟩
    rcases Option.map_eq_some_iff.mp howner with ⟨own, _, rfl⟩
    exact Nat.not_lt.mpr (Nat.le_add_right _ _) h
  rw [followedBy, Entry.casesOf_append, hbehind, List.append_nil]

theorem casesOf_followedBy_right (hc : c.Closed) (index : Nat) :
    Entry.casesOf (c.followedBy d).entries (c.entries.length + index) =
      Entry.casesOf d.entries index := by
  rw [followedBy, Entry.casesOf_append, Entry.casesOf_moved, Entry.casesOf_eq_nil, List.nil_append]
  intro entry owner hentry howner hindex
  have hlt := hc entry owner hentry howner
  omega

theorem outline_followedBy_left (hc : c.Closed) {entry : Entry} (hentry : entry ∈ c.entries)
    {index : Nat} (h : index < c.entries.length) :
    entry.outline (c.followedBy d).entries index = entry.outline c.entries index := by
  have hmember : Entry.membership? (c.followedBy d).entries entry =
      Entry.membership? c.entries entry := by
    cases howner : entry.owner with
    | none => simp only [Entry.membership?, howner]
    | some owner =>
        have hlt := hc entry owner hentry howner
        simp only [Entry.membership?, howner, casesOf_followedBy_left hlt]
        rw [followedBy, List.getElem?_append_left hlt]
  unfold Entry.outline
  rw [hmember, casesOf_followedBy_left h]

theorem outline_followedBy_right (hc : c.Closed) (entry : Entry) (index : Nat) :
    (entry.moved c.entries.length).outline (c.followedBy d).entries (c.entries.length + index) =
      entry.outline d.entries index := by
  have hmember : Entry.membership? (c.followedBy d).entries (entry.moved c.entries.length) =
      Entry.membership? d.entries entry := by
    rcases entry with ⟨symbol, decl, params, owner⟩
    cases owner with
    | none => rfl
    | some owner =>
        simp only [Entry.membership?, Entry.moved, Option.map_some, Owner.moved,
          casesOf_followedBy_right hc]
        rw [followedBy, List.getElem?_append_right (Nat.le_add_right _ _), Nat.add_sub_cancel_left,
          List.getElem?_map, Option.map_map]
        rfl
  unfold Entry.outline
  rw [hmember, casesOf_followedBy_right hc]
  rfl

def outlines (c : Collection) : List Outline :=
  c.entries.zipIdx.map fun item => item.1.outline c.entries item.2

theorem outlines_followedBy (hc : c.Closed) :
    (c.followedBy d).outlines = c.outlines ++ d.outlines := by
  have hleft : c.entries.zipIdx.map (fun item => item.1.outline (c.followedBy d).entries item.2) =
      c.outlines := by
    refine List.map_congr_left ?_
    intro item hitem
    rcases item with ⟨entry, index⟩
    have hat := List.mem_zipIdx_iff_getElem?.mp hitem
    exact outline_followedBy_left hc (List.mem_of_getElem? hat)
      (List.getElem?_eq_some_iff.mp hat).choose
  have hright : ((d.entries.map (Entry.moved c.entries.length)).zipIdx c.entries.length).map
      (fun item => item.1.outline (c.followedBy d).entries item.2) = d.outlines := by
    rw [List.zipIdx_map, List.zipIdx_eq_map_add, List.map_map, List.map_map]
    refine List.map_congr_left ?_
    intro item _
    exact outline_followedBy_right hc item.1 item.2
  have hentries : (c.followedBy d).entries.zipIdx = c.entries.zipIdx ++
      (d.entries.map (Entry.moved c.entries.length)).zipIdx c.entries.length := by
    rw [followedBy, List.zipIdx_append, Nat.zero_add]
  rw [outlines, hentries, List.map_append, hleft, hright]

theorem foldl_followedBy {collections : List Collection}
    (hclosed : forall d, d ∈ collections -> d.Closed) (hc : c.Closed) :
    (collections.foldl followedBy c).outlines =
        c.outlines ++ collections.flatMap outlines ∧
      (collections.foldl followedBy c).problems =
        c.problems ++ collections.flatMap problems := by
  induction collections generalizing c with
  | nil => simp
  | cons d rest ih =>
      have hd := hclosed d List.mem_cons_self
      have hrest := ih (fun d hd => hclosed d (List.mem_cons_of_mem _ hd)) (hc.followedBy hd)
      rw [List.foldl_cons, hrest.left, hrest.right, outlines_followedBy hc, List.flatMap_cons,
        List.flatMap_cons, <- List.append_assoc, <- List.append_assoc]
      exact ⟨rfl, rfl⟩

theorem ofModules_flatMap {modules : List Source.Module}
    (hdistinct : (Source.declaredSymbols modules).Nodup) :
    (ofModules modules).outlines =
        (Source.topLevel modules).flatMap (fun item => (alone item).outlines) ∧
      (ofModules modules).problems =
        (Source.topLevel modules).flatMap (fun item => (alone item).problems) := by
  have hclosed : forall d, d ∈ (Source.topLevel modules).map alone -> d.Closed := by
    intro d hd
    rcases List.mem_map.mp hd with ⟨item, _, rfl⟩
    exact closed_alone item
  have hall := foldl_followedBy hclosed wellListed_empty.closed
  rw [<- ofModules_eq_followedBy hdistinct, List.flatMap_map, List.flatMap_map] at hall
  exact hall

theorem map_outlines {α : Type} {f : Outline -> α} {g : Entry -> α}
    (h : forall index entry, f (Entry.outline c.entries index entry) = g entry) :
    c.outlines.map f = c.entries.map g := by
  have hfirst : c.entries.zipIdx.map (fun item => f (item.1.outline c.entries item.2)) =
      c.entries.zipIdx.map (g ∘ Prod.fst) :=
    List.map_congr_left fun item _ => h item.2 item.1
  rw [outlines, List.map_map, Function.comp_def, hfirst, <- List.map_map, List.zipIdx_map_fst]

end Collection

/-!
## Building from outlines
-/

def Definition.withCases (cases : List Case) : Definition -> Definition
  | .union _ => .union cases
  | other => other

namespace Outline

def arityRange (o : Outline) : Nat × Nat :=
  (o.params.length - Entry.trailingDefaults o.decl.head.params, o.params.length)

def arities (outlines : List Outline) : Arities := fun name =>
  Table.get? (outlines.map fun o => (o.symbol, o.arityRange)) name

def invalid (o : Outline) (detail : TypeError) : Problem :=
  .decl { value := .invalid o.symbol.text detail, span := o.decl.head.span }

def build (arities : Arities) (limits : Limits) (o : Outline) : Except Problem Declaration := do
  let head := o.decl.head
  let scope : TypeScope :=
    { module := o.symbol.module
      params := o.params.map Param.name
      arities := arities
      limits := limits }
  let data <- (DataId.ofTags head.tags).mapError Problem.decl
  let types <- (Entry.readParamTypes scope 0 {} head.params).mapError o.invalid
  let definition <- (Entry.readDefinition scope [] 0 o.decl).mapError o.invalid
  return {
    doc := head.doc
    data := data
    params := o.params
    bounds := types.bounds
    defaults := types.defaults
    definition := definition.withCases o.cases
    memberOf := o.memberOf
    span := head.span }

def built? (arities : Arities) (limits : Limits) (o : Outline) : Option (Symbol × Declaration) :=
  (o.build arities limits).toOption.map (Prod.mk o.symbol)

def problem? (arities : Arities) (limits : Limits) (o : Outline) : Option (String × Problem) :=
  match o.build arities limits with
  | .ok _ => none
  | .error problem => some (o.symbol.module, problem)

end Outline

namespace Entry

variable {entries : List Entry} {limits : Limits}

theorem readDefinition_outline (scope : TypeScope) (index : Nat) (decl : Source.TypeDecl) :
    readDefinition scope entries index decl =
      (readDefinition scope [] 0 decl).map (Definition.withCases (casesOf entries index)) := by
  cases decl with
  | union head cases => rfl
  | native head => rfl
  | boxed head decl =>
      rcases decl with ⟨inner, guarded, hidden, weak, implicit⟩
      cases inner with
      | none => rfl
      | some written =>
          rw [readDefinition, readDefinition]
          dsimp only
          cases scope.read written <;> rfl

theorem build_outline (index : Nat) (entry : Entry) :
    build entries limits index entry =
      (entry.outline entries index).build (arities entries) limits := by
  unfold build Outline.build
  dsimp only [outline]
  rw [readDefinition_outline]
  generalize TypeScope.mk _ _ _ _ = scope
  cases DataId.ofTags entry.decl.head.tags with
  | error e => rfl
  | ok data =>
      cases readParamTypes scope 0 {} entry.decl.head.params with
      | error e => rfl
      | ok types => cases readDefinition scope [] 0 entry.decl <;> rfl

theorem arities_outlines (c : Collection) : arities c.entries = Outline.arities c.outlines := by
  have hranges : c.outlines.map (fun o => (o.symbol, o.arityRange)) =
      c.entries.map fun entry => (entry.symbol, entry.arityRange) :=
    Collection.map_outlines fun _ _ => rfl
  funext name
  rw [Outline.arities, hranges, arities]
  induction c.entries with
  | nil => rfl
  | cons entry rest ih =>
      rw [List.find?_cons, List.map_cons, Table.get?]
      by_cases hname : entry.symbol = name
      · simp [hname]
      · simpa [hname] using ih

theorem buildFrom_problems (index : Nat) (rest : List Entry) :
    (buildFrom entries limits index rest).2 =
      ((rest.zipIdx index).map fun item => item.1.outline entries item.2).filterMap
        (Outline.problem? (arities entries) limits) := by
  induction rest generalizing index with
  | nil => rfl
  | cons entry rest ih =>
      rw [buildFrom, List.zipIdx_cons, List.map_cons, List.filterMap_cons, Outline.problem?,
        <- build_outline, <- ih]
      dsimp only
      cases build entries limits index entry <;> rfl

theorem buildFrom_perm {index : Nat} {rest : List Entry}
    (hdistinct : (rest.map Entry.symbol).Nodup) :
    (buildFrom entries limits index rest).1.Perm
      (((rest.zipIdx index).map fun item => item.1.outline entries item.2).filterMap
        (Outline.built? (arities entries) limits)) := by
  induction rest generalizing index with
  | nil => exact List.Perm.nil
  | cons entry rest ih =>
      rw [List.map_cons, List.nodup_cons] at hdistinct
      have hrest := @ih (index + 1) hdistinct.right
      rw [buildFrom, List.zipIdx_cons, List.map_cons, List.filterMap_cons, Outline.built?,
        <- build_outline]
      dsimp only
      cases build entries limits index entry with
      | error problem => exact hrest
      | ok d =>
          refine (Table.put_perm ?_).trans (hrest.cons _)
          intro hmem
          rcases List.mem_map.mp hmem with ⟨⟨name, other⟩, hother, rfl⟩
          rcases buildFrom_mem hother with ⟨_, old, hold, hname, _⟩
          exact hdistinct.left (List.mem_map.mpr ⟨old, List.mem_of_getElem? hold, hname⟩)

end Entry

/-!
## Reordered programs
-/

namespace Source

/-- The same modules, with the same type declarations in each, in another order. -/
def Reordered (modules modules' : List Module) : Prop :=
  exists between, modules.Perm between ∧
    List.Forall₂ (fun m m' => m.name = m'.name ∧ m.types.Perm m'.types) between modules'

theorem topLevel_perm {modules modules' : List Module} (h : Reordered modules modules') :
    (topLevel modules).Perm (topLevel modules') := by
  rcases h with ⟨between, hperm, hsame⟩
  refine (hperm.flatMap_right _).trans ?_
  clear hperm
  unfold topLevel
  induction hsame with
  | nil => exact List.Perm.nil
  | cons hfirst _ ih =>
      rw [List.flatMap_cons, List.flatMap_cons, hfirst.left]
      exact (hfirst.right.map _).append ih

end Source

namespace Collection

variable {modules modules' : List Source.Module}

theorem ofModules_perm (hdistinct : (Source.declaredSymbols modules).Nodup)
    (h : Source.Reordered modules modules') :
    (ofModules modules).outlines.Perm (ofModules modules').outlines ∧
      (ofModules modules).problems.Perm (ofModules modules').problems := by
  have hperm := Source.topLevel_perm h
  have hdistinct' : (Source.declaredSymbols modules').Nodup :=
    (hperm.flatMap_right _).nodup_iff.mp hdistinct
  rcases ofModules_flatMap hdistinct with ⟨houtlines, hproblems⟩
  rcases ofModules_flatMap hdistinct' with ⟨houtlines', hproblems'⟩
  rw [houtlines, hproblems, houtlines', hproblems']
  exact ⟨hperm.flatMap_right _, hperm.flatMap_right _⟩

theorem arities_eq (h : (ofModules modules).outlines.Perm (ofModules modules').outlines) :
    Entry.arities (ofModules modules).entries = Entry.arities (ofModules modules').entries := by
  rw [Entry.arities_outlines, Entry.arities_outlines]
  funext name
  refine Table.get?_perm (h.map _) ?_ name
  rw [List.map_map, map_outlines (g := Entry.symbol) (fun _ _ => rfl)]
  exact (wellListed_ofModules modules).distinct

end Collection

namespace Registration

variable {modules modules' : List Source.Module}

theorem written_perm (limits : Limits) (modules : List Source.Module) :
    (written limits modules).Perm ((Collection.ofModules modules).outlines.filterMap
      (Outline.built? (Entry.arities (Collection.ofModules modules).entries) limits)) :=
  Entry.buildFrom_perm (Collection.wellListed_ofModules modules).distinct

/-- In another order the same declarations are built, and the same ones are refused. -/
theorem buildFrom_reordered (limits : Limits)
    (h : (Collection.ofModules modules).outlines.Perm (Collection.ofModules modules').outlines) :
    written limits modules = written limits modules' ∧
      (Entry.buildFrom (Collection.ofModules modules).entries limits 0
        (Collection.ofModules modules).entries).2.Perm
      (Entry.buildFrom (Collection.ofModules modules').entries limits 0
        (Collection.ofModules modules').entries).2 := by
  have harities := Collection.arities_eq h
  constructor
  · refine Table.eq_of_perm Entry.ordered_buildFrom Entry.ordered_buildFrom ?_
    have hwritten' := written_perm limits modules'
    rw [<- harities] at hwritten'
    exact (written_perm limits modules).trans ((h.filterMap _).trans hwritten'.symm)
  · rw [Entry.buildFrom_problems, Entry.buildFrom_problems, <- harities]
    exact h.filterMap _

end Registration

/-- A program in which every type is declared under a name of its own is registered alike
in every order of its modules and of the declarations in them. -/
theorem registration_ignores_order {modules modules' : List Source.Module}
    (hdistinct : (Source.declaredSymbols modules).Nodup)
    (hreordered : Source.Reordered modules modules') (limits : Limits) (depth : Nat) :
    Option.Rel (fun r r' => r.registry = r'.registry ∧ r.problems.Perm r'.problems)
      (Registration.ofModules limits depth modules)
      (Registration.ofModules limits depth modules') := by
  rcases Collection.ofModules_perm hdistinct hreordered with ⟨houtlines, hlisting⟩
  rcases Registration.buildFrom_reordered limits houtlines with ⟨hwritten, hbuilding⟩
  unfold Registration.written at hwritten
  unfold Registration.ofModules Registration.unvalidated
  dsimp only
  rw [hwritten]
  generalize Registry.complete _ = completed
  cases Registration.validationProblems (Registry.withoutCircles completed) limits depth
      (Registry.withoutCircles completed) with
  | none => exact Option.Rel.none
  | some invalid =>
      refine Option.Rel.some ⟨rfl, ?_⟩
      exact ((hlisting.append hbuilding).append_right _).append_right _

def plantModule : Source.Module where
  name := "Plant"
  types := [
    .boxed { name := { name := "Seed" } }
      { inner := some { value := .ref { module := some "Main", name := "Tree" } [] } }]

def forestDecl : Source.TypeDecl :=
  .boxed { name := { name := "Forest" } }
    { inner := some { value := .ref { module := some "Plant", name := "Seed" } [] } }

def treeDecl : Source.TypeDecl :=
  .union { name := { name := "Tree" } } [
    .boxed { name := { name := "Leaf" } } { inner := some { value := .ref { name := "Int" } [] } },
    .boxed { name := { name := "Fork" } } { inner := some { value := .ref { name := "Lost" } [] } }]

def forestModules : List Source.Module :=
  [Core.module, { name := "Main", types := [forestDecl, treeDecl] }, plantModule]

def forestLast : List Source.Module :=
  [Core.module, plantModule, { name := "Main", types := [treeDecl, forestDecl] }]

theorem forest_registered_in_any_order :
    exists r r', Registration.ofModules {} 4 forestModules = some r ∧
      Registration.ofModules {} 4 forestLast = some r' ∧
      r.registry = r'.registry ∧ r.problems.Perm r'.problems ∧
      r.problems.map (fun item => (item.1, item.2.invalid?)) = [("Main", some "Main::Fork")] ∧
      Table.contains r.registry ⟨"Main", "Forest"⟩ = true := by
  have hcheck : (Registration.ofModules {} 4 forestModules).map (fun r =>
      (r.problems.map fun item => (item.1, item.2.invalid?),
        Table.contains r.registry ⟨"Main", "Forest"⟩)) =
      some ([("Main", some "Main::Fork")], true) := by decide +kernel
  rcases Option.map_eq_some_iff.mp hcheck with ⟨r, hr, heq⟩
  rcases Prod.mk.inj heq with ⟨hproblems, hforest⟩
  have hreordered : Source.Reordered forestModules forestLast := by
    refine ⟨_, (List.Perm.swap _ _ _).cons _, ?_⟩
    refine List.Forall₂.cons ⟨rfl, List.Perm.refl _⟩ (List.Forall₂.cons ⟨rfl, List.Perm.refl _⟩ ?_)
    exact List.Forall₂.cons ⟨rfl, List.Perm.swap _ _ _⟩ List.Forall₂.nil
  have hrel := registration_ignores_order (by decide +kernel) hreordered {} 4
  cases hr' : Registration.ofModules {} 4 forestLast with
  | none =>
      rw [hr, hr'] at hrel
      cases hrel
  | some r' =>
      rw [hr, hr'] at hrel
      cases hrel with
      | some hsame => exact ⟨r, r', hr, rfl, hsame.left, hsame.right, hproblems, hforest⟩

end TypeChecker
