import TypeChecker.Proofs.Registry.Registered
import TypeChecker.Schema

/-!
# What registration reports

A problem is reported for one of four reasons: a declaration could not be listed, it
could not be built, it lies on a circle, or it is not valid. In each case it is reported
under the module of the declaration. Problems with data types are reported on tagged
declarations only.
-/

namespace TypeChecker

theorem DataId.ofTags_error {tags : List Source.Tag} {e : DeclError}
    (h : ofTags tags = .error e) : e.value.isOfTypes = false := by
  have hfold : forall (tags : List Source.Tag) (id : Option DataId),
      tags.foldlM (fun _ tag => (ofTag tag).map some) id = .error e ->
      e.value.isOfTypes = false := by
    intro tags
    induction tags with
    | nil => exact fun id h => by cases h
    | cons tag rest ih =>
        intro id h
        rw [List.foldlM_cons] at h
        rcases except_bind_error.mp h with hfirst | ⟨next, _, hrest⟩
        · cases htag : ofTag tag with
          | ok found =>
              rw [htag] at hfirst
              cases hfirst
          | error fault =>
              rw [htag] at hfirst
              cases hfirst
              rcases except_mapError_error.mp htag with ⟨info, _, rfl⟩
              rfl
        · exact ih next hrest
  exact hfold tags none h

theorem Entry.build_error {entries : List Entry} {limits : Limits} {index : Nat} {entry : Entry}
    {problem : Problem} (h : build entries limits index entry = .error problem) :
    (exists error, problem = .decl error ∧ error.value.isOfTypes = false) ∨
      exists detail, problem = entry.invalid detail := by
  unfold build at h
  dsimp only at h
  rcases except_bind_error.mp h with h | ⟨data, _, h⟩
  · rcases except_mapError_error.mp h with ⟨e, he, rfl⟩
    exact Or.inl ⟨e, rfl, DataId.ofTags_error he⟩
  · rcases except_bind_error.mp h with h | ⟨types, _, h⟩
    · rcases except_mapError_error.mp h with ⟨e, _, rfl⟩
      exact Or.inr ⟨e, rfl⟩
    · rcases except_bind_error.mp h with h | ⟨definition, _, h⟩
      · rcases except_mapError_error.mp h with ⟨e, _, rfl⟩
        exact Or.inr ⟨e, rfl⟩
      · cases h

theorem Entry.buildFrom_problem {entries : List Entry} {limits : Limits} {index : Nat}
    {rest : List Entry} {item : String × Problem}
    (h : item ∈ (buildFrom entries limits index rest).2) :
    exists k entry, rest[k]? = some entry ∧ item.1 = entry.symbol.module ∧
      build entries limits (index + k) entry = .error item.2 := by
  induction rest generalizing index with
  | nil => cases h
  | cons entry rest ih =>
      have hlater : item ∈ (buildFrom entries limits (index + 1) rest).2 ->
          exists k other, (entry :: rest)[k]? = some other ∧ item.1 = other.symbol.module ∧
            build entries limits (index + k) other = .error item.2 := by
        intro hmem
        rcases ih hmem with ⟨k, other, hother, hmodule, hbuild⟩
        refine ⟨k + 1, other, hother, hmodule, ?_⟩
        rw [<- Nat.add_assoc, Nat.add_right_comm]
        exact hbuild
      rw [buildFrom] at h
      dsimp only at h
      split at h
      · exact hlater h
      · rename_i problem hbuild
        rcases List.mem_cons.mp h with rfl | hmem
        · exact ⟨0, entry, rfl, rfl, hbuild⟩
        · exact hlater hmem

theorem Registry.circleProblems_mem {registry : Registry} {item : String × Problem}
    (h : item ∈ circleProblems registry) :
    exists name d boxed error, (name, d) ∈ registry ∧ item = (name.module, .decl error) ∧
      error.value.isInvalid = false ∧ d.boxed? = some boxed ∧ boxed.inner.named? ≠ none := by
  rcases List.mem_filterMap.mp h with ⟨⟨name, path⟩, hcircle, hitem⟩
  dsimp only at hitem
  split at hitem
  · cases hitem
    rcases List.mem_filterMap.mp hcircle with ⟨⟨_, _⟩, _, hpath⟩
    rcases Option.map_eq_some_iff.mp hpath with ⟨_, hpath, heq⟩
    cases heq
    rw [circle?, circleFrom] at hpath
    split at hpath
    · cases hpath
    · rename_i next hnext
      unfold innerName? at hnext
      split at hnext
      · cases hnext
      · rename_i d hd
        rcases Option.map_eq_some_iff.mp hnext with ⟨_, hinner, _⟩
        rcases Option.bind_eq_some_iff.mp hinner with ⟨boxed, hboxed, hnamed⟩
        refine ⟨_, d, boxed, _, Table.mem_of_get? hd, rfl, rfl, hboxed, ?_⟩
        rw [hnamed]
        exact fun hnone => by cases hnone
  · cases hitem

namespace Registration

theorem validationProblems_mem {registry : Registry} {limits : Limits} {depth : Nat}
    {items : List (Symbol × Declaration)} {problems : ModuleProblems}
    (h : validationProblems registry limits depth items = some problems)
    {item : String × Problem} (hitem : item ∈ problems) :
    exists name d detail, (name, d) ∈ items ∧
      item = (name.module, .decl { value := .invalid name.text detail, span := d.span }) ∧
      (d.validate registry limits depth name.module).outcome = some (.error detail) := by
  induction items generalizing problems with
  | nil =>
      cases h
      cases hitem
  | cons first rest ih =>
      rcases first with ⟨name, d⟩
      rw [validationProblems] at h
      rcases Option.bind_eq_some_iff.mp h with ⟨outcome, houtcome, h⟩
      rcases Option.bind_eq_some_iff.mp h with ⟨others, hothers, h⟩
      have hlater : item ∈ others -> exists name' d' detail,
          (name', d') ∈ (name, d) :: rest ∧
            item = (name'.module, .decl
              { value := .invalid name'.text detail, span := d'.span }) ∧
            (d'.validate registry limits depth name'.module).outcome = some (.error detail) := by
        intro hmem
        rcases ih hothers hmem with ⟨name', d', detail, hin, hrest⟩
        exact ⟨name', d', detail, List.mem_cons_of_mem _ hin, hrest⟩
      cases outcome with
      | ok accepted =>
          cases h
          exact hlater hitem
      | error detail =>
          cases h
          rcases List.mem_cons.mp hitem with rfl | hmem
          · exact ⟨name, d, detail, List.mem_cons_self, rfl, houtcome⟩
          · exact hlater hmem

/-- Why a problem with the declarations of `modules` is reported. -/
inductive Reports (limits : Limits) (depth : Nat) (modules : List Source.Module)
    (r : Registration) : String × Problem -> Prop where
  | unlisted {item : String × Problem} (mem : item ∈ (Collection.ofModules modules).problems) :
      Reports limits depth modules r item
  | unbuilt {k : Nat} {entry : Entry} {problem : Problem}
      (listed : (Collection.ofModules modules).entries[k]? = some entry)
      (refused : Entry.build (Collection.ofModules modules).entries limits k entry =
        .error problem) :
      Reports limits depth modules r (entry.symbol.module, problem)
  | circular {name : Symbol} {d : Declaration} {boxed : Boxed} {error : DeclError}
      (builds : Builds limits modules name d) (box : d.boxed? = some boxed)
      (named : boxed.inner.named? ≠ none) :
      Reports limits depth modules r (name.module, .decl error)
  | invalid {name : Symbol} {d : Declaration} {detail : TypeError} {error : DeclError}
      (registered : (name, d) ∈ r.registry)
      (refused : (d.validate r.registry limits depth name.module).outcome =
        some (.error detail)) :
      Reports limits depth modules r (name.module, .decl error)

variable {limits : Limits} {depth : Nat} {modules : List Source.Module} {r : Registration}

theorem reports_of_mem (h : ofModules limits depth modules = some r) {item : String × Problem}
    (hitem : item ∈ r.problems) : Reports limits depth modules r item := by
  rcases validated_of_ofModules h with ⟨invalid, hinvalid, rfl⟩
  simp only [unvalidated, List.mem_append] at hitem
  rcases hitem with ((hlisting | hbuilding) | hcircle) | hvalidation
  · exact Reports.unlisted hlisting
  · rcases Entry.buildFrom_problem hbuilding with ⟨k, entry, hat, hmodule, hbuild⟩
    rw [Nat.zero_add] at hbuild
    rcases item with ⟨module, problem⟩
    cases hmodule
    exact Reports.unbuilt hat hbuild
  · rcases Registry.circleProblems_mem hcircle with
      ⟨name, d, boxed, error, hmem, rfl, _, hboxed, hnamed⟩
    exact Reports.circular (builds_of_mem_complete rfl hmem) hboxed hnamed
  · rcases validationProblems_mem hinvalid hvalidation with
      ⟨name, d, detail, hmem, rfl, hrefused⟩
    exact Reports.invalid hmem hrefused

theorem Builds.home {name : Symbol} {d : Declaration} (h : Builds limits modules name d) :
    name.module ∈ modules.map Source.Module.name := by
  rcases h with ⟨_, entry, _, _, hat, rfl, _⟩
  exact Collection.home_of_mem (List.mem_of_getElem? hat)

/-- Problems are reported under modules that declare types, as problems of declarations. -/
theorem Reports.home (hr : ofModules limits depth modules = some r) {item : String × Problem}
    (h : Reports limits depth modules r item) :
    item.1 ∈ modules.map Source.Module.name ∧ exists error, item.2 = .decl error := by
  cases h with
  | unlisted hmem =>
      rcases Collection.home_of_problem hmem with ⟨hhome, error, herror, _⟩
      exact ⟨hhome, error, herror⟩
  | unbuilt hlisted hrefused =>
      refine ⟨Collection.home_of_mem (List.mem_of_getElem? hlisted), ?_⟩
      rcases Entry.build_error hrefused with ⟨error, herror, _⟩ | ⟨detail, rfl⟩
      · exact ⟨error, herror⟩
      · exact ⟨_, rfl⟩
  | circular hbuilds _ _ => exact ⟨hbuilds.home, _, rfl⟩
  | invalid hregistered _ => exact ⟨(builds_of_mem hr hregistered).home, _, rfl⟩

end Registration

/-!
## Data types
-/

namespace DataTable

variable {ids : DataIds} {items : List (Symbol × Declaration)} {name : Symbol}

def Tags (items : List (Symbol × Declaration)) (name : Symbol) : Prop :=
  exists d, (name, d) ∈ items ∧ d.data ≠ none

theorem Tags.cons {item : Symbol × Declaration} (h : Tags items name) :
    Tags (item :: items) name := by
  rcases h with ⟨d, hd, htag⟩
  exact ⟨d, List.mem_cons_of_mem _ hd, htag⟩

theorem assignIds_tags :
    (forall id, Table.get? (assignIds ids items).1 name = some id ->
      Table.get? ids name = some id ∨ Tags items name) ∧
      forall error, (name, error) ∈ (assignIds ids items).2 -> Tags items name := by
  induction items generalizing ids with
  | nil =>
      constructor
      · exact fun id h => Or.inl h
      · exact fun error h => by cases h
  | cons item rest ih =>
      rcases item with ⟨first, d⟩
      rw [assignIds]
      cases htag : d.data with
      | none =>
          constructor
          · exact fun id h => (ih.left id h).imp_right Tags.cons
          · exact fun error h => (ih.right error h).cons
      | some given =>
          have hhere : Tags ((first, d) :: rest) first :=
            ⟨d, List.mem_cons_self, by rw [htag]; exact Option.some_ne_none given⟩
          dsimp only
          cases refusal? ids given d with
          | some fault =>
              constructor
              · exact fun id h => (ih.left id h).imp_right Tags.cons
              · intro error h
                rcases List.mem_cons.mp h with heq | hmem
                · cases heq
                  exact hhere
                · exact (ih.right error hmem).cons
          | none =>
              constructor
              · intro id h
                rcases ih.left id h with hput | hrest
                · rw [Table.get?_put] at hput
                  split at hput
                  · rename_i hname
                    exact Or.inr (hname ▸ hhere)
                  · exact Or.inl hput
                · exact Or.inr hrest.cons
              · exact fun error h => (ih.right error h).cons

theorem deriveSchemas_problem {error : DataError}
    (h : (name, error) ∈ (deriveSchemas ids items).2) :
    exists id, Table.get? ids name = some id := by
  induction items with
  | nil => cases h
  | cons item rest ih =>
      rcases item with ⟨first, d⟩
      rw [deriveSchemas] at h
      dsimp only at h
      split at h
      · exact ih h
      · rename_i id hid
        split at h
        · exact ih h
        · rcases List.mem_cons.mp h with heq | hmem
          · cases heq
            exact ⟨id, hid⟩
          · exact ih hmem

theorem tags_of_problem {registry : Registry} {error : DataError}
    (h : (name, error) ∈ (ofRegistry registry).2) : Tags registry name := by
  rcases List.mem_append.mp h with hassigned | hderived
  · exact assignIds_tags.right error hassigned
  · rcases deriveSchemas_problem hderived with ⟨id, hid⟩
    rcases assignIds_tags.left id hid with hnone | htags
    · cases hnone
    · exact htags

end DataTable
end TypeChecker
