import TypeChecker.Core
import TypeChecker.Proofs.Registry.Reports

/-!
# Registered declarations and their validity

A declaration whose types cannot be read is reported as invalid and left out. One that is
found invalid later, against the finished registry, is reported as well, but stays. So the
registered declarations are valid just if nothing that was reported as invalid is left.
-/

namespace TypeChecker

theorem Symbol.eq_of_text_eq {a b : Symbol} (hmodule : a.module = b.module)
    (htext : a.text = b.text) : a = b := by
  rcases a with ⟨module, name⟩
  rcases b with ⟨module', other⟩
  cases hmodule
  rw [Symbol.mk.injEq]
  refine ⟨rfl, ?_⟩
  unfold Symbol.text Symbol.isCore at htext
  dsimp only at htext
  split at htext
  · exact htext
  · have hlist := congrArg String.toList htext
    simp only [String.toList_append, List.append_cancel_left_eq] at hlist
    exact String.toList_inj.mp hlist

/-!
## Registered names

Every name is registered once, under the entry that was built for it.
-/

theorem Entry.ordered_buildFrom {entries : List Entry} {limits : Limits} {index : Nat}
    {rest : List Entry} :
    Table.Ordered ((buildFrom entries limits index rest).1.map Prod.fst) := by
  induction rest generalizing index with
  | nil => exact List.Pairwise.nil
  | cons entry rest ih =>
      rw [buildFrom]
      dsimp only
      split
      · exact Table.ordered_put ih
      · exact ih

namespace Registration

variable {limits : Limits} {depth : Nat} {modules : List Source.Module} {r : Registration}

theorem ordered_complete (limits : Limits) (modules : List Source.Module) :
    Table.Ordered ((Registry.complete (written limits modules)).map Prod.fst) := by
  rw [Registry.complete, List.map_map]
  exact Entry.ordered_buildFrom

theorem get?_of_mem_registry (h : ofModules limits depth modules = some r) {name : Symbol}
    {d : Declaration} (hd : (name, d) ∈ r.registry) : Table.get? r.registry name = some d := by
  refine Table.get?_of_mem ?_ hd
  rw [registry_eq h]
  exact (ordered_complete limits modules).nodup.sublist
    ((Registry.withoutCircles_sublist _).map Prod.fst)

theorem get?_of_unbuilt (h : ofModules limits depth modules = some r) {k : Nat} {entry : Entry}
    {problem : Problem} (hat : (Collection.ofModules modules).entries[k]? = some entry)
    (hrefused : Entry.build (Collection.ofModules modules).entries limits k entry =
      .error problem) : Table.get? r.registry entry.symbol = none := by
  cases hd : Table.get? r.registry entry.symbol with
  | none => rfl
  | some d =>
      rcases exists_written h hd with ⟨w, hw, _⟩
      rcases built_of_written hw with ⟨j, other, hother, hname, hbuild⟩
      have hlt : j < ((Collection.ofModules modules).entries.map Entry.symbol).length := by
        rw [List.length_map]
        exact (List.getElem?_eq_some_iff.mp hother).choose
      have hsame : j = k := by
        apply (List.getElem?_inj hlt (Collection.wellListed_ofModules modules).distinct).mp
        rw [List.getElem?_map, List.getElem?_map, hother, hat, Option.map_some, hname]
        rfl
      subst hsame
      cases hat.symm.trans hother
      cases hrefused.symm.trans hbuild

/-!
## Declarations reported as invalid
-/

def ReportsInvalid (r : Registration) (name : Symbol) (detail : TypeError) (span : Span) : Prop :=
  (name.module, Problem.decl { value := .invalid name.text detail, span }) ∈ r.problems

/-- A declaration was not built because of a type in it, and is left out. -/
def LeavesOut (limits : Limits) (modules : List Source.Module) (r : Registration) (name : Symbol)
    (detail : TypeError) : Prop :=
  Table.get? r.registry name = none ∧
    exists k entry, (Collection.ofModules modules).entries[k]? = some entry ∧
      entry.symbol = name ∧
      Entry.build (Collection.ofModules modules).entries limits k entry =
        .error (entry.invalid detail)

def KeepsInvalid (limits : Limits) (depth : Nat) (r : Registration) (name : Symbol)
    (detail : TypeError) (span : Span) : Prop :=
  exists d, Table.get? r.registry name = some d ∧ d.span = span ∧
    (d.validate r.registry limits depth name.module).outcome = some (.error detail)

theorem valid_or_reported (h : ofModules limits depth modules = some r) {name : Symbol}
    {d : Declaration} (hd : Table.get? r.registry name = some d) :
    (d.validate r.registry limits depth name.module).outcome = some (.ok ()) ∨
      exists detail,
        (d.validate r.registry limits depth name.module).outcome = some (.error detail) ∧
        r.ReportsInvalid name detail d.span := by
  rcases validated_of_ofModules h with ⟨invalid, hinvalid, rfl⟩
  rcases validated_of_mem hinvalid (Table.mem_of_get? hd) with hok | ⟨detail, hrefused, hmem⟩
  · exact Or.inl hok
  · exact Or.inr ⟨detail, hrefused, List.mem_append_right _ hmem⟩

/-- A problem of this kind was found when a declaration was built, or in its validation. -/
theorem invalid_of_mem (h : ofModules limits depth modules = some r) {module text : String}
    {detail : TypeError} {span : Span}
    (hmem : (module, Problem.decl { value := .invalid text detail, span }) ∈ r.problems) :
    exists name : Symbol, name.module = module ∧ name.text = text ∧
      (LeavesOut limits modules r name detail ∨ KeepsInvalid limits depth r name detail span) := by
  have hr := h
  rcases validated_of_ofModules h with ⟨invalid, hinvalid, rfl⟩
  simp only [unvalidated, List.mem_append] at hmem
  -- problems of listing and circles are of other kinds
  rcases hmem with ((hlisting | hbuilding) | hcircle) | hvalidation
  · rcases Collection.home_of_problem hlisting with ⟨_, error, herror, hfault⟩
    cases herror
    cases hfault
  · rcases Entry.buildFrom_problem hbuilding with ⟨k, entry, hat, hmodule, hbuild⟩
    rw [Nat.zero_add] at hbuild
    rcases Entry.build_error hbuild with ⟨error, herror, hfault⟩ | ⟨reason, hreason⟩
    · cases herror
      cases hfault
    · cases hreason
      exact ⟨entry.symbol, hmodule.symm, rfl,
        Or.inl ⟨get?_of_unbuilt hr hat hbuild, k, entry, hat, rfl, hbuild⟩⟩
  · rcases Registry.circleProblems_mem hcircle with ⟨_, _, _, error, _, heq, hfault, _⟩
    cases heq
    cases hfault
  · rcases validationProblems_mem hinvalid hvalidation with ⟨name, d, reason, hd, heq, hrefused⟩
    cases heq
    exact ⟨name, rfl, rfl, Or.inr ⟨d, get?_of_mem_registry hr hd, rfl, hrefused⟩⟩

end Registration

/-- Every registered declaration is valid or reported with what is wrong with it. Of the
declarations that are reported as invalid, those that were not built are left out and the
others are kept. So all registered declarations are valid just if all that are reported as
invalid are left out. -/
theorem registered_valid_iff_invalid_left_out {limits : Limits} {depth : Nat}
    {modules : List Source.Module} {r : Registration}
    (h : Registration.ofModules limits depth modules = some r) :
    (forall name d, Table.get? r.registry name = some d ->
      (d.validate r.registry limits depth name.module).outcome = some (.ok ()) ∨
        exists detail,
          (d.validate r.registry limits depth name.module).outcome = some (.error detail) ∧
          r.ReportsInvalid name detail d.span) ∧
    (forall name detail span, r.ReportsInvalid name detail span ->
      r.LeavesOut limits modules name detail ∨ r.KeepsInvalid limits depth name detail span) ∧
    ((forall name d, Table.get? r.registry name = some d ->
        (d.validate r.registry limits depth name.module).outcome = some (.ok ())) ↔
      forall name detail span, r.ReportsInvalid name detail span ->
        Table.get? r.registry name = none) := by
  have hreported : forall name detail span, r.ReportsInvalid name detail span ->
      r.LeavesOut limits modules name detail ∨
        r.KeepsInvalid limits depth name detail span := by
    intro name detail span hreports
    rcases Registration.invalid_of_mem h hreports with ⟨other, hmodule, htext, hwhy⟩
    cases Symbol.eq_of_text_eq hmodule htext
    exact hwhy
  constructor
  · exact fun name d => Registration.valid_or_reported h
  constructor
  · exact hreported
  constructor
  · intro hvalid name detail span hreports
    rcases hreported name detail span hreports with hout | ⟨d, hd, _, hrefused⟩
    · exact hout.left
    · cases (hvalid name d hd).symm.trans hrefused
  · intro hout name d hd
    rcases Registration.valid_or_reported h hd with hok | ⟨detail, _, hreports⟩
    · exact hok
    · cases hd.symm.trans (hout name detail d.span hreports)

def Problem.invalid? : Problem -> Option String
  | .decl error =>
      match error.value with
      | .invalid text _ => some text
      | _ => none
  | _ => none

def unreadableModules : List Source.Module :=
  [{ name := "Main"
     types := [
      .boxed { name := { name := "Lost" } }
        { inner := some { value := .ref { name := "Missing" } [] } },
      .boxed { name := { name := "Num" } }
        { inner := some { value := .ref { name := "Int" } [] } }] }]

/-- `Lost` is reported and left out, and what stays is valid. -/
theorem unreadable_box_left_out :
    exists r, Registration.ofModules {} 4 (Core.module :: unreadableModules) = some r ∧
      r.problems.map (fun item => (item.1, item.2.invalid?)) =
        [("Main", some "Main::Lost")] ∧
      Table.get? r.registry ⟨"Main", "Lost"⟩ = none ∧
      Table.contains r.registry ⟨"Main", "Num"⟩ = true ∧
      forall name d, Table.get? r.registry name = some d ->
        (d.validate r.registry {} 4 name.module).outcome = some (.ok ()) := by
  have hcheck : (Registration.ofModules {} 4 (Core.module :: unreadableModules)).map (fun r =>
      (Table.contains r.registry ⟨"Main", "Lost"⟩,
        Table.contains r.registry ⟨"Main", "Num"⟩,
        r.problems.map fun item => (item.1, item.2.invalid?))) =
      some (false, true, [("Main", some "Main::Lost")]) := by decide +kernel
  rcases Option.map_eq_some_iff.mp hcheck with ⟨r, hr, heq⟩
  rcases Prod.mk.inj heq with ⟨hlost, heq⟩
  rcases Prod.mk.inj heq with ⟨hnum, hnamed⟩
  have hlost : Table.get? r.registry ⟨"Main", "Lost"⟩ = none := by
    simpa [Table.contains] using hlost
  rcases registered_valid_iff_invalid_left_out hr with ⟨_, _, hvalid⟩
  refine ⟨r, hr, hnamed, hlost, hnum, hvalid.mpr ?_⟩
  intro name detail span hreports
  have hitem := List.mem_map_of_mem (f := fun item => (item.1, item.2.invalid?)) hreports
  rw [hnamed] at hitem
  rcases Prod.mk.inj (List.mem_singleton.mp hitem) with ⟨hmodule, htext⟩
  have hshown : "Main::Lost" = (⟨"Main", "Lost"⟩ : Symbol).text := by decide +kernel
  have hname : name = ⟨"Main", "Lost"⟩ :=
    Symbol.eq_of_text_eq hmodule ((Option.some.inj htext).trans hshown)
  rw [hname]
  exact hlost

def misusedModules : List Source.Module :=
  [{ name := "Main"
     types := [
      .boxed { name := { name := "Sink" }, params := [{ name := { name := "-T" } }] }
        { inner := some { value := .ref { name := "T" } [] } }] }]

/-- `Sink` is reported as invalid, and stays registered. -/
theorem misused_box_stays :
    exists r d detail, Registration.ofModules {} 4 (Core.module :: misusedModules) = some r ∧
      Table.get? r.registry ⟨"Main", "Sink"⟩ = some d ∧
      (d.validate r.registry {} 4 "Main").outcome = some (.error detail) ∧
      r.ReportsInvalid ⟨"Main", "Sink"⟩ detail d.span := by
  have hcheck : (Registration.ofModules {} 4 (Core.module :: misusedModules)).bind (fun r =>
      (Table.get? r.registry ⟨"Main", "Sink"⟩).map fun d =>
        (d.validate r.registry {} 4 "Main").outcome.map Except.isOk) = some (some false) := by
    decide +kernel
  rcases Option.bind_eq_some_iff.mp hcheck with ⟨r, hr, heq⟩
  rcases Option.map_eq_some_iff.mp heq with ⟨d, hd, hrefused⟩
  rcases Registration.valid_or_reported hr hd with hok | ⟨detail, hwhy, hreports⟩
  · have hok : (d.validate r.registry {} 4 "Main").outcome = some (.ok ()) := hok
    rw [hok] at hrefused
    cases hrefused
  · exact ⟨r, d, detail, hr, hd, hwhy, hreports⟩

end TypeChecker
