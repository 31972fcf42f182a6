import TypeChecker.Core
import TypeChecker.Proofs.Registry.Reports

/-!
# The core types register cleanly

The declarations of the core module mention no other declarations, so that nothing
another module declares can make them fail. Only the limit on the cases of a union can:
`Bool` and `Maybe` have two.
-/

namespace TypeChecker

/-!
## Plain declarations
-/

def Ty.isPlainInner (params : List Param) : Ty -> Bool
  | .unit => true
  | .param index _ => (Variance.misused params (Variance.single params.length index)).isEmpty
  | _ => false

theorem Ty.isPlainInner_iff {params : List Param} {t : Ty} :
    t.isPlainInner params = true <-> t = .unit ∨ exists index inferring,
      t = .param index inferring ∧
        Variance.misused params (Variance.single params.length index) = [] := by
  cases t <;> simp [isPlainInner]

theorem Ty.named?_plain {params : List Param} {t : Ty} (h : t.isPlainInner params = true) :
    t.named? = none := by
  rcases isPlainInner_iff.mp h with rfl | ⟨_, _, rfl, _⟩ <;> rfl

theorem Ty.complete_plain {registry : Registry} {params : List Param} {t : Ty}
    (h : t.isPlainInner params = true) : t.complete registry = t := by
  rcases isPlainInner_iff.mp h with rfl | ⟨_, _, rfl, _⟩ <;> rw [Ty.complete]

theorem Variance.misused_plain {registry : Registry} {params : List Param} {t : Ty}
    (h : t.isPlainInner params = true) :
    misused params (usage registry params.length t) = [] := by
  rcases Ty.isPlainInner_iff.mp h with rfl | ⟨_, _, rfl, hfine⟩
  · rw [misused, List.map_eq_nil_iff, List.filter_eq_nil_iff]
    rintro ⟨p, v⟩ hitem
    have hv : v = .bivariant := List.eq_of_mem_replicate (List.of_mem_zip hitem).right
    rw [hv]
    cases p.variance <;> simp [Variance.allows]
  · exact hfine

namespace Entry

def plainInner? (entry : Entry) (decl : Source.BoxedDecl) : Option Ty :=
  match decl.inner with
  | none => some .unit
  | some ⟨.ref name [], _⟩ =>
      TypeScope.bareType?
        { module := entry.symbol.module
          params := entry.params.map Param.name
          arities := fun _ => none
          limits := {} } name
  | some _ => none

def isPlain (entry : Entry) : Bool :=
  entry.decl.head.tags.isEmpty &&
    entry.decl.head.params.all (fun param => param.bound.isNone && param.default.isNone) &&
    match entry.decl with
    | .boxed _ decl => (entry.plainInner? decl).any (Ty.isPlainInner entry.params)
    | _ => true

theorem readParamTypes_plain {scope : TypeScope} {index : Nat} {sofar : ParamTypes}
    {params : List Source.ParamDecl}
    (h : params.all (fun param => param.bound.isNone && param.default.isNone) = true) :
    readParamTypes scope index sofar params = .ok sofar := by
  induction params generalizing index with
  | nil => rfl
  | cons param params ih =>
      rw [List.all_cons, Bool.and_eq_true, Bool.and_eq_true, Option.isNone_iff_eq_none,
        Option.isNone_iff_eq_none] at h
      rcases h with ⟨⟨hbound, hdefault⟩, hrest⟩
      rw [readParamTypes, hbound, hdefault]
      exact ih hrest

theorem readDefinition_plain {entry : Entry} {entries : List Entry} {index : Nat}
    {arities : Arities} {limits : Limits} {head : Source.TypeHead} {decl : Source.BoxedDecl}
    {inner : Ty} (h : entry.plainInner? decl = some inner) :
    readDefinition
        { module := entry.symbol.module
          params := entry.params.map Param.name
          arities := arities
          limits := limits } entries index (.boxed head decl) =
      .ok (.boxed
        { inner := inner, implicit := decl.implicit, weak := decl.weak, guarded := decl.guarded
          hidden := decl.hidden }) := by
  unfold plainInner? at h
  rw [readDefinition]
  split at h
  · rename_i hnone
    cases h
    rw [hnone]
    rfl
  · rename_i name span hwritten
    rw [hwritten]
    have hbare : TypeScope.bareType?
        { module := entry.symbol.module
          params := entry.params.map Param.name
          arities := arities
          limits := limits } name = some inner := h
    simp only [TypeScope.read, TypeScope.convert, List.isEmpty_nil, if_true, hbare]
    rfl
  · cases h

end Entry

/-- A declaration that stands for itself: it has no bounds, is not tagged, and is native,
a union of `cases`, or a box around a plain type. -/
structure Declaration.IsPlain (cases : List Case) (d : Declaration) : Prop where
  untagged : d.data = none
  unbounded : d.bounds = {}
  definition : d.definition = .native ∨ d.definition = .union cases ∨
    exists boxed, d.definition = .boxed boxed ∧ boxed.inner.isPlainInner d.params = true

theorem Entry.build_plain {entries : List Entry} {limits : Limits} {index : Nat} {entry : Entry}
    (h : entry.isPlain = true) :
    exists d, build entries limits index entry = .ok d ∧ d.params = entry.params ∧
      d.IsPlain (casesOf entries index) := by
  unfold isPlain at h
  rw [Bool.and_eq_true, Bool.and_eq_true, List.isEmpty_iff] at h
  rcases h with ⟨⟨htags, hparams⟩, hdefinition⟩
  unfold build
  dsimp only
  rw [htags, readParamTypes_plain hparams]
  cases hdecl : entry.decl with
  | union head cases => exact ⟨_, rfl, rfl, rfl, rfl, Or.inr (Or.inl rfl)⟩
  | native head => exact ⟨_, rfl, rfl, rfl, rfl, Or.inl rfl⟩
  | boxed head decl =>
      rw [hdecl] at hdefinition
      rcases (Option.any_eq_true _ _).mp hdefinition with ⟨inner, hread, hinner⟩
      rw [readDefinition_plain hread]
      exact ⟨_, rfl, rfl, rfl, rfl, Or.inr (Or.inr ⟨_, rfl, hinner⟩)⟩

namespace Declaration

variable {registry : Registry} {cases : List Case} {d : Declaration}

theorem IsPlain.complete (h : d.IsPlain cases) : (d.complete registry).IsPlain cases := by
  constructor
  · exact h.untagged
  · show ({ lower := d.bounds.lower.map _, upper := d.bounds.upper.map _ } : Bounds) = {}
    rw [h.unbounded]
    rfl
  · rcases h.definition with hnative | hunion | ⟨boxed, hboxed, hinner⟩
    · left
      rw [Declaration.complete, hnative]
    · right
      left
      rw [Declaration.complete, hunion]
    · right
      right
      refine ⟨{ boxed with inner := boxed.inner.complete registry }, ?_, ?_⟩
      · rw [Declaration.complete, hboxed]
      · show (boxed.inner.complete registry).isPlainInner d.params = true
        rw [Ty.complete_plain hinner]
        exact hinner

theorem requireCases_ok {agrees : Declaration -> List Nat -> Bool}
    {fault : String -> String -> TypeFault}
    (h : forall case, case ∈ cases -> forall d, Table.get? registry case.name = some d ->
      agrees d case.params = true) : requireCases registry agrees fault cases = .ok () := by
  induction cases with
  | nil => rfl
  | cons case rest ih =>
      rcases List.forall_mem_cons.mp h with ⟨hcase, hrest⟩
      rw [requireCases]
      cases hd : Table.get? registry case.name with
      | none => exact ih hrest
      | some d =>
          simp only [hcase d hd, Bool.not_true, Bool.false_eq_true, if_false]
          exact ih hrest

theorem validateDefinition_plain {limits : Limits} (h : d.IsPlain cases)
    (hcount : cases.length ≤ limits.maxCases)
    (hcases : forall case, case ∈ cases -> forall c, Table.get? registry case.name = some c ->
      d.caseVarianceAgrees c case.params = true) :
    d.validateDefinition registry limits = .ok () := by
  unfold validateDefinition
  rcases h.definition with hnative | hunion | ⟨boxed, hboxed, hinner⟩
  · rw [hnative]
    rfl
  · have hfew : Nat.blt limits.maxCases cases.length = false := by
      rw [Bool.eq_false_iff, Ne, Nat.blt_eq]
      exact Nat.not_lt.mpr hcount
    rw [hunion]
    dsimp only
    rw [hfew]
    exact requireCases_ok hcases
  · have hfine : Variance.misused d.params
        (Variance.usage registry d.arity boxed.inner) = [] := Variance.misused_plain hinner
    rw [hboxed]
    dsimp only
    rw [hfine]
    rcases Ty.isPlainInner_iff.mp hinner with hform | ⟨_, _, hform, _⟩ <;> rw [hform] <;> rfl

theorem checkDefinitionBounds_plain (h : d.IsPlain cases)
    (hcases : forall case, case ∈ cases -> forall c, Table.get? registry case.name = some c ->
      d.caseBoundsAgree c case.params = true) (depth : Nat) (module : String) :
    (d.checkDefinitionBounds
      { module, registry, params := d.params, bounds := d.bounds } depth).outcome =
        some (.ok ()) := by
  unfold checkDefinitionBounds
  rcases h.definition with hnative | hunion | ⟨boxed, hboxed, hinner⟩
  · rw [hnative]
    rfl
  · rw [hunion]
    exact congrArg some (requireCases_ok hcases)
  · rw [hboxed]
    dsimp only
    rcases Ty.isPlainInner_iff.mp hinner with hform | ⟨_, _, hform, _⟩ <;> rw [hform] <;> rfl

/-- A plain declaration is valid if its cases are few enough and agree with it. -/
theorem validate_plain {limits : Limits} (h : d.IsPlain cases)
    (hcount : cases.length ≤ limits.maxCases)
    (hcases : forall case, case ∈ cases -> forall c, Table.get? registry case.name = some c ->
      d.caseVarianceAgrees c case.params = true ∧ d.caseBoundsAgree c case.params = true)
    (depth : Nat) (module : String) :
    (d.validate registry limits depth module).outcome = some (.ok ()) := by
  have hshape : d.validateDefinition registry limits = .ok () :=
    validateDefinition_plain h hcount fun case hcase c hc => (hcases case hcase c hc).left
  have hinside := checkDefinitionBounds_plain h
    (fun case hcase c hc => (hcases case hcase c hc).right) depth module
  unfold validate
  dsimp only
  rw [hshape]
  refine judge_bind_ok.mpr ⟨(), rfl, ?_⟩
  rw [h.unbounded] at hinside ⊢
  exact judge_bind_ok.mpr ⟨(), rfl, judge_bind_ok.mpr ⟨(), rfl, hinside⟩⟩

theorem caseBoundsAgree_of_unbounded {c : Declaration} (hd : d.bounds = {}) (hc : c.bounds = {})
    (params : List Nat) : d.caseBoundsAgree c params = true := by
  unfold caseBoundsAgree
  rw [hd, hc, List.all_eq_true]
  intro item _
  rfl

end Declaration

/-!
## The core module
-/

namespace Core

def entries : List Entry := (Collection.ofModules [Core.module]).entries

theorem entries_home {entry : Entry} (h : entry ∈ entries) : entry.symbol.module = coreModule :=
  List.mem_singleton.mp (Collection.home_of_mem h)

def casesAgree (k : Nat) (union : Entry) : Bool :=
  (Entry.casesOf entries k).all fun case => entries.all fun entry =>
    entry.symbol != case.name ||
      Declaration.caseVarianceAgrees { params := union.params, definition := .native }
        { params := entry.params, definition := .native } case.params

theorem entries_plain : entries.all Entry.isPlain = true := by decide +kernel

theorem entries_agree : entries.zipIdx.all (fun item =>
    decide ((Entry.casesOf entries item.2).length ≤ 2) && casesAgree item.2 item.1) = true := by
  decide +kernel

variable {modules : List Source.Module} {limits : Limits} {depth : Nat} {r : Registration}
  (hfree : forall m, m ∈ modules -> m.name ≠ coreModule)

include hfree

omit hfree in
theorem collected (modules : List Source.Module) :
    exists added, (Collection.ofModules (Core.module :: modules)).entries = entries ++ added ∧
      forall entry, entry ∈ added -> entry.symbol.module ∈ modules.map Source.Module.name :=
  (Collection.ofModules_cons_extends Core.module modules).entries

theorem entry_of_home {k : Nat} {entry : Entry}
    (h : (Collection.ofModules (Core.module :: modules)).entries[k]? = some entry)
    (hhome : entry.symbol.module = coreModule) : entries[k]? = some entry := by
  rcases collected modules with ⟨added, hadded, hhomes⟩
  rw [hadded] at h
  rcases Nat.lt_or_ge k entries.length with hlt | hge
  · rwa [List.getElem?_append_left hlt] at h
  · rw [List.getElem?_append_right hge] at h
    rcases List.mem_map.mp (hhomes entry (List.mem_of_getElem? h)) with ⟨m, hm, hname⟩
    exact absurd (hname.trans hhome) (hfree m hm)

theorem casesOf_eq {k : Nat} (hk : k < entries.length) :
    Entry.casesOf (Collection.ofModules (Core.module :: modules)).entries k =
      Entry.casesOf entries k := by
  have hlisted := Collection.wellListed_ofModules (Core.module :: modules)
  rcases collected modules with ⟨added, hadded, hhomes⟩
  have hnone : Entry.casesOf added k = [] := by
    apply List.eq_nil_iff_forall_not_mem.mpr
    intro case hcase
    rcases Entry.mem_casesOf.mp hcase with ⟨entry, owner, hentry, howner, rfl, _⟩
    have hmem : entry ∈ (Collection.ofModules (Core.module :: modules)).entries := by
      rw [hadded]
      exact List.mem_append_right _ hentry
    rcases hlisted.owned entry hmem owner howner with ⟨union, hunion, _, hmodule, _⟩
    rw [hadded, List.getElem?_append_left hk] at hunion
    have hcore := entries_home (List.mem_of_getElem? hunion)
    rcases List.mem_map.mp (hhomes entry hentry) with ⟨m, hm, hname⟩
    exact hfree m hm (hname.trans (hmodule.symm.trans hcore))
  rw [hadded]
  show Entry.casesOf (entries ++ added) k = Entry.casesOf entries k
  unfold Entry.casesOf at hnone ⊢
  rw [List.filterMap_append, hnone, List.append_nil]

theorem builds_core {name : Symbol} {d : Declaration}
    (h : Registration.Builds limits (Core.module :: modules) name d)
    (hhome : name.module = coreModule) :
    exists k entry, entries[k]? = some entry ∧ entry.symbol = name ∧ d.params = entry.params ∧
      d.IsPlain (Entry.casesOf entries k) := by
  rcases h with ⟨k, entry, written, built, hat, rfl, hbuild, rfl⟩
  have hown := entry_of_home hfree hat hhome
  have hplain := List.all_eq_true.mp entries_plain entry (List.mem_of_getElem? hown)
  rcases Entry.build_plain hplain with ⟨d, hd, hparams, hisPlain⟩
  cases hd.symm.trans hbuild
  rw [casesOf_eq hfree (List.getElem?_eq_some_iff.mp hown).choose] at hisPlain
  exact ⟨k, entry, hown, rfl, hparams, hisPlain.complete⟩

theorem untagged (hr : Registration.ofModules limits depth (Core.module :: modules) = some r)
    {name : Symbol} (hhome : name.module = coreModule) : ¬ DataTable.Tags r.registry name := by
  rintro ⟨d, hd, htag⟩
  rcases builds_core hfree (Registration.builds_of_mem hr hd) hhome with ⟨_, _, _, _, _, hplain⟩
  exact htag hplain.untagged

theorem validates (hr : Registration.ofModules limits depth (Core.module :: modules) = some r)
    (hlimit : 2 ≤ limits.maxCases) {name : Symbol} {d : Declaration}
    (hd : (name, d) ∈ r.registry) (hhome : name.module = coreModule) :
    (d.validate r.registry limits depth name.module).outcome = some (.ok ()) := by
  rcases builds_core hfree (Registration.builds_of_mem hr hd) hhome with
    ⟨k, union, hunion, _, hparams, hplain⟩
  have hagree := List.all_eq_true.mp entries_agree (union, k)
    (List.mem_zipIdx_iff_getElem?.mpr hunion)
  rw [Bool.and_eq_true, decide_eq_true_eq] at hagree
  refine Declaration.validate_plain hplain (Nat.le_trans hagree.left hlimit) ?_ depth name.module
  intro case hcase c hc
  have hcore : case.name.module = coreModule := by
    rcases Entry.mem_casesOf.mp hcase with ⟨entry, _, hentry, _, _, rfl⟩
    exact entries_home hentry
  rcases builds_core hfree (Registration.builds_of_mem hr (Table.mem_of_get? hc)) hcore with
    ⟨_, entry, hentry, hname, hcparams, hcplain⟩
  constructor
  · have hsame := List.all_eq_true.mp (List.all_eq_true.mp hagree.right case hcase) entry
      (List.mem_of_getElem? hentry)
    rw [hname] at hsame
    simp only [bne_self_eq_false, Bool.false_or] at hsame
    unfold Declaration.caseVarianceAgrees at hsame ⊢
    rw [hparams, hcparams]
    exact hsame
  · exact Declaration.caseBoundsAgree_of_unbounded hplain.unbounded hcplain.unbounded case.params

/-- Where unions may have two cases, nothing is wrong with the core types. -/
theorem not_reported (hr : Registration.ofModules limits depth (Core.module :: modules) = some r)
    (hlimit : 2 ≤ limits.maxCases) {item : String × Problem} (hitem : item ∈ r.problems) :
    item.1 ≠ coreModule := by
  intro hhome
  cases Registration.reports_of_mem hr hitem with
  | unlisted hmem =>
      rcases (Collection.ofModules_cons_extends Core.module modules).problems with
        ⟨added, hadded, hhomes⟩
      have hclean : (Collection.ofModules [Core.module]).problems.isEmpty = true := by
        decide +kernel
      rw [hadded, List.isEmpty_iff.mp hclean, List.nil_append] at hmem
      rcases List.mem_map.mp (hhomes item hmem).left with ⟨m, hm, hname⟩
      exact hfree m hm (hname.trans hhome)
  | unbuilt hlisted hrefused =>
      have hown := entry_of_home hfree hlisted hhome
      have hplain := List.all_eq_true.mp entries_plain _ (List.mem_of_getElem? hown)
      rcases Entry.build_plain hplain with ⟨d, hd, _⟩
      cases hd.symm.trans hrefused
  | circular hbuilds hbox hnamed =>
      rcases builds_core hfree hbuilds hhome with ⟨_, _, _, _, _, hplain⟩
      have hbox := Declaration.boxed?_eq_some.mp hbox
      rcases hplain.definition with hnative | hunion | ⟨boxed, hboxed, hinner⟩
      · cases hnative.symm.trans hbox
      · cases hunion.symm.trans hbox
      · cases hboxed.symm.trans hbox
        exact hnamed (Ty.named?_plain hinner)
  | invalid hregistered hrefused =>
      cases (validates hfree hr hlimit hregistered hhome).symm.trans hrefused

end Core
end TypeChecker
