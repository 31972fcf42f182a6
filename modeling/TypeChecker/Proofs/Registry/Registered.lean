import TypeChecker.Proofs.Registry.Circles
import TypeChecker.Proofs.Registry.Collected
import TypeChecker.Proofs.Registry.Completing
import TypeChecker.Proofs.Registry.Reading
import TypeChecker.Registry.Register

/-!
# Registries made without problems

If no problem was found with the declarations of a program, all of them are
registered, and the registry is lawful: stored types mention declared names only,
parameters have a variance, defaults belong to parameters, and inner types use the
parameters as declared.
-/

namespace TypeChecker

/-!
## Built declarations
-/

namespace Entry

variable {registry : Registry} {entries : List Entry} {limits : Limits}

/-- The bounds and defaults of the parameters before `limit` were read in a scope. -/
structure ParamTypes.Settled (scope : TypeScope) (limit : Nat) (types : ParamTypes) : Prop where
  lower : forall item, item ∈ types.bounds.lower -> exists expr, scope.read expr = .ok item.2
  upper : forall item, item ∈ types.bounds.upper -> exists expr, scope.read expr = .ok item.2
  defaults : forall item, item ∈ types.defaults ->
    item.1 < limit ∧ exists expr, scope.read expr = .ok item.2

theorem settled_readBound {scope : TypeScope} {index : Nat}
    {types : ParamTypes} {written : Option (Source.BoundSide × Source.TypeExpr)} {bounds : Bounds}
    (htypes : types.Settled scope index)
    (h : readBound scope index types.bounds written = .ok bounds) :
    ParamTypes.Settled scope index { types with bounds := bounds } := by
  cases written with
  | none =>
      cases h
      exact htypes
  | some bound =>
      rcases bound with ⟨side, expr⟩
      rw [readBound] at h
      rcases except_bind_ok.mp h with ⟨t, ht, h⟩
      have hput : forall map : TypeMap,
          (forall item, item ∈ map -> exists expr, scope.read expr = .ok item.2) ->
          forall item, item ∈ Table.put index t map ->
            exists expr, scope.read expr = .ok item.2 := by
        intro map hmap item hitem
        rcases Table.mem_put hitem with rfl | hitem
        · exact ⟨expr, ht⟩
        · exact hmap item hitem
      dsimp only at h
      split at h
      · cases h
      · cases side with
        | above =>
            cases h
            exact { htypes with lower := hput _ htypes.lower }
        | below =>
            cases h
            exact { htypes with upper := hput _ htypes.upper }

theorem settled_readParamTypes {scope : TypeScope} {index : Nat} {sofar types : ParamTypes}
    {params : List Source.ParamDecl} (hsofar : sofar.Settled scope index)
    (h : readParamTypes scope index sofar params = .ok types) :
    types.Settled scope (index + params.length) := by
  induction params generalizing index sofar with
  | nil =>
      cases h
      exact hsofar
  | cons param params ih =>
      rw [readParamTypes] at h
      rcases except_bind_ok.mp h with ⟨bounds, hbounds, h⟩
      have hbounded := settled_readBound hsofar hbounds
      have hold : forall item, item ∈ sofar.defaults ->
          item.1 < index + 1 ∧ exists expr, scope.read expr = .ok item.2 := by
        intro item hitem
        rcases hsofar.defaults item hitem with ⟨hlt, hread⟩
        exact ⟨Nat.lt_succ_of_lt hlt, hread⟩
      rw [List.length_cons, show index + (params.length + 1) = index + 1 + params.length by omega]
      dsimp only at h
      split at h
      · exact ih ⟨hbounded.lower, hbounded.upper, hold⟩ h
      · rename_i written _
        rcases except_bind_ok.mp h with ⟨t, ht, h⟩
        rw [pure_bind] at h
        refine ih ?_ h
        refine ⟨hbounded.lower, hbounded.upper, ?_⟩
        intro item hitem
        rcases Table.mem_put hitem with rfl | hitem
        · exact ⟨Nat.lt_succ_self index, written, ht⟩
        · exact hold item hitem

def scope (entries : List Entry) (limits : Limits) (entry : Entry) : TypeScope where
  module := entry.symbol.module
  params := entry.params.map Param.name
  arities := arities entries
  limits := limits

/-- The types a declaration is built with are read from the entry; a box declared without
an inner type holds unit. -/
theorem build_types {index : Nat} {entry : Entry} {d : Declaration}
    (h : build entries limits index entry = .ok d) :
    (forall item, item ∈ d.defaults -> item.1 < entry.decl.head.params.length) ∧
      forall t, t ∈ d.types ->
        t = .unit ∨ exists expr, (entry.scope entries limits).read expr = .ok t := by
  unfold build at h
  dsimp only at h
  rcases except_bind_ok.mp h with ⟨data, _, h⟩
  rcases except_bind_ok.mp h with ⟨types, htypes, h⟩
  rcases except_bind_ok.mp h with ⟨definition, hdefinition, h⟩
  cases h
  have hsettled : types.Settled (entry.scope entries limits) (0 + entry.decl.head.params.length) :=
    settled_readParamTypes (ParamTypes.Settled.mk (by simp) (by simp) (by simp))
      (except_mapError_ok.mp htypes)
  rw [Nat.zero_add] at hsettled
  refine ⟨fun item hitem => (hsettled.defaults item hitem).left, ?_⟩
  intro t ht
  rcases Declaration.mem_types.mp ht with ⟨_, hitem⟩ | ⟨_, hitem⟩ | ⟨_, hitem⟩ |
    ⟨boxed, hboxed, rfl⟩
  · exact Or.inr (hsettled.lower _ hitem)
  · exact Or.inr (hsettled.upper _ hitem)
  · exact Or.inr (hsettled.defaults _ hitem).right
  · have hread := except_mapError_ok.mp hdefinition
    cases hdecl : entry.decl with
    | union head cases =>
        rw [hdecl] at hread
        cases hread
        cases hboxed
    | native head =>
        rw [hdecl] at hread
        cases hread
        cases hboxed
    | boxed head decl =>
        rw [hdecl, readDefinition] at hread
        dsimp only at hread
        split at hread
        · cases hread
          cases hboxed
          exact Or.inl rfl
        · rename_i written _
          rcases except_bind_ok.mp hread with ⟨inner, hinner, hread⟩
          cases hread
          cases hboxed
          exact Or.inr ⟨written, hinner⟩

theorem within_scope (hentries : forall entry, entry ∈ entries ->
      Table.contains registry entry.symbol = true) (entry : Entry) :
    (entry.scope entries limits).Within registry := by
  intro name range hrange
  rcases Option.map_eq_some_iff.mp hrange with ⟨other, hfind, _⟩
  have hname := List.find?_some hfind
  rw [<- of_decide_eq_true hname]
  exact hentries other (List.mem_of_find?_eq_some hfind)

theorem build_fields {index : Nat} {entry : Entry} {d : Declaration}
    (h : build entries limits index entry = .ok d) :
    d.params = entry.params ∧ d.memberOf = membership? entries entry ∧
      (entry.isUnion = true -> d.definition = .union (casesOf entries index)) := by
  unfold build at h
  dsimp only at h
  rcases except_bind_ok.mp h with ⟨data, _, h⟩
  rcases except_bind_ok.mp h with ⟨types, _, h⟩
  rcases except_bind_ok.mp h with ⟨definition, hdefinition, h⟩
  cases h
  refine ⟨rfl, rfl, ?_⟩
  intro hunion
  have hread := except_mapError_ok.mp hdefinition
  cases hdecl : entry.decl with
  | union head cases =>
      rw [hdecl] at hread
      cases hread
      rfl
  | boxed head decl => simp [isUnion, hdecl] at hunion
  | native head => simp [isUnion, hdecl] at hunion

/-- What is registered was built from the entry of its name, at the position of this. -/
theorem buildFrom_mem {index : Nat} {rest : List Entry} {name : Symbol} {d : Declaration}
    (h : (name, d) ∈ (buildFrom entries limits index rest).1) :
    exists k entry, rest[k]? = some entry ∧ entry.symbol = name ∧
      build entries limits (index + k) entry = .ok d := by
  induction rest generalizing index with
  | nil => cases h
  | cons entry rest ih =>
      have hlater : (name, d) ∈ (buildFrom entries limits (index + 1) rest).1 ->
          exists k other, (entry :: rest)[k]? = some other ∧ other.symbol = name ∧
            build entries limits (index + k) other = .ok d := by
        intro hmem
        rcases ih hmem with ⟨k, other, hother, hname, hbuild⟩
        refine ⟨k + 1, other, hother, hname, ?_⟩
        rw [<- Nat.add_assoc, Nat.add_right_comm]
        exact hbuild
      rw [buildFrom] at h
      dsimp only at h
      split at h
      · rename_i built hbuild
        rcases Table.mem_put h with hnew | hold
        · cases hnew
          exact ⟨0, entry, rfl, rfl, hbuild⟩
        · exact hlater hold
      · exact hlater h

theorem buildFrom_contains {index : Nat} {rest : List Entry}
    (h : (buildFrom entries limits index rest).2 = []) {entry : Entry} (hentry : entry ∈ rest) :
    Table.contains (buildFrom entries limits index rest).1 entry.symbol = true := by
  induction rest generalizing index with
  | nil => cases hentry
  | cons first rest ih =>
      rw [buildFrom] at h ⊢
      dsimp only at h ⊢
      split at h
      · rename_i built hbuild
        simp only [Table.contains, Table.get?_put]
        split
        · rfl
        · rename_i hother
          rcases List.mem_cons.mp hentry with rfl | hentry
          · exact absurd rfl hother
          · exact ih h hentry
      · cases h

end Entry

/-!
## Completed and validated registries
-/

namespace Registry

theorem get?_complete (registry : Registry) (name : Symbol) :
    Table.get? (Registry.complete registry) name =
      (Table.get? registry name).map (Declaration.complete registry) :=
  Table.get?_map _ registry name

end Registry

theorem Registry.Stores.complete {registry : Registry} {p : Former -> Bool}
    (h : registry.Stores p) (hany : p .any = true)
    (harity : forall name m n, p (.named name m) = p (.named name n)) {t : Ty}
    (ht : t.everywhere p = true) : (t.complete registry).everywhere p = true := by
  refine Ty.everywhere_complete hany harity ?_ ht
  intro name d hd index default hdefault
  exact h name d hd default (Declaration.mem_types_of_default hdefault)

theorem Registry.Stores.completeArgs {registry : Registry} {p : Former -> Bool}
    (h : registry.Stores p) (hany : p .any = true) {name : Symbol} {d : Declaration}
    (hd : Table.get? registry name = some d) {args : List Ty}
    (hargs : forall t, t ∈ args -> t.everywhere p = true) :
    forall t, t ∈ Ty.completeArgs d.defaults d.arity args -> t.everywhere p = true := by
  refine (Ty.everywhere_appendDefaults_iff hany).mpr ⟨?_, ?_⟩
  · exact fun t ht => hargs t (List.mem_of_mem_take ht)
  · intro index t _ _ ht
    refine Ty.everywhere_mono ?_ (h name d hd t (Declaration.mem_types_of_default ht))
    intro f hf
    cases f with
    | param k inferring => exact Bool.or_eq_true_iff.mpr (Or.inr hf)
    | _ => exact hf

theorem Declaration.types_complete (registry : Registry) (d : Declaration) :
    (d.complete registry).types = d.types.map (Ty.complete registry) := by
  simp only [types, complete, boxed?, List.map_append, List.map_map, Function.comp_def]
  congr 1
  cases d.definition with
  | boxed inside => rfl
  | union cases => rfl
  | native => rfl

theorem Variance.allows_of_misused {declared : List Param} {used : List Variance}
    (h : misused declared used = []) {index : Nat} {p : Param}
    (hp : declared[index]? = some p) : p.variance.allows (used.getD index .bivariant) = true := by
  rw [List.getD_eq_getElem?_getD]
  cases hused : used[index]? with
  | none => cases hvariance : p.variance <;> rfl
  | some v =>
      rw [misused, List.map_eq_nil_iff, List.filter_eq_nil_iff] at h
      have hzip : (declared.zip used)[index]? = some (p, v) := by
        rw [List.getElem?_zip_eq_some]
        exact ⟨hp, hused⟩
      simpa using h _ (List.mem_of_getElem? hzip)

/-!
## Validated boxes
-/

namespace Ty

variable {arities : Arities} {limits : Limits} {span : Span}

theorem validateList_ok {ts : List Ty} (h : validateList arities limits span ts = .ok ()) :
    forall t, t ∈ ts -> t.validate arities limits span = .ok () := by
  induction ts with
  | nil =>
      intro t ht
      cases ht
  | cons first rest ih =>
      rw [validateList] at h
      rcases except_bind_ok.mp h with ⟨_, hfirst, hrest⟩
      intro t ht
      rcases List.mem_cons.mp ht with rfl | ht
      · exact hfirst
      · exact ih hrest t ht

theorem validateFields_ok {fields : List (String × Field Ty)}
    (h : validateFields arities limits span fields = .ok ()) :
    forall item, item ∈ fields -> item.2.type.validate arities limits span = .ok () := by
  induction fields with
  | nil =>
      intro item hitem
      cases hitem
  | cons first rest ih =>
      rcases first with ⟨name, ⟨slot, type⟩⟩
      rw [validateFields] at h
      rcases except_bind_ok.mp h with ⟨_, hfirst, hrest⟩
      intro item hitem
      rcases List.mem_cons.mp hitem with rfl | hitem
      · exact hfirst
      · exact ih hrest item hitem

theorem validate_parts {t : Ty} (h : t.validate arities limits span = .ok ()) :
    forall s, s ∈ t.parts -> s.validate arities limits span = .ok () := by
  intro s hs
  cases t with
  | named name args =>
      rw [validate] at h
      rcases except_bind_ok.mp h with ⟨_, _, hargs⟩
      exact validateList_ok hargs s hs
  | tuple items =>
      rw [validate] at h
      rcases except_bind_ok.mp h with ⟨_, _, hitems⟩
      exact validateList_ok hitems s hs
  | bundle fields =>
      rw [validate] at h
      rcases except_bind_ok.mp h with ⟨_, _, hfields⟩
      rcases List.mem_map.mp hs with ⟨item, hitem, rfl⟩
      exact validateFields_ok hfields item hitem
  | func input output =>
      rw [validate] at h
      rcases except_bind_ok.mp h with ⟨_, hinput, houtput⟩
      simp only [parts, List.mem_cons, List.not_mem_nil, or_false] at hs
      rcases hs with rfl | rfl
      · exact hinput
      · exact houtput
  | _ => cases hs

end Ty

theorem Ty.isApplicable_of_validate {registry : Registry} {limits : Limits} {span : Span} {t : Ty}
    (h : t.validate (Registry.arities registry) limits span = .ok ()) :
    t.everywhere (Former.isApplicable registry) = true := by
  induction t using Ty.induction_parts with
  | step t ih =>
      refine Ty.everywhere_iff.mpr ⟨?_, fun s hs => ih s hs (Ty.validate_parts h s hs)⟩
      cases t with
      | named name args =>
          rw [Ty.validate] at h
          rcases except_bind_ok.mp h with ⟨_, harity, _⟩
          rcases requireArity_ok harity with ⟨fewest, most, hrange, _, hmost⟩
          rcases Option.map_eq_some_iff.mp hrange with ⟨d, hd, heq⟩
          cases heq
          simp [Ty.former, Former.isApplicable, hd, hmost]
      | _ => rfl

theorem Declaration.inner_of_validateDefinition {registry : Registry} {limits : Limits}
    {d : Declaration} {boxed : Boxed} (h : d.validateDefinition registry limits = .ok ())
    (hboxed : d.boxed? = some boxed) :
    boxed.inner.validate (Registry.arities registry) limits d.span = .ok () ∧
      Variance.misused d.params (Variance.usage registry d.arity boxed.inner) = [] := by
  rw [Declaration.validateDefinition, Declaration.boxed?_eq_some.mp hboxed] at h
  rcases except_bind_ok.mp h with ⟨_, hinner, h⟩
  split at h
  · rename_i hmisused
    exact ⟨hinner, hmisused⟩
  · cases h

namespace Registration

/-- The declarations of a program as they are written, before anything is filled in. -/
def written (limits : Limits) (modules : List Source.Module) : Registry :=
  (Entry.buildFrom (Collection.ofModules modules).entries limits 0
    (Collection.ofModules modules).entries).1

/-- The validation adds to the problems and leaves the registry as it is. -/
theorem validated_of_ofModules {limits : Limits} {depth : Nat} {modules : List Source.Module}
    {r : Registration} (h : ofModules limits depth modules = some r) :
    exists invalid,
      validationProblems (unvalidated limits modules).registry limits depth
        (unvalidated limits modules).registry = some invalid ∧
      r = { registry := (unvalidated limits modules).registry
            problems := (unvalidated limits modules).problems ++ invalid } := by
  rcases Option.bind_eq_some_iff.mp h with ⟨invalid, hinvalid, h⟩
  cases h
  exact ⟨invalid, hinvalid, rfl⟩

theorem registry_eq {limits : Limits} {depth : Nat} {modules : List Source.Module}
    {r : Registration} (h : ofModules limits depth modules = some r) :
    r.registry = Registry.withoutCircles (Registry.complete (written limits modules)) := by
  rcases validated_of_ofModules h with ⟨invalid, _, rfl⟩
  rfl

theorem exists_written {limits : Limits} {depth : Nat} {modules : List Source.Module}
    {r : Registration} (h : ofModules limits depth modules = some r) {name : Symbol}
    {d : Declaration} (hd : Table.get? r.registry name = some d) :
    exists w, Table.get? (written limits modules) name = some w ∧
      d = w.complete (written limits modules) := by
  rw [registry_eq h, Registry.get?_withoutCircles] at hd
  split at hd
  · cases hd
  · rw [Registry.get?_complete] at hd
    rcases Option.map_eq_some_iff.mp hd with ⟨w, hw, rfl⟩
    exact ⟨w, hw, rfl⟩

theorem exists_written_type {limits : Limits} {depth : Nat} {modules : List Source.Module}
    {r : Registration} (h : ofModules limits depth modules = some r) {name : Symbol}
    {d : Declaration} (hd : Table.get? r.registry name = some d) {t : Ty} (ht : t ∈ d.types) :
    exists w s, Table.get? (written limits modules) name = some w ∧ w.arity = d.arity ∧
      s ∈ w.types ∧ t = s.complete (written limits modules) := by
  rcases exists_written h hd with ⟨w, hw, rfl⟩
  rw [Declaration.types_complete] at ht
  rcases List.mem_map.mp ht with ⟨s, hs, rfl⟩
  exact ⟨w, s, hw, rfl, hs, rfl⟩

theorem built_of_written {limits : Limits} {modules : List Source.Module} {name : Symbol}
    {w : Declaration} (h : Table.get? (written limits modules) name = some w) :
    exists k entry, (Collection.ofModules modules).entries[k]? = some entry ∧
      entry.symbol = name ∧
      Entry.build (Collection.ofModules modules).entries limits k entry = .ok w := by
  rcases Entry.buildFrom_mem (Table.mem_of_get? h) with ⟨k, entry, hat, hname, hbuild⟩
  rw [Nat.zero_add] at hbuild
  exact ⟨k, entry, hat, hname, hbuild⟩

theorem validated_of_mem {registry : Registry} {limits : Limits} {depth : Nat}
    {items : List (Symbol × Declaration)} {problems : ModuleProblems}
    (h : validationProblems registry limits depth items = some problems) {name : Symbol}
    {d : Declaration} (hitem : (name, d) ∈ items) :
    (d.validate registry limits depth name.module).outcome = some (.ok ()) ∨
      exists detail,
        (d.validate registry limits depth name.module).outcome = some (.error detail) ∧
        (name.module, .decl { value := .invalid name.text detail, span := d.span }) ∈ problems := by
  induction items generalizing problems with
  | nil => cases hitem
  | cons first rest ih =>
      rcases first with ⟨name', d'⟩
      rw [validationProblems] at h
      rcases Option.bind_eq_some_iff.mp h with ⟨outcome, houtcome, h⟩
      rcases Option.bind_eq_some_iff.mp h with ⟨others, hothers, h⟩
      cases outcome with
      | ok accepted =>
          cases h
          rcases List.mem_cons.mp hitem with hfirst | hlater
          · cases hfirst
            exact Or.inl houtcome
          · exact ih hothers hlater
      | error detail =>
          cases h
          rcases List.mem_cons.mp hitem with hfirst | hlater
          · cases hfirst
            exact Or.inr ⟨detail, houtcome, List.mem_cons_self⟩
          · rcases ih hothers hlater with hok | ⟨reason, hrefused, hreported⟩
            · exact Or.inl hok
            · exact Or.inr ⟨reason, hrefused, List.mem_cons_of_mem _ hreported⟩

theorem validate_ok_of_problems_nil {registry : Registry} {limits : Limits} {depth : Nat}
    {items : List (Symbol × Declaration)}
    (h : validationProblems registry limits depth items = some []) {name : Symbol}
    {d : Declaration} (hitem : (name, d) ∈ items) :
    (d.validate registry limits depth name.module).outcome = some (.ok ()) := by
  rcases validated_of_mem h hitem with hok | ⟨_, _, hreported⟩
  · exact hok
  · cases hreported

/-!
### Whatever problems were found
-/

/-- What holds of the types that are read from the entries holds of all declarations as they
are written. -/
theorem written_stores {limits : Limits} {modules : List Source.Module} {p : Former -> Bool}
    (hunit : p .unit = true)
    (hread : forall (entry : Entry) expr t,
      (entry.scope (Collection.ofModules modules).entries limits).read expr = .ok t ->
        t.everywhere p = true) : (written limits modules).Stores p := by
  intro name w hw t ht
  rcases built_of_written hw with ⟨k, entry, _, _, hbuild⟩
  rcases (Entry.build_types hbuild).right t ht with rfl | ⟨expr, ht⟩
  · exact hunit
  · exact hread entry expr t ht

theorem plain_written {limits : Limits} {modules : List Source.Module} :
    (written limits modules).Stores Former.isPlain :=
  written_stores rfl fun _ _ _ hread =>
    TypeScope.everywhere_read (TypeScope.reads_isPlain _) rfl rfl (fun _ => rfl) hread

theorem read_of_written {limits : Limits} {modules : List Source.Module} {name : Symbol}
    {w : Declaration} (hw : Table.get? (written limits modules) name = some w) :
    exists entry : Entry, Param.read entry.decl.head.params = .ok entry.params ∧
      w.params = entry.params ∧
      forall item, item ∈ w.defaults -> item.1 < entry.decl.head.params.length := by
  rcases built_of_written hw with ⟨k, entry, hat, _, hbuild⟩
  have hentry := List.mem_of_getElem? hat
  exact ⟨entry, (Collection.wellListed_ofModules modules).read entry hentry,
    (Entry.build_fields hbuild).left, (Entry.build_types hbuild).left⟩

theorem orderly {limits : Limits} {depth : Nat} {modules : List Source.Module}
    {r : Registration} (h : ofModules limits depth modules = some r) : r.registry.Orderly where
  plain := by
    intro name d hd t ht
    rcases exists_written_type h hd ht with ⟨w, s, hw, _, hs, rfl⟩
    exact plain_written.complete rfl (fun _ _ _ => rfl) (plain_written name w hw s hs)
  signed := by
    intro name d hd p hp
    rcases exists_written h hd with ⟨w, hw, rfl⟩
    rcases read_of_written hw with ⟨entry, hread, hparams, _⟩
    have hmem : p ∈ entry.params := hparams ▸ hp
    exact Param.read_signed hread hmem
  defaulted := by
    intro name d hd index t ht
    rcases exists_written h hd with ⟨w, hw, rfl⟩
    rcases read_of_written hw with ⟨entry, hread, hparams, hdefaults⟩
    rcases List.mem_map.mp (Table.mem_of_get? ht) with ⟨item, hitem, heq⟩
    cases heq
    show item.1 < w.arity
    rw [Declaration.arity, hparams, Param.read_length hread]
    exact hdefaults item hitem

/-!
### Without problems
-/

theorem completed_known {limits : Limits} {entries : List Entry} {built : Registry}
    (hbuilt : Entry.buildFrom entries limits 0 entries = (built, [])) :
    (Registry.complete built).Stores (Former.isKnown (Registry.complete built)) := by
  have hentries : forall entry, entry ∈ entries ->
      Table.contains (Registry.complete built) entry.symbol = true := by
    intro entry hentry
    have hcontains := Entry.buildFrom_contains (congrArg Prod.snd hbuilt) hentry
    rw [hbuilt] at hcontains
    simpa [Table.contains, Registry.get?_complete] using hcontains
  have hstored : built.Stores (Former.isKnown (Registry.complete built)) := by
    intro name d hd t ht
    have hmem : (name, d) ∈ (Entry.buildFrom entries limits 0 entries).1 := by
      rw [hbuilt]
      exact Table.mem_of_get? hd
    rcases Entry.buildFrom_mem hmem with ⟨_, entry, _, _, hbuild⟩
    rcases (Entry.build_types hbuild).right t ht with rfl | ⟨expr, hread⟩
    · rfl
    · exact TypeScope.isKnown_read (Entry.within_scope hentries entry) hread
  intro name d h t ht
  rw [Registry.get?_complete] at h
  rcases Option.map_eq_some_iff.mp h with ⟨written, hwritten, rfl⟩
  rw [Declaration.types_complete] at ht
  rcases List.mem_map.mp ht with ⟨s, hs, rfl⟩
  exact hstored.complete rfl (fun _ _ _ => rfl) (hstored name written hwritten s hs)

theorem respected_of_validate {registry : Registry} {limits : Limits} {depth : Nat}
    {module : String} {d : Declaration} {boxed : Boxed}
    (h : (d.validate registry limits depth module).outcome = some (.ok ()))
    (hboxed : d.boxed? = some boxed) {index : Nat} {p : Param} (hp : d.params[index]? = some p) :
    p.variance.allows ((Variance.usage registry d.arity boxed.inner).getD index .bivariant) =
      true := by
  rcases judge_bind_ok.mp h with ⟨_, hshape, _⟩
  have hshape : d.validateDefinition registry limits = .ok () := Option.some.inj hshape
  exact Variance.allows_of_misused (Declaration.inner_of_validateDefinition hshape hboxed).right hp

/-- Without problems, all declarations are built and registered, and valid. -/
theorem faultless {limits : Limits} {depth : Nat} {modules : List Source.Module}
    {r : Registration} (h : ofModules limits depth modules = some r) (hproblems : r.problems = []) :
    r.registry = Registry.complete (written limits modules) ∧
      (Entry.buildFrom (Collection.ofModules modules).entries limits 0
        (Collection.ofModules modules).entries).2 = [] ∧
      forall name d, Table.get? r.registry name = some d ->
        (d.validate r.registry limits depth name.module).outcome = some (.ok ()) := by
  have hregistry := registry_eq h
  rcases validated_of_ofModules h with ⟨invalid, hinvalid, rfl⟩
  simp only [unvalidated, List.append_eq_nil_iff] at hproblems
  rcases hproblems with ⟨⟨⟨_, hbuilt⟩, hcircles⟩, rfl⟩
  refine ⟨?_, hbuilt, ?_⟩
  · rw [hregistry]
    exact Registry.withoutCircles_eq_self hcircles
  · exact fun name d hd => validate_ok_of_problems_nil hinvalid (Table.mem_of_get? hd)

theorem registers_listed {limits : Limits} {depth : Nat} {modules : List Source.Module}
    {r : Registration} (h : ofModules limits depth modules = some r) (hproblems : r.problems = [])
    {entry : Entry} (hentry : entry ∈ (Collection.ofModules modules).entries) :
    exists d, Table.get? r.registry entry.symbol = some d := by
  rcases faultless h hproblems with ⟨hregistry, hbuilt, _⟩
  have hcontains := Entry.buildFrom_contains hbuilt hentry
  apply Option.isSome_iff_exists.mp
  rw [hregistry, Registry.get?_complete, Option.isSome_map]
  exact hcontains

theorem lawful {limits : Limits} {depth : Nat} {modules : List Source.Module} {r : Registration}
    (h : ofModules limits depth modules = some r) (hproblems : r.problems = []) :
    r.registry.Lawful := by
  have horderly := orderly h
  rcases faultless h hproblems with ⟨hregistry, hbuilt, hvalid⟩
  exact {
    known := hregistry ▸ completed_known (Prod.ext rfl hbuilt)
    signed := horderly.signed
    defaulted := horderly.defaulted
    respected := fun name d boxed hd hboxed index p hp =>
      respected_of_validate (hvalid name d hd) hboxed hp }

def Builds (limits : Limits) (modules : List Source.Module) (name : Symbol) (d : Declaration) :
    Prop :=
  exists (k : Nat) (entry : Entry) (written : Declaration) (built : Registry),
    (Collection.ofModules modules).entries[k]? = some entry ∧ entry.symbol = name ∧
      Entry.build (Collection.ofModules modules).entries limits k entry = .ok written ∧
      d = written.complete built

theorem builds_of_mem_complete {limits : Limits} {modules : List Source.Module} {name : Symbol}
    {d : Declaration} {built : Registry}
    (hbuilt : built = (Entry.buildFrom (Collection.ofModules modules).entries limits 0
      (Collection.ofModules modules).entries).1)
    (h : (name, d) ∈ Registry.complete built) : Builds limits modules name d := by
  rcases List.mem_map.mp h with ⟨⟨name', written⟩, hwritten, heq⟩
  cases heq
  rw [hbuilt] at hwritten
  rcases Entry.buildFrom_mem hwritten with ⟨k, entry, hat, hname, hbuild⟩
  rw [Nat.zero_add] at hbuild
  exact ⟨k, entry, written, built, hat, hname, hbuild, rfl⟩

theorem builds_of_mem {limits : Limits} {depth : Nat} {modules : List Source.Module}
    {r : Registration} (h : ofModules limits depth modules = some r) {name : Symbol}
    {d : Declaration} (hd : (name, d) ∈ r.registry) : Builds limits modules name d := by
  rw [registry_eq h] at hd
  exact builds_of_mem_complete rfl (Registry.mem_of_withoutCircles hd)

theorem registered_of_clean {limits : Limits} {depth : Nat} {modules : List Source.Module}
    (h : (ofModules limits depth modules).map (fun r => r.problems.isEmpty) = some true) :
    ofModules limits depth modules = some ((ofModules limits depth modules).getD {}) ∧
      ((ofModules limits depth modules).getD {}).problems = [] := by
  rcases Option.map_eq_some_iff.mp h with ⟨r, hr, hclean⟩
  rw [hr]
  exact ⟨rfl, List.isEmpty_iff.mp hclean⟩

end Registration

/-- A registry made without problems from the declarations of some modules. -/
def Registry.Declared (registry : Registry) : Prop :=
  exists limits depth modules r, Registration.ofModules limits depth modules = some r ∧
    r.problems = [] ∧ r.registry = registry

theorem Registry.declared_of_clean {limits : Limits} {depth : Nat} {modules : List Source.Module}
    (h : (Registration.ofModules limits depth modules).map (fun r => r.problems.isEmpty) =
      some true) : ((Registration.ofModules limits depth modules).getD {}).registry.Declared := by
  rcases Registration.registered_of_clean h with ⟨hr, hproblems⟩
  exact ⟨limits, depth, modules, _, hr, hproblems, rfl⟩

theorem Registry.Declared.lawful {registry : Registry} (h : registry.Declared) :
    registry.Lawful := by
  rcases h with ⟨limits, depth, modules, r, hr, hproblems, rfl⟩
  exact Registration.lawful hr hproblems

end TypeChecker
