import TypeChecker.Proofs.Assign.Monotone
import TypeChecker.Proofs.Checking.Lifted

/-!
# Lifting and selection keep the order

A valid union and its cases agree on the variance of the parameters they share. So what
matches as a case still fits after it is lifted into the union, and what matches as the
union still fits after a case of it is selected. To select a case and to lift it again
loses nothing but the arguments that the case does not take, and what stands for these is
the smallest that their variance allows.
-/

namespace TypeChecker

open Assign

/-!
## Cases of valid unions
-/

theorem Entry.build_cases {entries : List Entry} {limits : Limits} {index : Nat} {entry : Entry}
    {d : Declaration} (h : build entries limits index entry = .ok d) {cases : List Case}
    (hcases : d.cases? = some cases) : cases = casesOf entries index := by
  unfold build at h
  dsimp only at h
  rcases except_bind_ok.mp h with ⟨data, _, h⟩
  rcases except_bind_ok.mp h with ⟨types, _, h⟩
  rcases except_bind_ok.mp h with ⟨definition, hdefinition, h⟩
  cases h
  have hread := except_mapError_ok.mp hdefinition
  cases hdecl : entry.decl with
  | union head written =>
      rw [hdecl] at hread
      cases hread
      exact (Option.some.inj hcases).symm
  | boxed head decl =>
      have hboxed : exists boxed, definition = .boxed boxed := by
        rw [hdecl, readDefinition] at hread
        split at hread
        · cases hread
          exact ⟨_, rfl⟩
        · rcases except_bind_ok.mp hread with ⟨inner, _, hinner⟩
          cases hinner
          exact ⟨_, rfl⟩
      rcases hboxed with ⟨boxed, rfl⟩
      cases hcases
  | native head =>
      rw [hdecl] at hread
      cases hread
      cases hcases

namespace Declaration

theorem agrees_of_requireCases {registry : Registry} {agrees : Declaration -> List Nat -> Bool}
    {fault : String -> String -> TypeFault} {cases : List Case}
    (h : requireCases registry agrees fault cases = .ok ()) {case : Case} (hcase : case ∈ cases)
    {d : Declaration} (hd : Table.get? registry case.name = some d) :
    agrees d case.params = true := by
  induction cases with
  | nil => cases hcase
  | cons first rest ih =>
      have hrest : requireCases registry agrees fault rest = .ok () ∧
          forall d, Table.get? registry first.name = some d -> agrees d first.params = true := by
        rw [requireCases] at h
        split at h
        · rename_i d' hd'
          cases hagrees : agrees d' first.params with
          | true =>
              rw [hagrees] at h
              exact ⟨h, fun d hd => Option.some.inj (hd'.symm.trans hd) ▸ hagrees⟩
          | false =>
              rw [hagrees] at h
              cases h
        · rename_i hnone
          exact ⟨h, fun d hd => absurd hd (hnone d)⟩
      rcases List.mem_cons.mp hcase with rfl | hcase
      · exact hrest.right d hd
      · exact ih hrest.left hcase

theorem caseVariance_of_valid {registry : Registry} {limits : Limits} {u d : Declaration}
    {cases : List Case} (h : u.validateDefinition registry limits = .ok ())
    (hcases : u.cases? = some cases) {case : Case} (hcase : case ∈ cases)
    (hd : Table.get? registry case.name = some d) {j index : Nat}
    (hindex : case.params[j]? = some index) :
    d.params[j]?.map Param.variance = u.params[index]?.map Param.variance := by
  unfold validateDefinition at h
  rw [cases?_eq_some.mp hcases] at h
  have hrequired : requireCases registry u.caseVarianceAgrees .caseVariance cases = .ok () := by
    dsimp only at h
    split at h
    · cases h
    · exact h
  have hagrees := List.all_eq_true.mp (agrees_of_requireCases hrequired hcase hd) (index, j)
    (List.mem_zipIdx_iff_getElem?.mpr hindex)
  exact beq_iff_eq.mp hagrees

end Declaration

/-- What a declared union and one of its cases know of each other. -/
structure Case.Joins (registry : Registry) (case : Case) (union : Symbol) (d u : Declaration)
    (m : Membership) : Prop where
  registered : Table.get? registry case.name = some d
  unionRegistered : Table.get? registry union = some u
  member : d.memberOf = some m
  union : m.union = union
  params : m.params = case.params
  agrees : m.Agrees case.name d u
  variance : forall (j index : Nat), case.params[j]? = some index ->
    d.params[j]?.map Param.variance = u.params[index]?.map Param.variance

/-- All cases of a declared union are registered, and belong to it. -/
theorem Registry.Declared.joins {registry : Registry} (h : registry.Declared) {union : Symbol}
    {u : Declaration} {cases : List Case} (hu : Table.get? registry union = some u)
    (hcases : u.cases? = some cases) {case : Case} (hcase : case ∈ cases) :
    exists d m, case.Joins registry union d u m := by
  rcases h with ⟨limits, depth, modules, r, hr, hproblems, rfl⟩
  rcases Registration.builds_of_mem hr (Table.mem_of_get? hu) with
    ⟨k, entry, written, built, hat, hname, hbuild, hwritten⟩
  have hlisted : case ∈ Entry.casesOf (Collection.ofModules modules).entries k := by
    rw [hwritten, Declaration.cases?_complete] at hcases
    rw [<- Entry.build_cases hbuild hcases]
    exact hcase
  rcases Entry.mem_casesOf.mp hlisted with ⟨other, owner, hother, howner, hindex, hnamed⟩
  rcases Registration.registers_listed hr hproblems hother with ⟨d, hd⟩
  rcases List.mem_iff_getElem?.mp hother with ⟨j, hj⟩
  rcases Registration.built_at hr hd hj rfl with ⟨writtenCase, built', hbuildCase, hcompleted⟩
  have hmember : exists m, d.memberOf = some m ∧ m.union = union ∧ m.params = case.params := by
    rw [hcompleted, hnamed, <- hname]
    have hfields := (Entry.build_fields hbuildCase).right.left
    rw [Entry.membership?, howner] at hfields
    dsimp only at hfields
    rw [hindex, hat] at hfields
    exact ⟨_, hfields, rfl, rfl⟩
  rcases hmember with ⟨m, hm, hunion, hparams⟩
  have hcaseName : case.name = other.symbol := by rw [hnamed]
  rw [<- hcaseName] at hd
  have hvalid := (Registration.faultless hr hproblems).right.right union u hu
  rcases judge_bind_ok.mp hvalid with ⟨_, hshape, _⟩
  exact ⟨d, m, {
    registered := hd
    unionRegistered := hu
    member := hm
    union := hunion
    params := hparams
    agrees := Registration.member_agrees hr hd hm (hunion ▸ hu)
    variance := fun j index hindex =>
      Declaration.caseVariance_of_valid (Option.some.inj hshape) hcases hcase hd hindex }⟩

/-!
## Arguments there and back
-/

namespace Membership

variable {m : Membership} {args : List Ty} {k : Nat}

theorem filler_known (registry : Registry) (variance : Option Variance) :
    (filler variance).everywhere (Former.isKnown registry) = true := by
  unfold filler
  split <;> rfl

theorem unionArgs_taken (hdistinct : m.params.Nodup) (hlen : m.params.length = args.length)
    (hk : k < m.arity) {j : Nat} (hj : m.params[j]? = some k) :
    (m.unionArgs args)[k]? = args[j]? := by
  have hlt : j < args.length := hlen ▸ (List.getElem?_eq_some_iff.mp hj).choose
  have harg := List.getElem?_eq_getElem hlt
  have hkeys : ((m.params.zip args).map Prod.fst).Nodup := by
    rw [List.map_fst_zip (Nat.le_of_eq hlen)]
    exact hdistinct
  have hmem : (k, args[j]) ∈ m.params.zip args :=
    List.mem_of_getElem? (List.getElem?_zip_eq_some.mpr ⟨hj, harg⟩)
  rw [harg]
  apply getElem?_foldl_set hkeys hmem
  rw [List.length_map, List.length_range]
  exact hk

theorem unionArgs_left (hlen : m.params.length = args.length) (hk : k < m.arity)
    (hleft : k ∉ m.params) : (m.unionArgs args)[k]? = some (filler m.variance[k]?) := by
  unfold unionArgs
  dsimp only
  rw [getElem?_foldl_set_of_not_mem]
  · simp [hk]
  · rw [List.map_fst_zip (Nat.le_of_eq hlen)]
    exact hleft

end Membership

def Case.argsAt (case : Case) (unionArgs : List Ty) : List Ty :=
  case.params.filterMap fun index => unionArgs[index]?

theorem getElem?_filterMap_of_isSome {α β : Type} {f : α -> Option β} {xs : List α}
    (h : forall x, x ∈ xs -> (f x).isSome = true) (j : Nat) :
    (xs.filterMap f)[j]? = xs[j]?.bind f := by
  induction xs generalizing j with
  | nil => rfl
  | cons x xs ih =>
      rcases Option.isSome_iff_exists.mp (h x List.mem_cons_self) with ⟨y, hy⟩
      rw [List.filterMap_cons_some hy]
      cases j with
      | zero => exact hy.symm
      | succ j => exact ih (fun x hx => h x (List.mem_cons_of_mem _ hx)) j

namespace Case.Joins

variable {ctx : TypeContext} {case : Case} {union : Symbol} {d u : Declaration} {m : Membership}
  (h : case.Joins ctx.registry union d u m)
include h

theorem getElem?_argsAt {us : List Ty} (hus : us.length = u.arity) (j : Nat) :
    (case.argsAt us)[j]? = case.params[j]?.bind fun index => us[index]? := by
  apply getElem?_filterMap_of_isSome
  intro index hindex
  rw [<- h.params] at hindex
  have hlt := h.agrees.within index hindex
  rw [<- hus] at hlt
  rw [List.getElem?_eq_getElem hlt]
  rfl

theorem length_argsAt {us : List Ty} (hus : us.length = u.arity) :
    (case.argsAt us).length = d.arity := by
  rw [<- h.agrees.length, h.params]
  apply List.filterMap_length_eq_length.mpr
  intro index hindex
  rw [<- h.params] at hindex
  have hlt := h.agrees.within index hindex
  rw [<- hus] at hlt
  rw [List.getElem?_eq_getElem hlt]
  rfl

theorem positions_eq {j index : Nat} (hindex : case.params[j]? = some index) :
    ((Former.named case.name d.arity).positions ctx.registry)[j]? =
      ((Former.named union u.arity).positions ctx.registry)[index]? := by
  rw [Variance.positions_named h.registered, Variance.positions_named h.unionRegistered,
    List.getElem?_map, List.getElem?_map, h.variance j index hindex]

theorem unionArgs_taken {args : List Ty} (hargs : args.length = d.arity) {j k : Nat}
    (hj : case.params[j]? = some k) : (m.unionArgs args)[k]? = args[j]? := by
  have hlen : m.params.length = args.length := h.agrees.length.trans hargs.symm
  have hindex : m.params[j]? = some k := h.params ▸ hj
  have hk : k < m.arity := by
    rw [h.agrees.arity]
    exact h.agrees.within k (List.mem_of_getElem? hindex)
  exact Membership.unionArgs_taken h.agrees.distinct hlen hk hindex

theorem unionArgs_left {args : List Ty} (hargs : args.length = d.arity) {k : Nat}
    (hk : k < u.arity) (hleft : k ∉ case.params) :
    (m.unionArgs args)[k]? = some (Membership.filler (u.params[k]?.map Param.variance)) := by
  have hlen : m.params.length = args.length := h.agrees.length.trans hargs.symm
  have hfilled := Membership.unionArgs_left hlen (h.agrees.arity ▸ hk) (h.params ▸ hleft)
  rw [hfilled, h.agrees.variance, List.getElem?_map]

theorem former_lifted (args : List Ty) :
    (Ty.named union (m.unionArgs args)).former = .named union u.arity := by
  rw [Ty.former, Membership.length_unionArgs, h.agrees.arity]

theorem union_known (arity : Nat) : (Former.named union arity).isKnown ctx.registry = true := by
  rw [Former.isKnown, Table.contains, h.unionRegistered]
  rfl

/-!
## What is assigned
-/

theorem assigns_lifted (hbounds : ctx.bounds = {}) {as bs : List Ty} (has : as.length = d.arity)
    (hbs : bs.length = d.arity) {depth : Nat} {t : Ty} {j : Inference}
    (hdirect : (assignDirectly ctx depth .toTarget (.named case.name bs)
      (.named case.name as)).outcome .disabled = some (.ok t, j)) :
    Assigns ctx .toTarget (.named union (m.unionArgs bs)) (.named union (m.unionArgs as)) := by
  apply Assigns.of_parts rfl
  · rw [h.former_lifted, h.former_lifted]
  · exact h.union_known _
  · intro k v x y hv hx hy
    rw [h.former_lifted] at hv
    by_cases htaken : k ∈ case.params
    · rcases List.mem_iff_getElem?.mp htaken with ⟨j, hj⟩
      rw [<- h.positions_eq hj, <- hbs] at hv
      have hx : bs[j]? = some x := (h.unionArgs_taken hbs hj).symm.trans hx
      have hy : as[j]? = some y := (h.unionArgs_taken has hj).symm.trans hy
      exact Assigns.args_of_direct hdirect hv hy hx
    · have hk : k < u.arity := by
        rw [<- h.agrees.arity, <- Membership.length_unionArgs m bs]
        exact (List.getElem?_eq_some_iff.mp hx).choose
      cases (h.unionArgs_left hbs hk htaken).symm.trans hx
      cases (h.unionArgs_left has hk htaken).symm.trans hy
      exact Assigns.self hbounds _ (Membership.filler_known ctx.registry _)

theorem assigns_selected {us vs : List Ty} (hus : us.length = u.arity) (hvs : vs.length = u.arity)
    {depth : Nat} {t : Ty} {j : Inference}
    (hdirect : (assignDirectly ctx depth .toTarget (.named union vs)
      (.named union us)).outcome .disabled = some (.ok t, j)) :
    Assigns ctx .toTarget (.named case.name (case.argsAt vs))
      (.named case.name (case.argsAt us)) := by
  apply Assigns.of_parts rfl
  · rw [Ty.former, Ty.former, h.length_argsAt hvs, h.length_argsAt hus]
  · rw [Ty.former, Former.isKnown, Table.contains, h.registered]
    rfl
  · intro k v x y hv hx hy
    rw [Ty.former, h.length_argsAt hvs] at hv
    rw [Ty.parts, h.getElem?_argsAt hvs] at hx
    rw [Ty.parts, h.getElem?_argsAt hus] at hy
    rcases Option.bind_eq_some_iff.mp hx with ⟨index, hindex, hx⟩
    rcases Option.bind_eq_some_iff.mp hy with ⟨index', hindex', hy⟩
    cases hindex.symm.trans hindex'
    rw [h.positions_eq hindex, <- hvs] at hv
    exact Assigns.args_of_direct hdirect hv hy hx

/-- What a case of a union type is lifted to is assigned to the union type, if the
parameters that the case does not take have a smallest argument. -/
theorem assigns_lifted_selected (hbounds : ctx.bounds = {})
    (hleft : forall (k : Nat) p, u.params[k]? = some p -> k ∉ case.params ->
      p.variance = .covariant ∨ p.variance = .contravariant)
    {us : List Ty} (hus : us.length = u.arity)
    (hknown : forall t, t ∈ us -> t.everywhere (Former.isKnown ctx.registry) = true) :
    Assigns ctx .toTarget (.named union us) (.named union (m.unionArgs (case.argsAt us))) := by
  have hargs := h.length_argsAt hus
  apply Assigns.of_parts rfl
  · rw [h.former_lifted, Ty.former, hus]
  · exact h.union_known _
  · intro k v x y hv hx hy
    have hx : us[k]? = some x := hx
    have hxknown := hknown x (List.mem_of_getElem? hx)
    rcases Variance.position_of_arg h.unionRegistered hus hx with ⟨p, hp, hposition⟩
    cases hposition.symm.trans hv
    by_cases htaken : k ∈ case.params
    · rcases List.mem_iff_getElem?.mp htaken with ⟨j, hj⟩
      have hy := (h.unionArgs_taken hargs hj).symm.trans hy
      rw [h.getElem?_argsAt hus, hj, Option.bind_some, hx] at hy
      cases hy
      exact Assigns.self hbounds _ hxknown
    · have hk : k < u.arity := hus ▸ (List.getElem?_eq_some_iff.mp hx).choose
      have hy := (h.unionArgs_left hargs hk htaken).symm.trans hy
      rw [hp, Option.map_some] at hy
      rcases hleft k p hp htaken with hvariance | hvariance
      · rw [hvariance] at hy ⊢
        cases hy
        exact Assigns.never hbounds (Ty.hasInferring_of_plain (Ty.plain_of_known hxknown))
      · rw [hvariance] at hy ⊢
        cases hy
        exact Assigns.from_any hbounds x

end Case.Joins

/-!
## Lifted and selected types
-/

/-- The type that the case a reference names has at some union type. -/
def Context.SelectsType (ctx : Context) (t : Ty) (ref : Source.InlineRef) (case : Ty) : Prop :=
  exists depth view index, ctx.unionBehind depth false t = some (some view) ∧
    ctx.caseOf view ref = .ok { index := index, type := case }

theorem Case.Joins.selectsType {ctx : Context} {case : Case} {union : Symbol}
    {d u : Declaration} {m : Membership} (h : case.Joins ctx.registry union d u m)
    {ref : Source.InlineRef} (htypeArgs : ref.typeArgs = [])
    (hsymbol : ctx.caseSymbol ref.name = case.name) (us : List Ty) :
    ctx.SelectsType (.named union us) ref (.named case.name (case.argsAt us)) := by
  rcases h.agrees.listed with ⟨cases, hcases, hplace, hcase⟩
  have hcontains : Table.contains ctx.registry case.name = true := by
    rw [Table.contains, h.registered]
    rfl
  rw [h.params] at hcase
  refine ⟨1, { name := union, args := us, cases := cases }, m.index, ?_, ?_⟩
  · exact Context.unionBehind_of_cases rfl h.unionRegistered hcases 0
  · exact Context.caseOf_symbol hcontains hplace hcase htypeArgs hsymbol

theorem Case.Joins.lift_type {registry : Registry} {case : Case} {union : Symbol}
    {d u : Declaration} {m : Membership} (h : case.Joins registry union d u m) {term : Term}
    {args : List Ty} (hterm : term.type = .named case.name args) :
    (Registry.lift registry term).type = .named union (m.unionArgs args) := by
  simp only [Registry.lift, hterm, h.registered, Option.bind_some, h.member, h.union]

/-- For every case of a declared union, values of case types that match directly are lifted
to union types that fit; of union types that match directly, the selected case types fit;
and what a selected case is lifted to fits the union type it was selected from, as long as
the parameters that the case does not take are covariant or contravariant. -/
theorem lifting_and_selection_monotone {ctx : Context} (hdeclared : ctx.registry.Declared)
    (hbounds : ctx.bounds = {}) {union : Symbol} {u : Declaration} {cases : List Case}
    (hu : Table.get? ctx.registry union = some u) (hcases : u.cases? = some cases) {case : Case}
    (hcase : case ∈ cases) :
    exists d, Table.get? ctx.registry case.name = some d ∧
      (forall (small large : Term) (as bs : List Ty), small.type = .named case.name as ->
        large.type = .named case.name bs -> as.length = d.arity -> bs.length = d.arity ->
        forall depth t j,
          (assignDirectly ctx.toTypeContext depth .toTarget large.type small.type).outcome
              .disabled = some (.ok t, j) ->
          exists us vs, us.length = u.arity ∧ vs.length = u.arity ∧
            (Registry.lift ctx.registry small).type = .named union us ∧
            (Registry.lift ctx.registry large).type = .named union vs ∧
            exists depth, fits ctx.toTypeContext depth (.named union vs) (.named union us) =
              some true) ∧
      forall ref : Source.InlineRef, ref.typeArgs = [] -> ctx.caseSymbol ref.name = case.name ->
        (forall us vs : List Ty, us.length = u.arity -> vs.length = u.arity ->
          forall depth t j,
            (assignDirectly ctx.toTypeContext depth .toTarget (.named union vs)
                (.named union us)).outcome .disabled = some (.ok t, j) ->
            exists a b, ctx.SelectsType (.named union us) ref a ∧
              ctx.SelectsType (.named union vs) ref b ∧
              exists depth, fits ctx.toTypeContext depth b a = some true) ∧
        ((forall (k : Nat) p, u.params[k]? = some p -> k ∉ case.params ->
            p.variance = .covariant ∨ p.variance = .contravariant) ->
          forall us : List Ty, us.length = u.arity ->
            (forall t, t ∈ us -> t.isOver ctx.registry = true) ->
            exists a, ctx.SelectsType (.named union us) ref a ∧
              forall term : Term, term.type = a ->
                exists depth, fits ctx.toTypeContext depth (.named union us)
                  (Registry.lift ctx.registry term).type = some true) := by
  rcases hdeclared.joins hu hcases hcase with ⟨d, m, hjoins⟩
  refine ⟨d, hjoins.registered, ?_, ?_⟩
  · intro small large as bs hsmall hlarge has hbs depth t j hdirect
    rw [hsmall, hlarge] at hdirect
    have harity : forall args, (m.unionArgs args).length = u.arity :=
      fun args => (Membership.length_unionArgs m args).trans hjoins.agrees.arity
    exact ⟨_, _, harity as, harity bs, hjoins.lift_type hsmall, hjoins.lift_type hlarge,
      hjoins.assigns_lifted hbounds has hbs hdirect⟩
  · intro ref htypeArgs hsymbol
    constructor
    · intro us vs hus hvs depth t j hdirect
      exact ⟨_, _, hjoins.selectsType htypeArgs hsymbol us, hjoins.selectsType htypeArgs hsymbol vs,
        hjoins.assigns_selected hus hvs hdirect⟩
    · intro hleft us hus hover
      refine ⟨_, hjoins.selectsType htypeArgs hsymbol us, ?_⟩
      intro term hterm
      rw [hjoins.lift_type hterm]
      exact hjoins.assigns_lifted_selected hbounds hleft hus
        fun t ht => (Ty.isOver_iff.mp (hover t ht)).left

def signalModules : List Source.Module :=
  let param := fun name : String => ({ name := { name := name } } : Source.ParamDecl)
  [{ name := "Main"
     types := [
      .native { name := { name := "Num" } },
      .union { name := { name := "Signal" }, params := [param "+A", param "-B"] } [
        .native { name := { name := "Held" }, params := [param "+A"] },
        .native { name := { name := "Sent" }, params := [param "-B", param "+A"] }]] }]

def signalContext : Context where
  module := "Main"
  registry := ((Registration.ofModules {} 8 signalModules).getD {}).registry
  scope := { module := "Main" }

/-- `Held[never]` is lifted below `Held[Num]`. `Held` at `Signal[Num, Num]` is lifted back
below it, with `any` in the place of the second `Num`. -/
theorem held_signal_follows :
    let ctx := signalContext
    let signal : Symbol := ⟨"Main", "Signal"⟩
    let held : Symbol := ⟨"Main", "Held"⟩
    let num := Ty.named ⟨"Main", "Num"⟩ []
    let ref : Source.InlineRef := { name := { module := none, name := "Held" } }
    let small : Term := { type := .named held [.never], node := .unit }
    let large : Term := { type := .named held [num], node := .unit }
    let args := [num, num]
    (exists us vs, us.length = 2 ∧ vs.length = 2 ∧
      (Registry.lift ctx.registry small).type = .named signal us ∧
      (Registry.lift ctx.registry large).type = .named signal vs ∧
      exists depth, fits ctx.toTypeContext depth (.named signal vs) (.named signal us) =
        some true) ∧
    (exists a b, ctx.SelectsType (.named signal args) ref a ∧
      ctx.SelectsType (.named signal [.any, .never]) ref b ∧
      exists depth, fits ctx.toTypeContext depth b a = some true) ∧
    exists a, ctx.SelectsType (.named signal args) ref a ∧
      forall term : Term, term.type = a ->
        exists depth, fits ctx.toTypeContext depth (.named signal args)
          (Registry.lift ctx.registry term).type = some true := by
  intro ctx signal held num ref small large args
  have hdeclared : ctx.registry.Declared := by
    dsimp only [ctx, signalContext]
    exact Registry.declared_of_clean (by decide +kernel)
  have heval : (Table.get? ctx.registry signal).map (fun u =>
      (u.cases?, u.params.map Param.variance)) =
        some (some [⟨held, [0]⟩, ⟨⟨"Main", "Sent"⟩, [1, 0]⟩], [.covariant, .contravariant]) ∧
      (Table.get? ctx.registry held).map Declaration.arity = some 1 ∧
      (assignDirectly ctx.toTypeContext 8 .toTarget large.type small.type).verdict .disabled =
        some true ∧
      (assignDirectly ctx.toTypeContext 8 .toTarget (.named signal [.any, .never])
        (.named signal args)).verdict .disabled = some true := by
    decide +kernel
  rcases heval with ⟨hunion, harity, hmatches, hunions⟩
  rcases Option.map_eq_some_iff.mp hunion with ⟨u, hu, hinfo⟩
  rcases Prod.mk.inj hinfo with ⟨hcases, hvariances⟩
  have huarity : u.arity = 2 := by
    rw [Declaration.arity, <- List.length_map Param.variance, hvariances]
    rfl
  rcases lifting_and_selection_monotone hdeclared rfl hu hcases List.mem_cons_self with
    ⟨d, hd, hlifted, hselected⟩
  rw [hd] at harity
  have hdarity : d.arity = 1 := Option.some.inj harity
  rw [huarity, hdarity] at hlifted
  rw [huarity] at hselected
  rcases hselected ref rfl (by decide +kernel) with ⟨hselects, hback⟩
  rcases Inferring.verdict_eq_true.mp hmatches with ⟨t, i, hmatches⟩
  rcases Inferring.verdict_eq_true.mp hunions with ⟨t', i', hunions⟩
  refine ⟨?_, ?_, ?_⟩
  · exact hlifted small large [.never] [num] rfl rfl rfl rfl 8 t i hmatches
  · exact hselects args [.any, .never] rfl rfl 8 t' i' hunions
  · apply hback _ args rfl (by decide +kernel)
    intro k p hp _
    have hvariance : (u.params.map Param.variance)[k]? = some p.variance := by
      rw [List.getElem?_map, hp]
      rfl
    rw [hvariances] at hvariance
    rcases k with _ | _ | k
    · exact Or.inl (Option.some.inj hvariance).symm
    · exact Or.inr (Option.some.inj hvariance).symm
    · cases hvariance

end TypeChecker
