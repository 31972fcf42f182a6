import TypeChecker.Core
import TypeChecker.Proofs.Registry.Registered

/-!
# Parameters in scope

A written type mentions parameters by name, and the type that is read from it by position.
Completing puts a default in terms of the arguments before it. Where a default mentions its
own parameter or a later one, this position is kept, and then means a parameter of whoever
refers to the type. Otherwise every position stands for a parameter that is written there.
-/

namespace TypeChecker

namespace TypeScope

variable {scope : TypeScope}

def isWritten (scope : TypeScope) (refs : List Source.RefName) : Former -> Bool :=
  Former.onParams (fun index inferring =>
    !inferring && refs.any fun ref =>
      ref.module.isNone && decide (scope.params[index]? = some ref.name)) fun _ => true

theorem reads_isWritten (refs : List Source.RefName) : scope.Reads (scope.isWritten refs) where
  named _ _ _ _ _ _ := rfl
  unit := rfl
  tuple _ := rfl
  bundle _ _ := rfl
  func := rfl

/-- The parameters of a type that was read are written in it. -/
theorem param_of_read {expr : Source.TypeExpr} {t : Ty} (hread : scope.read expr = .ok t)
    {index : Nat} {inferring : Bool} (h : Former.param index inferring ∈ t.formers) :
    inferring = false ∧ exists ref, ref ∈ expr.value.bareRefs ∧ ref.module = none ∧
      scope.params[index]? = some ref.name := by
  have htakes : scope.Takes (scope.isWritten expr.value.bareRefs) expr.value.bareRefs := by
    intro ref href bare hbare
    rcases bareType?_eq_some hbare with rfl | rfl | rfl | ⟨index, rfl, hmodule, hname⟩
    · rfl
    · rfl
    · rfl
    · simp only [isWritten, Ty.former, Former.onParams, Bool.not_false, Bool.true_and]
      exact List.any_eq_true.mpr ⟨ref, href, by simp [hmodule, hname]⟩
  have heverywhere := everywhere_convert (reads_isWritten _) expr.value htakes hread
  have hwritten := Ty.everywhere_iff_formers.mp heverywhere _ h
  simpa [isWritten, Former.onParams, and_assoc] using hwritten

end TypeScope

/-- There is a parameter at a position of a context, and a written type mentions it. -/
def TypeContext.Mentions (ctx : TypeContext) (expr : Source.TypeExpr) (index : Nat) : Prop :=
  exists param, ctx.params[index]? = some param ∧
    exists ref, ref ∈ expr.value.bareRefs ∧ ref.module = none ∧ ref.name = param.name

theorem TypeContext.mentions_of_read {ctx : TypeContext} {limits : Limits}
    {expr : Source.TypeExpr} {t : Ty} (hread : (ctx.scope limits).read expr = .ok t)
    {index : Nat} {inferring : Bool} (h : Former.param index inferring ∈ t.formers) :
    inferring = false ∧ ctx.Mentions expr index := by
  rcases TypeScope.param_of_read hread h with ⟨hplain, ref, href, hmodule, hname⟩
  have hname : (ctx.params.map Param.name)[index]? = some ref.name := hname
  rw [List.getElem?_map] at hname
  rcases Option.map_eq_some_iff.mp hname with ⟨param, hparam, hsame⟩
  exact ⟨hplain, param, hparam, ref, href, hmodule, hsame.symm⟩

namespace Registration

variable {limits : Limits} {modules : List Source.Module}

theorem param_of_written {name : Symbol} {w : Declaration}
    (hw : Table.get? (written limits modules) name = some w) {t : Ty} (ht : t ∈ w.types)
    {index : Nat} {inferring : Bool} (h : Former.param index inferring ∈ t.formers) :
    inferring = false ∧ index < w.arity := by
  rcases built_of_written hw with ⟨k, entry, _, _, hbuild⟩
  rcases (Entry.build_types hbuild).right t ht with rfl | ⟨expr, hread⟩
  · simp [Ty.formers] at h
  · rcases TypeScope.param_of_read hread h with ⟨hplain, ref, _, _, hname⟩
    have hname : (entry.params.map Param.name)[index]? = some ref.name := hname
    refine ⟨hplain, ?_⟩
    rw [Declaration.arity, (Entry.build_fields hbuild).left, <- List.length_map Param.name]
    exact (List.getElem?_eq_some_iff.mp hname).choose

end Registration

/-- No default mentions its own parameter or a later one. -/
def Registry.LooksBack (registry : Registry) : Prop :=
  forall name d, Table.get? registry name = some d ->
    forall index t, Table.get? d.defaults index = some t ->
      forall k inferring, Former.param k inferring ∈ t.formers -> k < index

theorem Registry.looksBack_of_all {registry : Registry}
    (h : registry.all (fun item => item.2.defaults.all fun default =>
      default.2.everywhere (Former.onParams (fun k _ => Nat.blt k default.1) fun _ => true)) =
      true) : registry.LooksBack := by
  intro name d hd index t ht k inferring hmem
  have hentry := List.all_eq_true.mp h _ (Table.mem_of_get? hd)
  have hdefault := List.all_eq_true.mp hentry _ (Table.mem_of_get? ht)
  exact Nat.blt_eq.mp (Ty.everywhere_iff_formers.mp hdefault _ hmem)

theorem Registry.LooksBack.not_leaks {registry : Registry} (h : registry.LooksBack) {t : Ty}
    {index : Nat} {inferring : Bool} : ¬ t.Leaks registry index inferring := by
  rintro ⟨item, hitem, hle, hmem⟩
  rcases Ty.default_of_drawn hitem with ⟨name, d, hd, hdefault⟩
  exact Nat.not_lt.mpr hle (h name d hd item.1 item.2 hdefault index inferring hmem)

theorem Registry.LooksBack.registered {limits : Limits} {depth : Nat}
    {modules : List Source.Module} {r : Registration}
    (hr : Registration.ofModules limits depth modules = some r)
    (h : (Registration.written limits modules).LooksBack) : r.registry.LooksBack := by
  intro name d hd index t ht k inferring hmem
  rcases Registration.exists_written hr hd with ⟨w, hw, rfl⟩
  rcases Option.map_eq_some_iff.mp ((Table.get?_map _ w.defaults index).symm.trans ht)
    with ⟨default, hdefault, rfl⟩
  rcases Ty.param_mem_formers_complete.mp hmem with hmem | hleaks
  · exact h name w hw index default hdefault k inferring hmem
  · exact absurd hleaks h.not_leaks

/-- The parameters of a registered type are parameters of its declaration and those that
defaults brought in, and the parameters of a resolved type are written in it or brought in.
Nothing is brought in if no default that is written mentions its own parameter or a later
one. -/
theorem parameters_scoped_unless_defaults_leak {limits : Limits} {depth : Nat}
    {modules : List Source.Module} {r : Registration}
    (h : Registration.ofModules limits depth (Core.module :: modules) = some r) :
    let written := Registration.written limits (Core.module :: modules)
    (forall name d, Table.get? r.registry name = some d ->
      exists w, Table.get? written name = some w ∧
        d.types = w.types.map (Ty.complete written) ∧
        forall t, t ∈ w.types -> forall index inferring,
          (Former.param index inferring ∈ t.formers -> inferring = false ∧ index < d.arity) ∧
          (Former.param index inferring ∈ (t.complete written).formers ↔
            Former.param index inferring ∈ t.formers ∨ t.Leaks written index inferring)) ∧
    (forall (ctx : TypeContext) limits depth expr t, ctx.registry = r.registry ->
      (ctx.resolve limits depth expr).outcome = some (.ok t) ->
      exists s, (ctx.scope limits).read expr = .ok s ∧ t = s.complete r.registry ∧
        forall index inferring,
          (Former.param index inferring ∈ s.formers ->
            inferring = false ∧ ctx.Mentions expr index) ∧
          (Former.param index inferring ∈ t.formers ↔
            Former.param index inferring ∈ s.formers ∨ s.Leaks r.registry index inferring)) ∧
    (written.LooksBack ->
      (forall name d, Table.get? r.registry name = some d -> forall t, t ∈ d.types ->
        forall index inferring, Former.param index inferring ∈ t.formers ->
          inferring = false ∧ index < d.arity) ∧
      forall (ctx : TypeContext) limits depth expr t, ctx.registry = r.registry ->
        (ctx.resolve limits depth expr).outcome = some (.ok t) ->
        forall index inferring, Former.param index inferring ∈ t.formers ->
          inferring = false ∧ ctx.Mentions expr index) := by
  intro written
  constructor
  · intro name d hd
    rcases Registration.exists_written h hd with ⟨w, hw, rfl⟩
    refine ⟨w, hw, Declaration.types_complete written w, ?_⟩
    intro t ht index inferring
    exact ⟨Registration.param_of_written hw ht, Ty.param_mem_formers_complete⟩
  constructor
  · intro ctx limits depth expr t hregistry ht
    rcases TypeContext.resolve_ok ht with ⟨s, hread, rfl⟩
    rw [<- hregistry]
    refine ⟨s, hread, rfl, ?_⟩
    intro index inferring
    exact ⟨TypeContext.mentions_of_read hread, Ty.param_mem_formers_complete⟩
  intro hback
  constructor
  · intro name d hd t ht index inferring hmem
    rcases Registration.exists_written_type h hd ht with ⟨w, s, hw, harity, hs, rfl⟩
    have hwritten := (Ty.param_mem_formers_complete.mp hmem).resolve_right hback.not_leaks
    rw [<- harity]
    exact Registration.param_of_written hw hs hwritten
  · intro ctx limits depth expr t hregistry ht index inferring hmem
    rcases TypeContext.resolve_ok ht with ⟨s, hread, rfl⟩
    rw [hregistry] at hmem
    have hwritten := (Ty.param_mem_formers_complete.mp hmem).resolve_right
      (hback.registered h).not_leaks
    exact TypeContext.mentions_of_read hread hwritten

def pairDefaultModules (ofT ofU : Option Source.TypeNode) (inner : Source.TypeNode) :
    List Source.Module :=
  [{ name := "Main"
     types := [
      .native
        { name := { name := "P" }
          params := [
            { name := { name := "T" }, default := ofT.map fun node => { value := node } },
            { name := { name := "U" }, default := ofU.map fun node => { value := node } }] },
      .boxed { name := { name := "Q" }, params := [{ name := { name := "A" } }] }
        { inner := some { value := inner } }] }]

/-- With `P[T, U = T]`, the type `P[Y]` is resolved as `P[Y, Y]`. -/
theorem earlier_default_scoped :
    let expr : Source.TypeExpr :=
      { value := .ref { name := "P" } [{ value := .ref { name := "Y" } [] }] }
    let modules := pairDefaultModules none (some (.ref { name := "T" } []))
      (.ref { name := "P" } [{ value := .ref { name := "A" } [] }])
    let params : List Param := [⟨"X", .invariant⟩, ⟨"Y", .invariant⟩]
    let pair := Ty.named ⟨"Main", "P"⟩ [.param 1 false, .param 1 false]
    exists r, Registration.ofModules {} 4 (Core.module :: modules) = some r ∧ r.problems = [] ∧
      (forall name d, Table.get? r.registry name = some d -> forall t, t ∈ d.types ->
        forall index inferring, Former.param index inferring ∈ t.formers ->
          inferring = false ∧ index < d.arity) ∧
      TypeContext.resolved? { module := "Main", registry := r.registry, params } {} 4 expr =
        some pair ∧
      forall index inferring, Former.param index inferring ∈ pair.formers ->
        TypeContext.Mentions { module := "Main", registry := r.registry, params } expr index := by
  intro expr modules params pair
  have heval : (Registration.ofModules {} 4 (Core.module :: modules)).map (fun r =>
        (r.problems.isEmpty,
          TypeContext.resolved? { module := "Main", registry := r.registry, params } {} 4 expr)) =
        some (true, some pair) ∧
      (Registration.written {} (Core.module :: modules)).all (fun item =>
        item.2.defaults.all fun default =>
          default.2.everywhere (Former.onParams (fun k _ => Nat.blt k default.1) fun _ => true)) =
        true := by
    decide +kernel
  rcases heval with ⟨hcheck, hdefaults⟩
  rcases Option.map_eq_some_iff.mp hcheck with ⟨r, hr, heq⟩
  rcases Prod.mk.inj heq with ⟨hclean, hresolve⟩
  rcases parameters_scoped_unless_defaults_leak hr with ⟨_, _, hscoped⟩
  rcases hscoped (Registry.looksBack_of_all hdefaults) with ⟨hstored, hresolved⟩
  refine ⟨r, hr, List.isEmpty_iff.mp hclean, hstored, hresolve, ?_⟩
  intro index inferring hmem
  exact (hresolved _ _ _ _ _ rfl (TypeContext.resolved?_eq_some.mp hresolve) index inferring
    hmem).right

/-- With `P[T = U, U = Int]` the box `Q[A]` around `P` holds `P[#1, Int]`, though it has no
second parameter, and the type `P` is resolved as `P[Y, Int]` where `Y` is the second
parameter in scope. -/
theorem later_default_leaks :
    let expr : Source.TypeExpr := { value := .ref { name := "P" } [] }
    let modules := pairDefaultModules (some (.ref { name := "U" } []))
      (some (.ref { name := "Int" } [])) (.ref { name := "P" } [])
    let params : List Param := [⟨"X", .invariant⟩, ⟨"Y", .invariant⟩]
    let pair := Ty.named ⟨"Main", "P"⟩ [.param 1 false, Ty.core "Int"]
    exists r, Registration.ofModules {} 4 (Core.module :: modules) = some r ∧ r.problems = [] ∧
      (exists d boxed, Table.get? r.registry ⟨"Main", "Q"⟩ = some d ∧ d.arity = 1 ∧
        d.boxed? = some boxed ∧ boxed.inner = pair) ∧
      TypeContext.resolved? { module := "Main", registry := r.registry, params } {} 4 expr =
        some pair ∧
      ¬ TypeContext.Mentions { module := "Main", registry := r.registry, params } expr 1 := by
  intro expr modules params pair
  have hcheck : (Registration.ofModules {} 4 (Core.module :: modules)).map (fun r =>
      (r.problems.isEmpty,
        (Table.get? r.registry ⟨"Main", "Q"⟩).map fun d => (d.arity, d.boxed?.map Boxed.inner),
        TypeContext.resolved? { module := "Main", registry := r.registry, params } {} 4 expr)) =
      some (true, some (1, some pair), some pair) := by decide +kernel
  rcases Option.map_eq_some_iff.mp hcheck with ⟨r, hr, heq⟩
  rcases Prod.mk.inj heq with ⟨hclean, heq⟩
  rcases Prod.mk.inj heq with ⟨hstored, hresolve⟩
  rcases Option.map_eq_some_iff.mp hstored with ⟨d, hd, hstored⟩
  rcases Prod.mk.inj hstored with ⟨harity, hinner⟩
  rcases Option.map_eq_some_iff.mp hinner with ⟨boxed, hboxed, hinner⟩
  refine ⟨r, hr, List.isEmpty_iff.mp hclean, ⟨d, boxed, hd, harity, hboxed, hinner⟩, hresolve, ?_⟩
  rintro ⟨param, hparam, ref, href, _, hname⟩
  cases hparam
  cases List.mem_singleton.mp href
  exact absurd hname (by decide)

end TypeChecker
