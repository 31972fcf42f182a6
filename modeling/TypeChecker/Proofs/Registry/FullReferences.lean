import TypeChecker.Core
import TypeChecker.Proofs.Registry.Registered

/-!
# References with all their arguments

A reference may leave out arguments that have defaults, and completing fills them in. The
defaults that are filled in are not completed in turn. A type ends up with references at
all their arguments just if the defaults it draws have such references already.
-/

namespace TypeChecker

namespace Former

def isFull (registry : Registry) : Former -> Bool
  | .named name given => (Table.get? registry name).all fun d => given == d.arity
  | _ => true

def isAccepted (registry : Registry) : Former -> Bool
  | .named name given => (Table.get? registry name).all fun d => Nat.ble given d.arity
  | _ => true

theorem beyond_isFull (registry : Registry) (n : Nat) :
    beyond n (isFull registry) = isFull registry := by
  funext f
  cases f with
  | param index inferring => simp [beyond, onParams, isFull]
  | _ => rfl

end Former

/-- All references in a type have all their arguments. -/
def Ty.isFull (registry : Registry) (t : Ty) : Bool :=
  t.everywhere (Former.isFull registry)

/-- A completed type has full references just if the defaults have that are filled in. The
registry it is completed in may be an earlier one, with the same numbers of parameters. -/
theorem Ty.isFull_complete {earlier registry : Registry}
    (harity : forall name d, Table.get? registry name = some d ->
      exists w, Table.get? earlier name = some w ∧ w.arity = d.arity) {t : Ty}
    (ht : t.everywhere (Former.isAccepted earlier) = true) :
    (t.complete earlier).isFull registry = true ↔
      forall item, item ∈ t.drawn earlier -> item.2.isFull registry = true := by
  have hformers : forall f, f ∈ t.formers ->
      (f.completed earlier).isFull registry = true := by
    intro f hf
    have haccepted := everywhere_iff_formers.mp ht f hf
    cases f with
    | named name given =>
        cases hd : Table.get? registry name with
        | none =>
            rw [Former.completed]
            split <;> simp [Former.isFull, hd]
        | some d =>
            rcases harity name d hd with ⟨w, hw, hsame⟩
            simp only [Former.isAccepted, hw, Option.all_some, Nat.ble_eq, hsame] at haccepted
            simp [Former.completed, Former.isFull, hd, hw, hsame, Nat.max_eq_right haccepted]
    | _ => rfl
  rw [isFull, everywhere_complete_iff rfl]
  simp only [Former.beyond_isFull]
  constructor
  · exact And.right
  · exact And.intro hformers

namespace TypeScope

theorem reads_isAccepted {scope : TypeScope} {registry : Registry}
    (h : forall name fewest most d, scope.arities name = some (fewest, most) ->
      Table.get? registry name = some d -> most = d.arity) :
    scope.Reads (Former.isAccepted registry) where
  named name fewest most given hrange hgiven := by
    cases hd : Table.get? registry name with
    | none => simp [Former.isAccepted, hd]
    | some d =>
        rw [h name fewest most d hrange hd] at hgiven
        simpa [Former.isAccepted, hd] using hgiven
  unit := rfl
  tuple _ := rfl
  bundle _ _ := rfl
  func := rfl

theorem isAccepted_read {scope : TypeScope} {registry : Registry}
    (h : forall name fewest most d, scope.arities name = some (fewest, most) ->
      Table.get? registry name = some d -> most = d.arity) {expr : Source.TypeExpr} {t : Ty}
    (hread : scope.read expr = .ok t) : t.everywhere (Former.isAccepted registry) = true :=
  everywhere_read (reads_isAccepted h) rfl rfl (fun _ => rfl) hread

end TypeScope

namespace Registration

variable {limits : Limits} {modules : List Source.Module}

theorem arity_of_written {name : Symbol} {fewest most : Nat} {w : Declaration}
    (hrange : Entry.arities (Collection.ofModules modules).entries name = some (fewest, most))
    (hw : Table.get? (written limits modules) name = some w) : most = w.arity := by
  rcases Option.map_eq_some_iff.mp hrange with ⟨other, hfind, hother⟩
  rcases built_of_written hw with ⟨k, entry, hat, hname, hbuild⟩
  have hsame : other = entry := by
    refine (Collection.wellListed_ofModules modules).eq_of_symbol_eq
      (List.mem_of_find?_eq_some hfind) (List.mem_of_getElem? hat) ?_
    have hfound := List.find?_some hfind
    rw [hname]
    exact of_decide_eq_true hfound
  rw [Declaration.arity, (Entry.build_fields hbuild).left, <- hsame]
  exact (congrArg Prod.snd hother).symm

theorem isAccepted_written {name : Symbol} {w : Declaration}
    (hw : Table.get? (written limits modules) name = some w) {t : Ty} (ht : t ∈ w.types) :
    t.everywhere (Former.isAccepted (written limits modules)) = true := by
  refine written_stores rfl ?_ name w hw t ht
  intro entry expr read hread
  exact TypeScope.isAccepted_read (fun _ _ _ _ => arity_of_written) hread

variable {depth : Nat} {r : Registration}

theorem isFull_complete_written (h : ofModules limits depth modules = some r) {name : Symbol}
    {w : Declaration} (hw : Table.get? (written limits modules) name = some w) {t : Ty}
    (ht : t ∈ w.types) :
    (t.complete (written limits modules)).isFull r.registry = true ↔
      forall item, item ∈ t.drawn (written limits modules) ->
        item.2.isFull r.registry = true := by
  refine Ty.isFull_complete ?_ (isAccepted_written hw ht)
  intro name d hd
  rcases exists_written h hd with ⟨w, hw, rfl⟩
  exact ⟨w, hw, rfl⟩

end Registration

theorem TypeContext.isFull_complete_read {ctx : TypeContext} {limits : Limits}
    {expr : Source.TypeExpr} {t : Ty} (hread : (ctx.scope limits).read expr = .ok t) :
    (t.complete ctx.registry).isFull ctx.registry = true ↔
      forall item, item ∈ t.drawn ctx.registry -> item.2.isFull ctx.registry = true := by
  refine Ty.isFull_complete (fun _ d hd => ⟨d, hd, rfl⟩) (TypeScope.isAccepted_read ?_ hread)
  intro name fewest most d hrange hd
  have hrange : Registry.arities ctx.registry name = some (fewest, most) := hrange
  rw [Registry.arities, hd] at hrange
  cases hrange
  rfl

/-- A registered type has full references just if the defaults have that were filled in as
they were written, and a type that is resolved just if the registered ones have that are
filled in. So all of them have if no default that is written leaves out arguments. -/
theorem references_full_unless_defaults_omit {limits : Limits} {depth : Nat}
    {modules : List Source.Module} {r : Registration}
    (h : Registration.ofModules limits depth (Core.module :: modules) = some r) :
    let written := Registration.written limits (Core.module :: modules)
    (forall name d, Table.get? r.registry name = some d ->
      exists w, Table.get? written name = some w ∧
        d.types = w.types.map (Ty.complete written) ∧
        forall t, t ∈ w.types ->
          ((t.complete written).isFull r.registry = true ↔
            forall item, item ∈ t.drawn written -> item.2.isFull r.registry = true)) ∧
    (forall (ctx : TypeContext) limits depth expr t, ctx.registry = r.registry ->
      (ctx.resolve limits depth expr).outcome = some (.ok t) ->
      exists s, (ctx.scope limits).read expr = .ok s ∧ t = s.complete r.registry ∧
        (t.isFull r.registry = true ↔
          forall item, item ∈ s.drawn r.registry -> item.2.isFull r.registry = true)) ∧
    ((forall name w, Table.get? written name = some w ->
        forall index t, Table.get? w.defaults index = some t -> t.isFull r.registry = true) ->
      r.registry.Stores (Former.isFull r.registry) ∧
      forall (ctx : TypeContext) limits depth expr t, ctx.registry = r.registry ->
        (ctx.resolve limits depth expr).outcome = some (.ok t) ->
        t.isFull r.registry = true) := by
  intro written
  constructor
  · intro name d hd
    rcases Registration.exists_written h hd with ⟨w, hw, rfl⟩
    exact ⟨w, hw, Declaration.types_complete written w,
      fun t => Registration.isFull_complete_written h hw⟩
  constructor
  · intro ctx limits depth expr t hregistry ht
    rcases TypeContext.resolve_ok ht with ⟨s, hread, rfl⟩
    rw [<- hregistry]
    exact ⟨s, hread, rfl, TypeContext.isFull_complete_read hread⟩
  intro hdefaults
  have hstores : r.registry.Stores (Former.isFull r.registry) := by
    intro name d hd t ht
    rcases Registration.exists_written_type h hd ht with ⟨w, s, hw, _, hs, rfl⟩
    refine (Registration.isFull_complete_written h hw hs).mpr ?_
    intro item hitem
    rcases Ty.default_of_drawn hitem with ⟨other, v, hv, hdefault⟩
    exact hdefaults other v hv item.1 item.2 hdefault
  refine ⟨hstores, ?_⟩
  intro ctx limits depth expr t hregistry ht
  rcases TypeContext.resolve_ok ht with ⟨s, hread, rfl⟩
  rw [<- hregistry] at hstores ⊢
  refine (TypeContext.isFull_complete_read hread).mpr ?_
  intro item hitem
  rcases Ty.default_of_drawn hitem with ⟨other, d, hd, hdefault⟩
  exact hstores other d hd item.2 (Declaration.mem_types_of_default hdefault)

def nestedDefaultModules (ofY ofX : Source.TypeNode) : List Source.Module :=
  [{ name := "Main"
     types := [
      .native
        { name := { name := "W" }
          params := [{ name := { name := "C" }
                       default := some { value := .ref { name := "Int" } [] } }] },
      .native
        { name := { name := "Y" }
          params := [{ name := { name := "B" }, default := some { value := ofY } }] },
      .native
        { name := { name := "X" }
          params := [{ name := { name := "A" }, default := some { value := ofX } }] },
      .boxed { name := { name := "Z" } }
        { inner := some { value := .ref { name := "X" } [] } }] }]

/-- With the defaults `Y[B = W[Int]]` and `X[A = Y[W[Int]]]`. -/
theorem nested_defaults_full :
    let w := .ref { name := "W" } [{ value := .ref { name := "Int" } [] }]
    let modules := nestedDefaultModules w (.ref { name := "Y" } [{ value := w }])
    let full := Ty.named ⟨"Main", "X"⟩
      [.named ⟨"Main", "Y"⟩ [.named ⟨"Main", "W"⟩ [Ty.core "Int"]]]
    exists r, Registration.ofModules {} 4 (Core.module :: modules) = some r ∧ r.problems = [] ∧
      r.registry.Stores (Former.isFull r.registry) ∧
      TypeContext.resolved? { module := "Main", registry := r.registry } {} 4
        { value := .ref { name := "X" } [] } = some full ∧
      full.isFull r.registry = true := by
  intro w modules full
  have hcheck : (Registration.ofModules {} 4 (Core.module :: modules)).map (fun r =>
      (r.problems.isEmpty,
        TypeContext.resolved? { module := "Main", registry := r.registry } {} 4
          { value := .ref { name := "X" } [] },
        (Registration.written {} (Core.module :: modules)).all fun item =>
          item.2.defaults.all fun default => default.2.isFull r.registry)) =
      some (true, some full, true) := by decide +kernel
  rcases Option.map_eq_some_iff.mp hcheck with ⟨r, hr, heq⟩
  rcases Prod.mk.inj heq with ⟨hclean, heq⟩
  rcases Prod.mk.inj heq with ⟨hresolve, hdefaults⟩
  rcases references_full_unless_defaults_omit hr with ⟨_, _, hfull⟩
  rcases hfull (by
    intro name v hv index t ht
    have hentry := List.all_eq_true.mp hdefaults _ (Table.mem_of_get? hv)
    exact List.all_eq_true.mp hentry _ (Table.mem_of_get? ht)) with ⟨hstores, hresolved⟩
  exact ⟨r, hr, List.isEmpty_iff.mp hclean, hstores, hresolve,
    hresolved _ _ _ _ _ rfl (TypeContext.resolved?_eq_some.mp hresolve)⟩

/-- With the defaults `Y[B = W]` and `X[A = Y]` the box holds `X[Y]`, and the type `X` is
resolved as `X[Y[W]]`. -/
theorem nested_defaults_omit :
    let modules := nestedDefaultModules (.ref { name := "W" } []) (.ref { name := "Y" } [])
    let stored := Ty.named ⟨"Main", "X"⟩ [.named ⟨"Main", "Y"⟩ []]
    let resolved := Ty.named ⟨"Main", "X"⟩ [.named ⟨"Main", "Y"⟩ [.named ⟨"Main", "W"⟩ []]]
    exists r, Registration.ofModules {} 4 (Core.module :: modules) = some r ∧ r.problems = [] ∧
      (exists d boxed, Table.get? r.registry ⟨"Main", "Z"⟩ = some d ∧ d.boxed? = some boxed ∧
        boxed.inner = stored) ∧
      stored.isFull r.registry = false ∧
      TypeContext.resolved? { module := "Main", registry := r.registry } {} 4
        { value := .ref { name := "X" } [] } = some resolved ∧
      resolved.isFull r.registry = false := by
  intro modules stored resolved
  have hcheck : (Registration.ofModules {} 4 (Core.module :: modules)).map (fun r =>
      (r.problems.isEmpty,
        ((Table.get? r.registry ⟨"Main", "Z"⟩).bind Declaration.boxed?).map Boxed.inner,
        stored.isFull r.registry,
        TypeContext.resolved? { module := "Main", registry := r.registry } {} 4
          { value := .ref { name := "X" } [] },
        resolved.isFull r.registry)) =
      some (true, some stored, false, some resolved, false) := by decide +kernel
  rcases Option.map_eq_some_iff.mp hcheck with ⟨r, hr, heq⟩
  rcases Prod.mk.inj heq with ⟨hclean, heq⟩
  rcases Prod.mk.inj heq with ⟨hinner, heq⟩
  rcases Prod.mk.inj heq with ⟨hstored, heq⟩
  rcases Prod.mk.inj heq with ⟨hresolve, hresolved⟩
  rcases Option.map_eq_some_iff.mp hinner with ⟨boxed, hboxed, hinner⟩
  rcases Option.bind_eq_some_iff.mp hboxed with ⟨d, hd, hboxed⟩
  exact ⟨r, hr, List.isEmpty_iff.mp hclean, ⟨d, boxed, hd, hboxed, hinner⟩, hstored, hresolve,
    hresolved⟩

end TypeChecker
