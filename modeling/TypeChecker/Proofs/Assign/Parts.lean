import TypeChecker.Assign.Basic
import TypeChecker.Proofs.Replacing
import TypeChecker.Proofs.Runs
import TypeChecker.Proofs.Tables

/-!
# Assigning part by part

Every part of a type stands at a position of some variance. Matching two types of
one former by structure is assigning their parts one after another, each in the
direction its position asks for.
-/

namespace TypeChecker

namespace Registry

def varianceAt (registry : Registry) (name : Symbol) (index : Nat) : Variance :=
  ((Table.get? registry name).bind fun d => d.params[index]?.map Param.variance).getD .invariant

end Registry

namespace Former

def positions (registry : Registry) : Former -> List Variance
  | .named name arity => (List.range arity).map (registry.varianceAt name)
  | .tuple size => List.replicate size .covariant
  | .bundle fields => fields.map fun _ => .covariant
  | .func => [.contravariant, .covariant]
  | _ => []

def build : Former -> List Ty -> Ty
  | .never, _ => .never
  | .any, _ => .any
  | .param index inferring, _ => .param index inferring
  | .named name _, parts => .named name parts
  | .unit, _ => .unit
  | .tuple _, parts => .tuple parts
  | .bundle fields, parts =>
      .bundle (List.zipWith (fun field part => (field.1, ⟨field.2, part⟩)) fields parts)
  | .func, parts => .func (parts.getD 0 .unit) (parts.getD 1 .unit)

/-- A parameter is not being inferred, a name is declared, and the fields of a bundle
are listed in the order of their names. -/
def isKnown (registry : Registry) : Former -> Bool
  | .param _ inferring => !inferring
  | .named name _ => Table.contains registry name
  | .bundle fields =>
      decide ((fields.map Prod.fst).Pairwise fun a b => KeyOrder.order a b = .lt)
  | _ => true

theorem ordered_of_isKnown {registry : Registry} {fields : List (String × Nat)}
    (h : (Former.bundle fields).isKnown registry = true) :
    Table.Ordered (fields.map Prod.fst) := by
  unfold Table.Ordered
  simpa [isKnown] using h

theorem declared_of_isKnown {registry : Registry} {name : Symbol} {arity : Nat}
    (h : (Former.named name arity).isKnown registry = true) :
    exists d, Table.get? registry name = some d :=
  Option.isSome_iff_exists.mp h

theorem former_build {t : Ty} {parts : List Ty} (h : parts.length = t.parts.length) :
    (t.former.build parts).former = t.former := by
  cases t with
  | bundle fields =>
      simp only [Ty.former, build, Ty.parts, List.length_map] at h ⊢
      congr 1
      induction fields generalizing parts with
      | nil => rfl
      | cons field fields ih =>
          cases parts with
          | nil => simp at h
          | cons part parts =>
              simp at h
              simp [ih h]
  | _ => simp_all [Ty.former, build, Ty.parts]

theorem parts_build {t : Ty} {parts : List Ty} (h : parts.length = t.parts.length) :
    (t.former.build parts).parts = parts := by
  cases t with
  | bundle fields =>
      simp only [Ty.former, build, Ty.parts, List.length_map] at h ⊢
      induction fields generalizing parts with
      | nil => simpa [eq_comm] using h
      | cons field fields ih =>
          cases parts with
          | nil => rfl
          | cons part parts =>
              simp at h
              simp [ih h]
  | func input output =>
      rcases List.length_eq_two.mp h with ⟨a, b, rfl⟩
      rfl
  | _ => simp_all [Ty.former, build, Ty.parts]

end Former

theorem Ty.length_positions (registry : Registry) (t : Ty) :
    (t.former.positions registry).length = t.parts.length := by
  cases t <;> simp [Ty.former, Ty.parts, Former.positions]

namespace Direction

@[simp] theorem within_covariant (d : Direction) : d.within .covariant = d := by
  cases d <;> rfl

@[simp] theorem within_contravariant (d : Direction) : d.within .contravariant = d.inverse := by
  cases d <;> rfl

end Direction

namespace Assign

def parts (assign : Assigner) (d : Direction) :
    List Variance -> List Ty -> List Ty -> Assigning (List Ty)
  | v :: vs, target :: targets, given :: givens => do
      let first <- assign (d.within v) target given
      return first :: (← parts assign d vs targets givens)
  | _, [], [] => return []
  | _, _, _ => Assigning.mismatch

variable {assign : Assigner} {d : Direction}

theorem items_eq_parts {targets givens : List Ty} (h : targets.length = givens.length) :
    items (assign d) targets givens =
      parts assign d (List.replicate targets.length .covariant) targets givens := by
  induction targets generalizing givens with
  | nil =>
      cases givens with
      | nil => rfl
      | cons given givens => simp at h
  | cons target targets ih =>
      cases givens with
      | nil => simp at h
      | cons given givens =>
          simp only [List.length_cons, Nat.add_right_cancel_iff] at h
          simp only [items, List.length_cons, List.replicate_succ, parts,
            Direction.within_covariant, ih h]

theorem args_eq_parts {params : List Param} {targets givens : List Ty}
    (h : targets.length = givens.length) :
    args assign d params targets givens =
      parts assign d
        ((List.range targets.length).map fun k =>
          (params[k]?.map Param.variance).getD .invariant)
        targets givens := by
  induction targets generalizing params givens with
  | nil =>
      cases givens with
      | nil => rfl
      | cons given givens => simp at h
  | cons target targets ih =>
      cases givens with
      | nil => simp at h
      | cons given givens =>
          simp only [List.length_cons, Nat.add_right_cancel_iff] at h
          rw [List.length_cons, List.range_succ_eq_map, List.map_cons, List.map_map]
          simp only [args, parts, ih h, List.head?_eq_getElem?]
          congr 1
          funext first
          simp [Function.comp_def]

theorem fields_eq_parts {table : Table String (Field Ty)} {targets : List (String × Field Ty)}
    {givens : List (String × Field Ty)}
    (hheads : targets.map (fun item => (item.1, item.2.slot)) =
      givens.map (fun item => (item.1, item.2.slot)))
    (hfound : forall item, item ∈ givens -> Table.get? table item.1 = some item.2) :
    fields (assign d) table targets =
      (fun types => List.zipWith (fun item t => (item.1, ⟨item.2.slot, t⟩)) targets types) <$>
        parts assign d (targets.map fun _ => .covariant)
          (targets.map fun item => item.2.type) (givens.map fun item => item.2.type) := by
  induction targets generalizing givens with
  | nil =>
      cases givens with
      | nil => simp [fields, parts]
      | cons given givens => simp at hheads
  | cons target targets ih =>
      cases givens with
      | nil => simp at hheads
      | cons given givens =>
          rcases target with ⟨name, field⟩
          simp only [List.map_cons, List.cons.injEq, Prod.mk.injEq] at hheads
          rcases hheads with ⟨⟨hname, hslot⟩, hrest⟩
          have hget : Table.get? table name = some given.2 := by
            rw [hname]
            exact hfound given List.mem_cons_self
          have hrestFound : forall item, item ∈ givens -> Table.get? table item.1 = some item.2 :=
            fun item hitem => hfound item (List.mem_cons_of_mem _ hitem)
          simp only [fields, hget, Assigning.ofOption, pure_bind, hslot, if_true, List.map_cons,
            parts, Direction.within_covariant, ih hrest hrestFound, map_bind, bind_map_left,
            map_pure, List.zipWith_cons_cons]

theorem structural_eq_parts {ctx : TypeContext} {target given : Ty}
    (hparam : target.former.isParam = false) (hformer : target.former = given.former)
    (hknown : given.former.isKnown ctx.registry = true) :
    structural ctx assign d target given =
      target.former.build <$>
        parts assign d (target.former.positions ctx.registry) target.parts given.parts := by
  cases target <;> cases given <;>
    simp only [Ty.former, Former.isParam, reduceCtorEq, Former.named.injEq, Former.tuple.injEq,
      Former.bundle.injEq] at hparam hformer
  case never.never => simp [structural, Ty.parts, Ty.former, parts, Former.build]
  case any.any => simp [structural, Ty.parts, Ty.former, parts, Former.build]
  case unit.unit => simp [structural, Ty.parts, Ty.former, parts, Former.build]
  case named.named name targets other givens =>
    rcases hformer with ⟨rfl, hlen⟩
    rcases Former.declared_of_isKnown hknown with ⟨declaration, hdeclared⟩
    simp only [structural, hlen, beq_self_eq_true, Bool.and_self, decide_true, if_true, hdeclared,
      args_eq_parts hlen, Ty.former, Ty.parts, Former.positions, map_eq_pure_bind, Former.build]
    congr
    funext k
    simp [Registry.varianceAt, hdeclared]
  case tuple.tuple targets givens =>
    simp only [structural, hformer, if_true, items_eq_parts hformer, Ty.former, Ty.parts,
      Former.positions, map_eq_pure_bind, Former.build]
  case bundle.bundle targets givens =>
    have hlen : targets.length = givens.length := by
      simpa using congrArg List.length hformer
    have hordered := Former.ordered_of_isKnown hknown
    have hkeys : (givens.map Prod.fst).Nodup := by
      simpa [List.map_map, Function.comp_def] using hordered.nodup
    have hfound : forall item, item ∈ givens -> Table.get? givens item.1 = some item.2 :=
      fun item hitem => Table.get?_of_mem hkeys hitem
    simp only [structural, hlen, if_true, fields_eq_parts hformer hfound, Ty.former, Ty.parts,
      Former.positions, map_eq_pure_bind, Former.build, bind_assoc, pure_bind, List.map_map]
    congr
    funext types
    rw [List.zipWith_map_left]
  case func.func input output givenInput givenOutput =>
    simp [structural, Ty.former, Ty.parts, parts, Former.positions, Former.build]

theorem found_of_fields_ok {assign : Ty -> Ty -> Assigning Ty} {table : Table String (Field Ty)}
    {targets result : List (String × Field Ty)} {i j : Inference}
    (h : (fields assign table targets).outcome i = some (.ok result, j)) :
    forall item, item ∈ targets ->
      exists given, Table.get? table item.1 = some given ∧ given.slot = item.2.slot := by
  induction targets generalizing i j result with
  | nil =>
      intro item hitem
      cases hitem
  | cons target targets ih =>
      rcases target with ⟨name, field⟩
      simp only [fields] at h
      rcases Inferring.outcome_bind_ok.mp h with ⟨given, k, hgiven, h⟩
      split at h
      · rename_i hslot
        rcases Inferring.outcome_bind_ok.mp h with ⟨type, l, _, h⟩
        rcases Inferring.outcome_bind_ok.mp h with ⟨rest, m, hrest, _⟩
        intro item hitem
        rcases List.mem_cons.mp hitem with rfl | hitem
        · cases hget : Table.get? table name with
          | none =>
              rw [hget] at hgiven
              cases hgiven
          | some found =>
              rw [hget] at hgiven
              cases hgiven
              exact ⟨given, rfl, hslot⟩
        · exact ih hrest item hitem
      · cases h

theorem heads_eq_of_found {targets givens : List (String × Field Ty)}
    (htargets : Table.Ordered (targets.map Prod.fst))
    (hgivens : Table.Ordered (givens.map Prod.fst)) (hlen : targets.length = givens.length)
    (hfound : forall item, item ∈ targets ->
      exists given, Table.get? givens item.1 = some given ∧ given.slot = item.2.slot) :
    targets.map (fun item => (item.1, item.2.slot)) =
      givens.map (fun item => (item.1, item.2.slot)) := by
  have hsub : targets.map Prod.fst ⊆ givens.map Prod.fst := by
    intro name hname
    rcases List.mem_map.mp hname with ⟨item, hitem, rfl⟩
    rcases hfound item hitem with ⟨given, hget, _⟩
    exact List.mem_map.mpr ⟨(item.1, given), Table.mem_of_get? hget, rfl⟩
  have hnames : targets.map Prod.fst = givens.map Prod.fst :=
    htargets.eq_of_subset hgivens (by simpa using hlen) hsub
  -- Both lists are the names paired with the slot the given table has for them.
  let slotOf := fun name => ((Table.get? givens name).map Field.slot).getD 0
  have hleft : targets.map (fun item => (item.1, item.2.slot)) =
      (targets.map Prod.fst).map fun name => (name, slotOf name) := by
    rw [List.map_map]
    apply List.map_congr_left
    intro item hitem
    rcases hfound item hitem with ⟨given, hget, hslot⟩
    simp [slotOf, hget, hslot]
  have hright : givens.map (fun item => (item.1, item.2.slot)) =
      (givens.map Prod.fst).map fun name => (name, slotOf name) := by
    rw [List.map_map]
    apply List.map_congr_left
    intro item hitem
    simp [slotOf, Table.get?_of_mem hgivens.nodup hitem]
  rw [hleft, hright, hnames]

theorem former_eq_of_structural_ok {ctx : TypeContext} {target given t : Ty} {i j : Inference}
    (htarget : target.former.isKnown ctx.registry = true)
    (hgiven : given.former.isKnown ctx.registry = true)
    (h : (structural ctx assign d target given).outcome i = some (.ok t, j)) :
    target.former.isParam = false ∧ target.former = given.former := by
  unfold structural at h
  split at h
  · exact ⟨rfl, rfl⟩
  · exact ⟨rfl, rfl⟩
  · exact ⟨rfl, rfl⟩
  · split at h
    · rename_i hsame
      simp only [Bool.and_eq_true, decide_eq_true_eq, beq_iff_eq] at hsame
      exact ⟨rfl, by rw [Ty.former, Ty.former, hsame.left, hsame.right]⟩
    · cases h
  · split at h
    · rename_i hlen
      exact ⟨rfl, by rw [Ty.former, Ty.former, hlen]⟩
    · cases h
  · rename_i targets givens
    split at h
    · rename_i hlen
      rcases Inferring.outcome_bind_ok.mp h with ⟨result, k, hfields, _⟩
      have htargets := Former.ordered_of_isKnown htarget
      have hgivens := Former.ordered_of_isKnown hgiven
      rw [List.map_map] at htargets hgivens
      refine ⟨rfl, ?_⟩
      rw [Ty.former, Ty.former,
        heads_eq_of_found htargets hgivens hlen (found_of_fields_ok hfields)]
    · cases h
  · exact ⟨rfl, rfl⟩
  · cases h

/-- An accepted match by structure is one of the parts, of types of one former. -/
theorem structural_parts_ok {ctx : TypeContext} {target given t : Ty} {i j : Inference}
    (htarget : target.former.isKnown ctx.registry = true)
    (hgiven : given.former.isKnown ctx.registry = true)
    (h : (structural ctx assign d target given).outcome i = some (.ok t, j)) :
    target.former = given.former ∧ exists results,
      (parts assign d (target.former.positions ctx.registry) target.parts given.parts).outcome i =
        some (.ok results, j) ∧ t = target.former.build results := by
  rcases former_eq_of_structural_ok htarget hgiven h with ⟨hparam, hformer⟩
  rw [structural_eq_parts hparam hformer hgiven, Inferring.outcome_map] at h
  refine ⟨hformer, ?_⟩
  split at h
  · cases h
  · rename_i results k hrun
    cases h
    exact ⟨results, hrun, rfl⟩
  · cases h

end Assign
end TypeChecker
