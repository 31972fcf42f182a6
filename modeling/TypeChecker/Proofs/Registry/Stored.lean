import TypeChecker.Proofs.Assign.Parts
import TypeChecker.Variance.Usage

/-!
# Types stored in a registry

A declaration stores the types of its bounds and defaults, and the inner type of a
box. A condition on formers that all stored types satisfy is kept when a box is
opened.
-/

namespace TypeChecker

def Declaration.types (d : Declaration) : List Ty :=
  d.bounds.lower.map Prod.snd ++ d.bounds.upper.map Prod.snd ++ d.defaults.map Prod.snd ++
    (d.boxed?.map Boxed.inner).toList

/-- All types a registry stores satisfy `p` throughout. -/
def Registry.Stores (registry : Registry) (p : Former -> Bool) : Prop :=
  forall name d, Table.get? registry name = some d ->
    forall t, t ∈ d.types -> t.everywhere p = true

def Former.isApplied (registry : Registry) : Former -> Bool
  | .named name arity =>
      match Table.get? registry name with
      | some d => arity == d.arity
      | none => false
  | _ => true

def Former.isApplicable (registry : Registry) : Former -> Bool
  | .named name given => (Table.get? registry name).any fun d => Nat.ble given d.arity
  | _ => true

def Former.isOver (registry : Registry) (f : Former) : Bool :=
  f.isKnown registry && f.isApplied registry

/-- A type over a registry: its names are declared and applied in full, its bundles
list their fields in order, and none of its parameters is being inferred. -/
def Ty.isOver (registry : Registry) (t : Ty) : Bool :=
  t.everywhere (Former.isOver registry)

def Former.isPlain : Former -> Bool
  | .param _ inferring => !inferring
  | .bundle fields =>
      decide ((fields.map Prod.fst).Pairwise fun a b => KeyOrder.order a b = .lt)
  | _ => true

/-- All types a registry stores apply every name in full. -/
def Registry.FullyApplied (registry : Registry) : Prop :=
  registry.Stores (Former.isApplied registry)

def Registry.Signed (registry : Registry) : Prop :=
  forall name d, Table.get? registry name = some d ->
    forall p, p ∈ d.params -> p.variance ≠ .bivariant

/-- What holds of the declarations of a registry, whatever problems were found. -/
structure Registry.Orderly (registry : Registry) : Prop where
  plain : registry.Stores Former.isPlain
  signed : registry.Signed
  defaulted : forall name d, Table.get? registry name = some d ->
    forall index t, Table.get? d.defaults index = some t -> index < d.arity

/-- What holds of the declarations of a registry that was made without problems. -/
structure Registry.Lawful (registry : Registry) : Prop where
  known : registry.Stores (Former.isKnown registry)
  signed : registry.Signed
  defaulted : forall name d, Table.get? registry name = some d ->
    forall index t, Table.get? d.defaults index = some t -> index < d.arity
  respected : forall name d boxed, Table.get? registry name = some d -> d.boxed? = some boxed ->
    forall (index : Nat) p, d.params[index]? = some p ->
      p.variance.allows
        ((Variance.usage registry d.arity boxed.inner).getD index .bivariant) = true

theorem Declaration.boxed?_eq_some {d : Declaration} {boxed : Boxed} :
    d.boxed? = some boxed ↔ d.definition = .boxed boxed := by
  unfold boxed?
  cases d.definition <;> simp

theorem Declaration.cases?_eq_some {d : Declaration} {cases : List Case} :
    d.cases? = some cases ↔ d.definition = .union cases := by
  unfold cases?
  cases d.definition <;> simp

namespace Former

theorem isPlain_of_isKnown {registry : Registry} {f : Former} (h : f.isKnown registry = true) :
    f.isPlain = true := by
  cases f with
  | named name arity => rfl
  | _ => exact h

theorem isKnown_of_isPlain {registry : Registry} {f : Former} (h : f.isPlain = true)
    (hnamed : forall name arity, f = .named name arity -> Table.contains registry name = true) :
    f.isKnown registry = true := by
  cases f with
  | named name arity => exact hnamed name arity rfl
  | _ => exact h

theorem exists_of_isApplicable {registry : Registry} {name : Symbol} {given : Nat}
    (h : (Former.named name given).isApplicable registry = true) :
    exists d, Table.get? registry name = some d ∧ given ≤ d.arity := by
  simpa [isApplicable, Option.any_eq_true] using h

theorem isApplicable_of_isApplied {registry : Registry} {f : Former}
    (h : f.isApplied registry = true) : f.isApplicable registry = true := by
  cases f with
  | named name given =>
      simp only [isApplied] at h
      split at h
      · rename_i d hd
        simp [isApplicable, hd, eq_of_beq h]
      · cases h
  | _ => rfl

end Former

namespace Declaration

theorem mem_types {d : Declaration} {t : Ty} :
    t ∈ d.types ↔
      (exists index, (index, t) ∈ d.bounds.lower) ∨ (exists index, (index, t) ∈ d.bounds.upper) ∨
        (exists index, (index, t) ∈ d.defaults) ∨
        exists boxed, d.boxed? = some boxed ∧ boxed.inner = t := by
  simp [types]

theorem mem_types_of_default {d : Declaration} {index : Nat} {t : Ty}
    (h : Table.get? d.defaults index = some t) : t ∈ d.types :=
  mem_types.mpr (Or.inr (Or.inr (Or.inl ⟨index, Table.mem_of_get? h⟩)))

theorem mem_types_of_boxed {d : Declaration} {boxed : Boxed} (h : d.boxed? = some boxed) :
    boxed.inner ∈ d.types :=
  mem_types.mpr (Or.inr (Or.inr (Or.inr ⟨boxed, h, rfl⟩)))

end Declaration

theorem Registry.stores_of_all {registry : Registry} {p : Former -> Bool}
    (h : registry.all (fun item => item.2.types.all (Ty.everywhere p)) = true) :
    registry.Stores p := by
  intro name d hd t ht
  exact List.all_eq_true.mp (List.all_eq_true.mp h _ (Table.mem_of_get? hd)) t ht

namespace Ty

theorem everywhere_instantiate {p : Former -> Bool} {t : Ty} {args : List Ty}
    (ht : t.everywhere p = true) (hargs : forall s, s ∈ args -> s.everywhere p = true) :
    (t.instantiate args).everywhere p = true := by
  rw [<- Former.onParams_self p] at ht
  apply everywhere_replace ht
  intro index inferring hparam
  cases harg : args[index]? with
  | none => simpa [everywhere] using hparam
  | some arg => exact hargs arg (List.mem_of_getElem? harg)

theorem everywhere_instantiateWith {p : Former -> Bool} {t : Ty} {defaults : TypeMap}
    {args : List Ty} (ht : t.everywhere p = true)
    (hdefaults : forall index s, Table.get? defaults index = some s -> s.everywhere p = true)
    (hargs : forall s, s ∈ args -> s.everywhere p = true) :
    (t.instantiateWith defaults args).everywhere p = true := by
  rw [<- Former.onParams_self p] at ht
  apply everywhere_replace ht
  intro index inferring hparam
  cases harg : args[index]? with
  | some arg => exact hargs arg (List.mem_of_getElem? harg)
  | none =>
      cases hdefault : Table.get? defaults index with
      | none => simpa [everywhere] using hparam
      | some default =>
          simpa using everywhere_instantiate (hdefaults index default hdefault) hargs

theorem unbox_inner {module : String} {registry : Registry} {t inner : Ty}
    (h : t.unbox module registry = .inner inner) :
    exists name args d boxed,
      t = .named name args ∧ Table.get? registry name = some d ∧ d.boxed? = some boxed ∧
        (boxed.hidden && name.module != module) = false ∧
        inner = boxed.inner.instantiateWith d.defaults args := by
  cases t with
  | named name args =>
      simp only [unbox] at h
      split at h
      · cases h
      · rename_i d hd
        split at h
        · cases h
        · rename_i boxed hboxed
          split at h
          · cases h
          · rename_i hvisible
            cases h
            exact ⟨name, args, d, boxed, rfl, hd, hboxed, by simpa using hvisible, rfl⟩
  | _ => cases h

/-- Opening keeps a condition on formers that all stored types satisfy. -/
theorem everywhere_unbox {p : Former -> Bool} {module : String} {registry : Registry}
    {t inner : Ty} (hstores : registry.Stores p) (ht : t.everywhere p = true)
    (h : t.unbox module registry = .inner inner) : inner.everywhere p = true := by
  rcases unbox_inner h with ⟨name, args, d, boxed, rfl, hd, hboxed, _, rfl⟩
  have hargs : forall s, s ∈ args -> s.everywhere p = true := (everywhere_iff.mp ht).right
  exact everywhere_instantiateWith
    (hstores name d hd _ (Declaration.mem_types_of_boxed hboxed))
    (fun index s hs => hstores name d hd s (Declaration.mem_types_of_default hs)) hargs

theorem isOver_iff {registry : Registry} {t : Ty} :
    t.isOver registry = true ↔
      t.everywhere (Former.isKnown registry) = true ∧
        t.everywhere (Former.isApplied registry) = true :=
  everywhere_and

theorem plain_of_known {registry : Registry} {t : Ty}
    (h : t.everywhere (Former.isKnown registry) = true) : t.everywhere Former.isPlain = true :=
  everywhere_mono (fun _ => Former.isPlain_of_isKnown) h

theorem hasInferring_of_plain {t : Ty} (h : t.everywhere Former.isPlain = true) :
    t.hasInferring = false := by
  refine anyParam_eq_false.mpr (everywhere_mono ?_ h)
  intro f hf
  cases f with
  | param index inferring => exact hf
  | _ => rfl

theorem hasInferring_eq_false {registry : Registry} {t : Ty}
    (h : t.everywhere (Former.isKnown registry) = true) : t.hasInferring = false :=
  hasInferring_of_plain (plain_of_known h)

theorem ordered_of_plain {fields : List (String × Field Ty)}
    (h : (Ty.bundle fields).former.isPlain = true) : Table.Ordered (fields.map Prod.fst) := by
  unfold Table.Ordered
  simpa [former, Former.isPlain, List.map_map, Function.comp_def] using h

theorem field_of_plain {fields : List (String × Field Ty)}
    (h : (Ty.bundle fields).former.isPlain = true) {item : String × Field Ty}
    (hitem : item ∈ fields) : Table.get? fields item.1 = some item.2 :=
  Table.get?_of_mem (ordered_of_plain h).nodup hitem

theorem substitute_eq_self {t : Ty} (i : Inference) (h : t.hasInferring = false) :
    i.substitute t = t := by
  apply replace_eq_self (anyParam_eq_false.mp h)
  intro index inferring hparam
  cases inferring
  · rfl
  · cases hparam

end Ty
end TypeChecker
