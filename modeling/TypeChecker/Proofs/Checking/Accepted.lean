import TypeChecker.Checking.Aggregate
import TypeChecker.Checking.Candidates
import TypeChecker.Proofs.Assign.Results
import TypeChecker.Proofs.Bundles
import TypeChecker.Proofs.Slots
import Mathlib.Data.List.Forall2

/-!
# Accepted terms

An expected type accepts a term unless it refuses the type of the term. The steps
that settle drafts are shown to give accepted terms, if the checker for the parts
does so.
-/

namespace TypeChecker

open Inferring

/-- A condition on the inference that neither a binding affects nor the choice of what
an independent run left. -/
structure Inference.Stable (P : Inference -> Prop) : Prop where
  bind : forall i index slot, P i -> P (i.bind index slot)
  adopt : forall i other, P i -> P other -> P (i.adopt other)

theorem Inference.stable_arity (n : Nat) : Inference.Stable fun i => i.arity = n where
  bind := fun i index slot hi => by
    rw [<- hi]
    exact List.length_set
  adopt := fun i other hi _ => (i.arity_adopt other).trans hi

def Former.isProper (registry : Registry) (f : Former) : Bool :=
  f.isOver registry && f.isNumbered

/-- A type over a registry whose bundles number their slots from zero without gaps. -/
def Ty.isProper (registry : Registry) (t : Ty) : Bool :=
  t.everywhere (Former.isProper registry)

theorem Ty.isProper_iff {registry : Registry} {t : Ty} :
    t.isProper registry = true ↔
      t.isOver registry = true ∧ t.everywhere Former.isNumbered = true :=
  Ty.everywhere_and

theorem Ty.known_of_isProper {registry : Registry} {t : Ty} (h : t.isProper registry = true) :
    t.everywhere (Former.isKnown registry) = true :=
  (Ty.isOver_iff.mp (Ty.isProper_iff.mp h).left).left

theorem Ty.plain_of_isProper {registry : Registry} {t : Ty} (h : t.isProper registry = true) :
    t.hasInferring = false :=
  Ty.hasInferring_eq_false (Ty.known_of_isProper h)

theorem Inference.certain_eq {i : Inference} {t certain : Ty} (h : i.certain? t = some certain)
    (hplain : t.hasInferring = false) : certain = t := by
  rw [Inference.certain?] at h
  split at h
  · cases h
  · cases h
    exact Ty.substitute_eq_self i hplain

namespace TypeContext

/-- What types are checked against: the registry and the bounds in scope are known. -/
structure Known (types : TypeContext) : Prop where
  registry : types.registry.Stores (Former.isKnown types.registry)
  bounds : types.BoundsKnown

def Accepts (types : TypeContext) (expected : Option Ty) (term : Term) : Prop :=
  types.Known -> forall t, expected = some t -> t.isProper types.registry = true ->
    Admits types .toTarget t term.type

variable {types : TypeContext} {expected : Option Ty}

theorem accepts_none (term : Term) : types.Accepts none term := by
  intro _ t ht
  cases ht

theorem Accepts.intro {t : Ty} {term : Term}
    (h : types.Known -> t.isProper types.registry = true -> Admits types .toTarget t term.type) :
    types.Accepts (some t) term := by
  intro hknown s hs
  cases hs
  exact h hknown

theorem accepts_same {t : Ty} {term : Term}
    (h : t.isProper types.registry = true -> term.type = t) : types.Accepts (some t) term := by
  apply Accepts.intro
  intro _ hproper
  rw [h hproper]
  exact Admits.self .toTarget (Ty.known_of_isProper hproper)

end TypeContext

def Checker.Settles (c : Checker) (types : TypeContext) (P : Inference -> Prop) : Prop :=
  forall ctx : Context, ctx.toTypeContext = types -> forall expected draft,
    (c.settle ctx expected draft).Ensures P (types.Accepts expected)

section

variable {P : Inference -> Prop} {ctx : Context} {c : Checker} {expected : Option Ty}
  {span : Span}

theorem requireType_ensures :
    (liftM (requireType expected span) : Inferring ExprError Ty).Ensures P
      fun t => expected = some t := by
  apply ensures_except
  intro t ht
  cases expected with
  | none => cases ht
  | some s =>
      cases ht
      rfl

theorem requireCertain_ensures {t : Ty} :
    (requireCertain t span).Ensures P fun certain => t.hasInferring = false -> certain = t := by
  apply Ensures.bind ensures_state
  intro i _
  split
  · rename_i certain hcertain
    exact ensures_pure (Inference.certain_eq hcertain)
  · exact ensures_throw _

variable (hP : Inference.Stable P)

include hP

theorem preserves_assign (types : TypeContext) (depth : Nat) (d : Direction) (t given : Ty) :
    (assign types depth d t given).Preserves P :=
  (preserves_assign_and_directly hP.bind depth d t given).left

theorem fit_accepts {depth : Nat} {term : Term} :
    (ctx.fit depth expected term).Ensures P (ctx.Accepts expected) := by
  cases expected with
  | none => exact ensures_pure (TypeContext.accepts_none term)
  | some t =>
      have hassign : (assign ctx.toTypeContext depth .toTarget t term.type).Ensures P
          fun result => ctx.Known -> t.isProper ctx.registry = true ->
            Admits ctx.toTypeContext .toTarget t result := by
        intro i r j hi hrun
        refine ⟨(preserves_assign hP _ _ _ _ _ i r j hi hrun).left, ?_⟩
        rintro result rfl hknown hproper
        exact assign_admits hknown.bounds hknown.registry (Ty.known_of_isProper hproper) hrun
      apply Ensures.bind hassign.attempt
      intro result hresult
      cases result with
      | ok type => exact ensures_pure (TypeContext.Accepts.intro (hresult type rfl))
      | error e => exact Preserves.bind ensures_state.preserves fun _ => ensures_throw _

end

/-!
## Tuples, bundles and arrays
-/

namespace Checker

section

variable {P : Inference -> Prop} {ctx : Context} {c : Checker} {expected : Option Ty}
  {span : Span} (hc : c.Settles ctx.toTypeContext P)

include hc

theorem settleEach_accepts (items : List (Option Ty × Draft)) :
    (c.settleEach ctx items).Ensures P (List.Forall₂ ctx.Accepts (items.map Prod.fst)) := by
  induction items with
  | nil => exact ensures_pure List.Forall₂.nil
  | cons item rest ih =>
      rcases item with ⟨expected, draft⟩
      apply Ensures.bind (hc ctx rfl expected draft)
      intro term hterm
      exact ih.bind fun terms hterms => ensures_pure (List.Forall₂.cons hterm hterms)

theorem settleFields_accepts (fields : List (String × Field Ty))
    (given : List (Source.Ident × Draft)) :
    (c.settleFields ctx span fields given).Ensures P fun result =>
      List.Forall₂ (fun field item => item.1 = field.1 ∧ ctx.Accepts (some field.2.type) item.2)
        fields result.1 := by
  induction fields generalizing given with
  | nil => exact ensures_pure List.Forall₂.nil
  | cons field rest ih =>
      rcases field with ⟨name, field⟩
      rw [settleFields]
      split
      · exact Preserves.bind ensures_state.preserves fun _ => ensures_throw _
      · apply Ensures.bind (hc ctx rfl _ _)
        intro term hterm
        exact (ih _).bind fun result hresult =>
          ensures_pure (List.Forall₂.cons ⟨rfl, hterm⟩ hresult)

end

theorem related_at {α β : Type} {R : α -> β -> Prop} {as : List α} {bs : List β}
    (h : List.Forall₂ R as bs) {k : Nat} {a : α} {b : β} (ha : as[k]? = some a)
    (hb : bs[k]? = some b) : R a b := by
  rcases List.getElem?_eq_some_iff.mp ha with ⟨hk, rfl⟩
  rcases List.getElem?_eq_some_iff.mp hb with ⟨hk', rfl⟩
  exact h.get hk hk'

theorem related_map {α β γ : Type} {R : α -> β -> Prop} {f : α -> γ} {g : β -> γ}
    {as : List α} {bs : List β} (h : List.Forall₂ R as bs)
    (hR : forall a b, R a b -> g b = f a) : bs.map g = as.map f := by
  induction h with
  | nil => rfl
  | cons hab _ ih => rw [List.map_cons, List.map_cons, ih, hR _ _ hab]

theorem accepts_tuple {ctx : Context} {required : List Ty} {terms : List Term} {span : Span}
    (h : List.Forall₂ ctx.Accepts (required.map some) terms) :
    ctx.Accepts (some (.tuple required)) (tupleTerm terms span) := by
  apply TypeContext.Accepts.intro
  intro hknown hproper
  have hparts := (Ty.everywhere_iff.mp hproper).right
  have hlength := h.length_eq
  rw [List.length_map] at hlength
  refine Admits.of_parts rfl ?_ rfl ?_
  · simp [tupleTerm, Ty.former, hlength]
  · intro k v t g hv ht hg
    have hcovariant : v = .covariant :=
      List.eq_of_mem_replicate (List.mem_of_getElem? hv)
    subst hcovariant
    simp only [tupleTerm, Ty.parts, List.getElem?_map] at ht hg
    rcases Option.map_eq_some_iff.mp hg with ⟨term, hterm, rfl⟩
    rw [Direction.within_covariant]
    have hexpected : (required.map some)[k]? = some (some t) := by
      rw [List.getElem?_map, ht]
      rfl
    exact related_at h hexpected hterm hknown t rfl (hparts t (List.mem_of_getElem? ht))

theorem accepts_bundle {ctx : Context} {declared : List (String × Field Ty)}
    {terms : List (String × Term)} {term : Term}
    (h : List.Forall₂
      (fun field item => item.1 = field.1 ∧ ctx.Accepts (some field.2.type) item.2)
      (Ty.inSlotOrder declared) terms)
    (hterm : term.type = Ty.bundleOf (terms.map fun item => (item.1, item.2.type))) :
    ctx.Accepts (some (.bundle declared)) term := by
  apply TypeContext.Accepts.intro
  intro hknown hproper
  rcases Ty.everywhere_iff.mp hproper with ⟨hhere, hparts⟩
  rw [Former.isProper, Bool.and_eq_true, Former.isOver, Bool.and_eq_true] at hhere
  have hordered : Table.Ordered (declared.map Prod.fst) := by
    have hheads := Former.ordered_of_isKnown hhere.left.left
    rwa [List.map_map] at hheads
  have hnames : (terms.map fun item => (item.1, item.2.type)).map Prod.fst =
      (Ty.inSlotOrder declared).map Prod.fst := by
    rw [List.map_map]
    exact related_map h fun field item hitem => hitem.left
  have hformer := Ty.former_bundleOf hordered hhere.right hnames
  rw [hterm]
  apply Admits.of_parts rfl hformer.symm (hformer ▸ hhere.left.left)
  intro k v t g hv ht hg
  have hcovariant : v = .covariant := by
    rcases List.mem_map.mp (List.mem_of_getElem? hv) with ⟨_, _, rfl⟩
    rfl
  subst hcovariant
  simp only [Ty.bundleOf, Ty.parts, List.getElem?_map] at ht hg
  rcases Option.map_eq_some_iff.mp ht with ⟨field, hfield, rfl⟩
  rcases Option.map_eq_some_iff.mp hg with ⟨given, hgiven, rfl⟩
  rcases Ty.field_bundleOf hordered hhere.right hnames hfield hgiven with ⟨m, hslot, htyped⟩
  rw [List.getElem?_map] at htyped
  rcases Option.map_eq_some_iff.mp htyped with ⟨item, hitem, hpair⟩
  rw [Direction.within_covariant, <- (Prod.mk.inj hpair).right]
  have hpart : field.2.type ∈ (Ty.bundle declared).parts :=
    List.mem_map.mpr ⟨field, List.mem_of_getElem? hfield, rfl⟩
  exact (related_at h hslot hitem).right hknown _ rfl (hparts _ hpart)

section

variable {P : Inference -> Prop} {ctx : Context} {c : Checker} {expected : Option Ty}
  {span : Span} (hP : Inference.Stable P)
  (hc : c.Settles ctx.toTypeContext P)

include hP hc

theorem settleTuple_accepts {items : List Draft} :
    (c.settleTuple ctx expected items span).Ensures P (ctx.Accepts expected) := by
  unfold settleTuple
  split
  · rename_i required
    dsimp only
    split
    · exact Preserves.bind ensures_state.preserves fun _ =>
        ensures_throw_bind _ _
    · rename_i hlength
      have hlength : required.length = items.length := Decidable.not_not.mp hlength
      apply Ensures.bind (settleEach_accepts hc _)
      intro terms hterms
      rw [List.map_fst_zip (by simp [hlength])] at hterms
      exact ensures_pure (accepts_tuple hterms)
  · split
    · exact Preserves.bind ensures_state.preserves fun _ => ensures_throw _
    · exact Preserves.bind (preserves_judge _) fun terms => fit_accepts hP

omit hP in
theorem settleBundle_accepts {fields : List (Source.Ident × Draft)} :
    (c.settleBundle ctx expected fields span).Ensures P (ctx.Accepts expected) := by
  apply Ensures.bind requireType_ensures
  intro t ht
  subst ht
  split
  · rename_i declared
    apply Ensures.bind (settleFields_accepts hc _ _)
    intro result hresult
    dsimp only
    split
    · exact Preserves.bind ensures_state.preserves fun _ => ensures_throw _
    · exact ensures_pure (accepts_bundle hresult rfl)
  · split
    · rename_i hunit
      refine ensures_pure (TypeContext.accepts_same fun _ => ?_)
      cases t <;> simp_all [Ty.isUnit, Term.unit]
    · exact Preserves.bind ensures_state.preserves fun _ => ensures_throw _

omit hP hc in
theorem arrayElement_eq {t element : Ty} (h : arrayElement? t = some element) :
    t = Core.arrayOf element := by
  unfold arrayElement? at h
  split at h
  · split at h
    · rename_i hname
      cases h
      rw [hname, Core.arrayOf]
    · cases h
  · cases h

theorem settleArray_accepts {items : List Draft} :
    (c.settleArray ctx expected items span).Ensures P (ctx.Accepts expected) := by
  unfold settleArray
  split
  · exact (preserves_judge _).mono fun term _ => TypeContext.accepts_none term
  · rename_i t
    split
    · rename_i element helement
      apply Preserves.bind (settleEach_accepts hc _).preserves
      intro terms
      apply Ensures.bind requireCertain_ensures
      intro certain hcertain
      refine ensures_pure (TypeContext.accepts_same fun hproper => ?_)
      have ht := arrayElement_eq helement
      subst ht
      have hpart : element.isProper ctx.registry = true :=
        (Ty.everywhere_iff.mp hproper).right element List.mem_cons_self
      rw [hcertain (Ty.plain_of_isProper hpart)]
    · split
      · exact Preserves.bind (preserves_judge _) fun array => fit_accepts hP
      · exact Preserves.bind ensures_state.preserves fun _ => ensures_throw _

end

end Checker

end TypeChecker
