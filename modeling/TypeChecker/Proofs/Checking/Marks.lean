import TypeChecker.Proofs.Assign.Closed
import TypeChecker.Proofs.Assign.Evolution
import TypeChecker.Proofs.Checking.Names
import TypeChecker.Proofs.Checking.Settled

/-!
# Parameters being inferred in settled terms

While type arguments are inferred, the expected type of a draft holds the parameters in
question, marked as being inferred. They are not to get any further: bindings, and the
types of drafts, have none. Each rule that settles a draft keeps the bindings so, and puts
bindings for the parameters where the term takes over the expected type. Only a box that
is filled unasked takes over its arguments as far as they are known, so that a parameter
without a binding remains there.
-/

namespace TypeChecker

/-!
## Marked parameters
-/

/-- The parameter `k` occurs in a type as one being inferred. -/
def Ty.marks (t : Ty) (k : Nat) : Bool :=
  t.anyParam fun index inferring => inferring && index == k

abbrev Ty.Unmarked (t : Ty) : Prop := t.everywhere Former.isUnmarked = true

namespace Ty

variable {t : Ty} {k : Nat}

theorem unmarked_iff : t.Unmarked ↔ t.hasInferring = false := anyParam_eq_false.symm

theorem marks_eq_false :
    t.marks k = false ↔ t.everywhere (fun f => decide (f ≠ .param k true)) = true := by
  have hsame : Former.onParams (fun index inferring => !(inferring && index == k)) (fun _ => true) =
      fun f => decide (f ≠ .param k true) := by
    funext f
    rw [Bool.eq_iff_iff]
    cases f with
    | param index inferring => cases inferring <;> simp [Former.onParams]
    | _ => simp [Former.onParams]
  rw [marks, anyParam_eq_false, hsame]

theorem marks_iff : t.marks k = true ↔ Former.param k true ∈ t.formers := by
  rw [<- Bool.not_eq_false, marks_eq_false, everywhere_iff_formers]
  simp

theorem Unmarked.not_marks (h : t.Unmarked) (hmarks : t.marks k = true) : False := by
  cases everywhere_iff_formers.mp h _ (marks_iff.mp hmarks)

theorem Unmarked.marks (h : t.Unmarked) (k : Nat) : t.marks k = false :=
  Bool.eq_false_iff.mpr h.not_marks

theorem unmarked_of_marks (h : forall k, t.marks k = true -> False) : t.Unmarked := by
  refine everywhere_iff_formers.mpr ?_
  intro f hf
  cases f with
  | param index inferring =>
      cases inferring with
      | false => rfl
      | true => exact (h index (marks_iff.mpr hf)).elim
  | _ => rfl

theorem exists_part_marks (hparam : t.former.isParam = false) (h : t.marks k = true) :
    exists s, s ∈ t.parts ∧ s.marks k = true := by
  have hmem := marks_iff.mp h
  rw [formers_eq] at hmem
  rcases List.mem_cons.mp hmem with hhere | hinside
  · rw [<- hhere] at hparam
    cases hparam
  · rcases List.mem_flatMap.mp hinside with ⟨s, hs, hmem⟩
    exact ⟨s, hs, marks_iff.mpr hmem⟩

theorem marks_of_part {s : Ty} (hs : s ∈ t.parts) (h : s.marks k = true) : t.marks k = true := by
  rw [marks_iff, formers_eq]
  exact List.mem_cons_of_mem _ (List.mem_flatMap.mpr ⟨s, hs, marks_iff.mp h⟩)

theorem unmarked_of_parts (hformer : t.former.isUnmarked = true)
    (hparts : forall s, s ∈ t.parts -> s.Unmarked) : t.Unmarked :=
  everywhere_iff.mpr ⟨hformer, hparts⟩

theorem unmarked_func {input output : Ty} (hinput : input.Unmarked) (houtput : output.Unmarked) :
    (Ty.func input output).Unmarked :=
  unmarked_of_parts rfl
    (List.forall_mem_cons.mpr ⟨hinput, List.forall_mem_singleton.mpr houtput⟩)

theorem unmarked_core (name : String) : (Ty.core name).Unmarked :=
  unmarked_of_parts rfl (List.forall_mem_nil _)

theorem unmarked_applied {arg : Ty} (h : arg.Unmarked) (name : Symbol) :
    (Ty.named name [arg]).Unmarked :=
  unmarked_of_parts rfl (List.forall_mem_singleton.mpr h)

end Ty

namespace Inference

variable {i : Inference}

theorem slot_ne_none_of_marks {t : Ty} (h : i.leavesOpen t = false) {k : Nat}
    (hmarks : t.marks k = true) : i.slot? k ≠ none := by
  intro hslot
  have hclosed := Ty.everywhere_iff_formers.mp (Ty.anyParam_eq_false.mp h)
  have hbound := hclosed _ (Ty.marks_iff.mp hmarks)
  simp [Former.onParams, hslot] at hbound

variable (h : i.Binds Former.isUnmarked)

include h

theorem Binds.marks_substitute {t : Ty} {k : Nat} (hmarks : (i.substitute t).marks k = true) :
    i.slot? k = none ∧ t.marks k = true := by
  by_contra hnone
  refine Bool.false_ne_true ((Ty.marks_eq_false.mpr ?_).symm.trans hmarks)
  refine Ty.everywhere_replace_iff.mpr (Ty.everywhere_iff_formers.mpr ?_)
  intro f hf
  cases f with
  | param index inferring =>
      cases inferring with
      | false => simp [Former.onParams, Ty.everywhere]
      | true =>
          cases hslot : i.slot? index with
          | some slot =>
              have hbound : slot.type.Unmarked := h index slot hslot
              simpa [Former.onParams, hslot] using Ty.marks_eq_false.mp (hbound.marks k)
          | none =>
              have hother : index ≠ k := by
                rintro rfl
                exact hnone ⟨hslot, Ty.marks_iff.mpr hf⟩
              simpa [Former.onParams, hslot, Ty.everywhere] using hother
  | _ => rfl

theorem Binds.certain_unmarked {t certain : Ty} (hcertain : i.certain? t = some certain) :
    certain.Unmarked := by
  rw [certain?] at hcertain
  split at hcertain
  · cases hcertain
  · rename_i hopen
    cases hcertain
    refine Ty.unmarked_of_marks fun k hmarks => ?_
    rcases h.marks_substitute hmarks with ⟨hslot, hmarked⟩
    exact slot_ne_none_of_marks (Bool.eq_false_iff.mpr hopen) hmarked hslot

end Inference

/-!
## Drafts and contexts
-/

abbrev Term.Unmarked (term : Term) : Prop := term.type.Unmarked

def RefTarget.Unmarked : RefTarget -> Prop
  | .type _ => True
  | .functions f => Signature.AllHold Former.isUnmarked f.functions
  | .functionsOrLocal f value =>
      Signature.AllHold Former.isUnmarked f.functions ∧ value.Unmarked

/-- No type that settling reads off a draft has a mark. -/
inductive Draft.Unmarked : Draft -> Prop where
  | typed {term span} : Term.Unmarked term -> Unmarked ⟨.typed term, span⟩
  | lambda {lambda locals span} : Locals.Hold Former.isUnmarked locals ->
      Unmarked ⟨.lambda lambda locals, span⟩
  | integer {value span} : Unmarked ⟨.integer value, span⟩
  | reference {target typeArgs span} : target.Unmarked ->
      (forall t : Ty, t ∈ typeArgs -> t.Unmarked) -> Unmarked ⟨.reference target typeArgs, span⟩
  | undecided {name options span} :
      (forall option, option ∈ options -> (CallOption.term option).Unmarked) ->
      Unmarked ⟨.undecided name options, span⟩
  | tuple {items span} : (forall item, item ∈ items -> Unmarked item) ->
      Unmarked ⟨.tuple items, span⟩
  | bundle {fields span} : (forall field, field ∈ fields -> Unmarked field.2) ->
      Unmarked ⟨.bundle fields, span⟩
  | array {items span} : (forall item, item ∈ items -> Unmarked item) ->
      Unmarked ⟨.array items, span⟩
  | block {bindings result span} :
      (forall binding, binding ∈ bindings ->
        Locals.Hold Former.isUnmarked binding.pattern.value.bindings) ->
      Unmarked result -> Unmarked ⟨.block bindings result, span⟩
  | switch {arg branches reactive span} :
      (forall branch, branch ∈ branches -> Unmarked branch.value) ->
      Unmarked ⟨.switch arg branches reactive, span⟩
  | multiSwitch {args branches span} :
      (forall branch, branch ∈ branches -> Unmarked branch.value) ->
      Unmarked ⟨.multiSwitch args branches, span⟩

theorem Draft.Unmarked.term {draft : Draft} {term : Term} (h : draft.Unmarked)
    (hterm : draft.term? = some term) : term.Unmarked := by
  cases h with
  | typed hfound =>
      cases hterm
      exact hfound
  | _ => cases hterm

namespace Context

/-- No type that an expression is checked against has a mark. -/
structure Unmarked (ctx : Context) : Prop where
  types : ctx.toTypeContext.Brings Former.isUnmarked
  names : ctx.Offers Former.isUnmarked

variable {ctx : Context} (h : ctx.Unmarked)

include h

theorem Unmarked.withLocals {added : Locals} (hadded : Locals.Hold Former.isUnmarked added) :
    (ctx.withLocals added).Unmarked :=
  ⟨h.types, h.names.withLocals hadded⟩

theorem Unmarked.withPattern? {pattern : Option BoundPattern}
    (hpattern : forall found, pattern = some found ->
      Locals.Hold Former.isUnmarked found.value.bindings) :
    (ctx.withPattern? pattern).Unmarked := by
  cases pattern with
  | none => exact h
  | some pattern => exact h.withLocals (hpattern pattern rfl)

theorem Unmarked.inBody {locals : Locals} (hlocals : Locals.Hold Former.isUnmarked locals)
    {pattern : BoundPattern} (hpattern : Locals.Hold Former.isUnmarked pattern.value.bindings) :
    (Checker.bodyContext ctx locals pattern).Unmarked := by
  have hinner : Unmarked { ctx with locals := locals } :=
    ⟨h.types, h.names.functions, h.names.constants, hlocals⟩
  exact hinner.withLocals hpattern

omit h in
theorem Unmarked.inBlock (h : ctx.Unmarked) {bindings : List (BoundValue Term)}
    (hbindings : forall binding, binding ∈ bindings ->
      Locals.Hold Former.isUnmarked binding.pattern.value.bindings) :
    (bindings.foldl (fun inner binding => inner.withPattern binding.pattern) ctx).Unmarked := by
  induction bindings generalizing ctx with
  | nil => exact h
  | cons binding rest ih =>
      rw [List.forall_mem_cons] at hbindings
      exact ih (h.withLocals hbindings.left) hbindings.right

end Context

/-!
## What stays open
-/

def Ty.items : Ty -> List Ty
  | .tuple items => items
  | .bundle fields => fields.map fun item => item.2.type
  | _ => []

theorem Ty.items_subset_parts {t s : Ty} (h : s ∈ t.items) : s ∈ t.parts := by
  cases t with
  | tuple items => exact h
  | bundle fields => exact h
  | _ => cases h

/-- The argument of a box that is filled unasked, and stands in an expected type either
alone or as an item of a product. -/
inductive BoxArg (registry : Registry) (arg : Ty) : Ty -> Prop where
  | box {name : Symbol} {args : List Ty} {d : Declaration} {boxed : Boxed}
      (declared : Table.get? registry name = some d) (boxes : d.definition = .boxed boxed)
      (unguarded : boxed.guarded = false) (visible : boxed.hidden = false) (mem : arg ∈ args) :
      BoxArg registry arg (.named name args)
  | item {product t : Ty} (mem : t ∈ product.items) (inside : BoxArg registry arg t) :
      BoxArg registry arg product

/-- A parameter has no binding in `base`, and it is being inferred in the argument of a box
that the expected type asks for. -/
def StaysOpen (registry : Registry) (base : Inference) (expected : Option Ty) (k : Nat) : Prop :=
  base.slot? k = none ∧
    exists t arg, expected = some t ∧ BoxArg registry arg t ∧ arg.marks k = true

def Confined (registry : Registry) (base : Inference) (expected : Option Ty) (t : Ty) : Prop :=
  forall k, t.marks k = true -> StaysOpen registry base expected k

def ConfinedToItems (registry : Registry) (base : Inference) (expected : Option Ty) (t : Ty) :
    Prop :=
  forall k, t.marks k = true -> exists product item, expected = some product ∧
    item ∈ product.items ∧ StaysOpen registry base (some item) k

section

variable {registry : Registry} {base : Inference} {expected : Option Ty} {t : Ty}

theorem BoxArg.unmarked {arg : Ty} (h : BoxArg registry arg t) (ht : t.Unmarked) :
    arg.Unmarked := by
  induction h with
  | box _ _ _ _ mem => exact (Ty.everywhere_iff.mp ht).right _ mem
  | item mem _ ih => exact ih ((Ty.everywhere_iff.mp ht).right _ (Ty.items_subset_parts mem))

theorem ConfinedToItems.confined (h : ConfinedToItems registry base expected t) :
    Confined registry base expected t := by
  intro k hmarks
  rcases h k hmarks with ⟨product, item, hexpected, hitem, hunbound, _, arg, heq, hinside, harg⟩
  cases heq
  exact ⟨hunbound, product, arg, hexpected, .item hitem hinside, harg⟩

theorem confinedToItems_of_unmarked (h : t.Unmarked) :
    ConfinedToItems registry base expected t := by
  intro k hmarks
  exact (h.not_marks hmarks).elim

theorem Confined.unmarked (h : Confined registry base expected t)
    (hexpected : forall s, expected = some s -> s.Unmarked) : t.Unmarked := by
  refine Ty.unmarked_of_marks fun k hmarks => ?_
  rcases h k hmarks with ⟨_, s, arg, hs, hinside, harg⟩
  exact (hinside.unmarked (hexpected s hs)).not_marks harg

end

/-- All bindings are without marks, and those of `base` are still there. -/
structure Inference.Keeps (base i : Inference) : Prop where
  binds : i.Binds Former.isUnmarked
  advances : base.Advances i

theorem Inference.Binds.keeps {i : Inference} (h : i.Binds Former.isUnmarked) : i.Keeps i :=
  ⟨h, .refl i⟩

theorem Inference.Keeps.unbound {base i : Inference} (h : base.Keeps i) {k : Nat}
    (hk : i.slot? k = none) : base.slot? k = none := by
  cases hslot : base.slot? k with
  | none => rfl
  | some slot =>
      rcases h.advances k slot hslot with ⟨later, hlater, _⟩
      cases hk.symm.trans hlater

/-- A checker for the parts of an expression lets no marks get into drafts, into bindings,
or into the types of settled terms other than where they stay open. -/
structure Checker.Confines (c : Checker) : Prop where
  draft : forall ctx expr, ctx.Unmarked -> Judge.Ensures (c.draft ctx expr) Draft.Unmarked
  settle : forall base ctx expected draft, ctx.Unmarked -> Draft.Unmarked draft ->
    (c.settle ctx expected draft).Ensures base.Keeps fun term =>
      Confined ctx.registry base expected term.type

end TypeChecker
