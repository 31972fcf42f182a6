import TypeChecker.Proofs.Assign.Monotone
import TypeChecker.Proofs.Unboxing.Endings

/-!
# Shapes behind boxes

Patterns, field accesses and calls look for a tuple, a bundle or a function behind the
boxes of a type. An assignment to such a shape opens the same boxes, since a boxed type
has no structure to be matched before it is opened. So both stop at the same type, and
what the one finds there the other accepts.

The inputs of functions are compared in the other direction, in which a run need not come
to an end where its mirror image does.
-/

namespace TypeChecker

open Assign Relation

def Ty.isShape : Ty -> Bool
  | .tuple _ => true
  | .bundle _ => true
  | .func _ _ => true
  | _ => false

/-- `s` is what `t` is after some boxes are opened, as seen in a context. -/
def TypeContext.Shows (ctx : TypeContext) (s t : Ty) : Prop :=
  ReflTransGen (Ty.Opens (.ofModule ctx.module) ctx.registry) s t

theorem TypeContext.Shows.everywhere {ctx : TypeContext} {p : Former -> Bool} {s t : Ty}
    (h : ctx.Shows s t) (hstores : ctx.registry.Stores p) (ht : t.everywhere p = true) :
    s.everywhere p = true := by
  induction h with
  | refl => exact ht
  | tail _ hopens ih =>
      exact ih (Ty.everywhere_unbox hstores ht (Ty.inside?_ofModule.mp hopens))

/-!
## Looking for a shape
-/

section

variable {ctx : TypeContext} {α : Type} {pick : Ty -> Option α} {s t : Ty}

theorem find_opened {inner : Ty} (hopens : Ty.Opens (.ofModule ctx.module) ctx.registry inner t)
    (depth : Nat) :
    Shape.find pick ctx.module ctx.registry (depth + 1) false t =
      Shape.find pick ctx.module ctx.registry depth false inner := by
  have hunbox := Ty.inside?_ofModule.mp hopens
  rcases Ty.unbox_inner hunbox with ⟨name, args, _, _, rfl, _⟩
  rw [Shape.find, if_neg Bool.false_ne_true, hunbox]

theorem find_shown (h : ctx.Shows s t) :
    exists openings, forall depth,
      Shape.find pick ctx.module ctx.registry (depth + openings) false t =
        Shape.find pick ctx.module ctx.registry depth false s := by
  induction h with
  | refl => exact ⟨0, fun depth => rfl⟩
  | tail _ hopens ih =>
      rcases ih with ⟨openings, hsame⟩
      refine ⟨openings + 1, ?_⟩
      intro depth
      rw [<- Nat.add_assoc, find_opened hopens, hsame]

theorem exists_shown_of_find {depth : Nat} {answer : Shape α}
    (h : Shape.find pick ctx.module ctx.registry depth false t = some answer) :
    exists s, ctx.Shows s t ∧ s.inside? (.ofModule ctx.module) ctx.registry = none ∧
      exists n, Shape.find pick ctx.module ctx.registry n false s = some answer := by
  induction depth generalizing t with
  | zero => cases h
  | succ depth ih =>
      cases hinside : t.inside? (.ofModule ctx.module) ctx.registry with
      | none => exact ⟨t, ReflTransGen.refl, hinside, depth + 1, h⟩
      | some inner =>
          rw [find_opened hinside] at h
          rcases ih h with ⟨s, hshows, hclosed, hanswer⟩
          exact ⟨s, hshows.tail hinside, hclosed, hanswer⟩

theorem find_closed {depth : Nat} {answer : Shape α}
    (hclosed : t.inside? (.ofModule ctx.module) ctx.registry = none)
    (h : Shape.find pick ctx.module ctx.registry depth false t = some answer) :
    (forall shape across, answer = .found shape across -> pick t = some shape) ∧
      (answer = .hidden -> exists name args, t = .named name args) := by
  cases depth with
  | zero => cases h
  | succ depth =>
      by_cases hnamed : exists name args, t = .named name args
      · rcases hnamed with ⟨name, args, rfl⟩
        refine ⟨?_, fun _ => ⟨name, args, rfl⟩⟩
        rintro shape across rfl
        rw [Shape.find, if_neg Bool.false_ne_true] at h
        dsimp only at h
        split at h
        · rename_i hunbox
          cases hclosed.symm.trans (Ty.inside?_ofModule.mpr hunbox)
        · cases h
        · cases h
      · rw [Shape.find] at h
        · split at h
          · rename_i shape hpick
            cases h
            constructor
            · intro other across heq
              cases heq
              exact hpick
            · intro heq
              cases heq
          · cases h
            constructor
            · intro other across heq
              cases heq
            · intro heq
              cases heq
        · exact fun name args heq => hnamed ⟨name, args, heq⟩

theorem find_shape {shape : α} (ht : t.isShape = true) (hpick : pick t = some shape) (depth : Nat) :
    Shape.find pick ctx.module ctx.registry (depth + 1) false t = some (.found shape false) := by
  cases t with
  | tuple items => simp only [Shape.find, hpick]
  | bundle fields => simp only [Shape.find, hpick]
  | func input output => simp only [Shape.find, hpick]
  | _ => cases ht

end

/-!
## Assigning to a shape
-/

section

variable {ctx : TypeContext} {target s t : Ty}

theorem not_param_of_shape (h : target.isShape = true) : target.former.isParam = false := by
  cases target with
  | param index inferring => cases h
  | _ => rfl

theorem ne_any_of_shape (h : target.isShape = true) : target ≠ .any := by
  rintro rfl
  cases h

theorem fits_named (hshape : target.isShape = true) (depth : Nat) (name : Symbol)
    (args : List Ty) :
    fits ctx (depth + 2) target (.named name args) =
      (afterwards ctx (assign ctx (depth + 1)) .toTarget target (.named name args)).verdict
        .disabled := by
  have hmismatch : structural ctx (assign ctx depth) .toTarget target (.named name args) =
      Assigning.mismatch := by
    cases target with
    | param index inferring => cases hshape
    | named other targets => cases hshape
    | _ => rfl
  show (assign ctx (depth + 2) .toTarget target _).verdict .disabled = _
  rw [assign_verdict, assignDirectly_of_not_param rfl,
    target_of_not_param (not_param_of_shape hshape), hmismatch]
  rfl

theorem fits_opened (hshape : target.isShape = true) {inner : Ty}
    (hopens : Ty.Opens (.ofModule ctx.module) ctx.registry inner t) (depth : Nat) :
    fits ctx (depth + 2) target t = fits ctx (depth + 1) target inner := by
  have hunbox := Ty.inside?_ofModule.mp hopens
  rcases Ty.unbox_inner hunbox with ⟨name, args, _, _, rfl, _⟩
  rw [fits_named hshape, Inferring.verdict, afterwards_toTarget, if_neg (by simp),
    if_neg (ne_any_of_shape hshape), hunbox]
  rfl

theorem fits_shown (hshape : target.isShape = true) (h : ctx.Shows s t) :
    exists openings, forall depth,
      fits ctx (depth + 1 + openings) target t = fits ctx (depth + 1) target s := by
  induction h with
  | refl => exact ⟨0, fun depth => rfl⟩
  | tail _ hopens ih =>
      rcases ih with ⟨openings, hsame⟩
      refine ⟨openings + 1, ?_⟩
      intro depth
      rw [<- hsame, show depth + 1 + (openings + 1) = depth + openings + 2 by omega,
        fits_opened hshape hopens, show depth + openings + 1 = depth + 1 + openings by omega]

theorem fits_of_shown (hshape : target.isShape = true) (h : ctx.Shows s t) {n : Nat}
    {answer : Bool} (hanswer : fits ctx n target s = some answer) :
    exists enough, forall depth, enough ≤ depth -> fits ctx depth target t = some answer := by
  rcases fits_shown hshape h with ⟨openings, hsame⟩
  refine ⟨n + 1 + openings, ?_⟩
  intro depth hdepth
  exact assign_verdict_mono hdepth ((hsame n).trans (assign_verdict_mono (Nat.le_succ n) hanswer))

theorem exists_shown_of_fits (hshape : target.isShape = true) {depth : Nat} {answer : Bool}
    (h : fits ctx depth target t = some answer) :
    exists s, ctx.Shows s t ∧ s.inside? (.ofModule ctx.module) ctx.registry = none ∧
      exists n, fits ctx n target s = some answer := by
  induction depth generalizing t with
  | zero => cases h
  | succ depth ih =>
      cases hinside : t.inside? (.ofModule ctx.module) ctx.registry with
      | none => exact ⟨t, ReflTransGen.refl, hinside, depth + 1, h⟩
      | some inner =>
          cases depth with
          | zero => cases h
          | succ depth =>
              rw [fits_opened hshape hinside] at h
              rcases ih h with ⟨s, hshows, hclosed, hanswer⟩
              exact ⟨s, hshows.tail hinside, hclosed, hanswer⟩

theorem fits_closed_name (hshape : target.isShape = true) {name : Symbol} {args : List Ty}
    (hclosed : (Ty.named name args).inside? (.ofModule ctx.module) ctx.registry = none) :
    fits ctx 2 target (.named name args) = some false := by
  rw [fits_named hshape, Inferring.verdict, afterwards_toTarget, if_neg (by simp),
    if_neg (ne_any_of_shape hshape)]
  split
  · rename_i inner hunbox
    cases hclosed.symm.trans (Ty.inside?_ofModule.mpr hunbox)
  · rfl

def TypeContext.PartsFit (ctx : TypeContext) (target given : Ty) : Prop :=
  given.former = target.former ∧
    forall (k : Nat) v x y, (target.former.positions ctx.registry)[k]? = some v ->
      target.parts[k]? = some x -> given.parts[k]? = some y ->
        Assigns ctx (Direction.toTarget.within v) x y

/-- What fits a shape and has no box to open is `never`, or a shape whose parts fit. -/
theorem closed_of_fits (hbounds : ctx.bounds = {}) (hshape : target.isShape = true)
    (htarget : target.former.isPlain = true) (ht : t.former.isPlain = true)
    (hclosed : t.inside? (.ofModule ctx.module) ctx.registry = none) {n : Nat}
    (h : fits ctx n target t = some true) : t = .never ∨ ctx.PartsFit target t := by
  rcases fits_eq_true.mp h with ⟨result, i, hrun⟩
  rcases assign_ok hrun with ⟨smaller, rfl, hdirect | hafter⟩
  · right
    cases smaller with
    | zero => cases hdirect
    | succ depth =>
        rw [assignDirectly_unbounded hbounds, target_of_not_param (not_param_of_shape hshape)]
          at hdirect
        rcases known_of_structural_ok htarget ht hdirect with ⟨hknown, hgiven⟩
        rcases structural_parts_ok hknown hgiven hdirect with ⟨hformer, results, hparts, _⟩
        have hall := (parts_verdict_true (keeps_disabled depth)
          (Ty.length_positions ctx.registry target) (Ty.parts_length_eq hformer).symm).mp
            (Inferring.verdict_eq_true.mpr ⟨results, i, hparts⟩)
        exact ⟨hformer.symm, fun k v x y hv hx hy => ⟨depth, hall k v x y hv hx hy⟩⟩
  · left
    cases afterwards_ok hafter with
    | never => rfl
    | any => cases hshape
    | opened hunbox _ => cases hclosed.symm.trans (Ty.inside?_ofModule.mpr hunbox)

end

/-!
## The two views of a type
-/

/-- Looking for a kind of shape behind a type and assigning the type to such shapes see
the same; `agrees` says how a shape that a type fits stands to the one that is found. -/
structure TypeContext.SeesAlike {α : Type} (ctx : TypeContext)
    (look : Nat -> Ty -> Bounded (Shape α)) (build : α -> Ty) (agrees : α -> α -> Prop)
    (t : Ty) : Prop where
  /-- A type fits the shape found behind it. -/
  found (depth : Nat) (shape : α) (across : Bool)
    (finds : look depth t = some (.found shape across)) :
    exists enough, forall n, enough ≤ n -> fits ctx n (build shape) t = some true
  /-- Behind a type that fits a shape there is `never`, or a shape is found that agrees. -/
  fitting (n : Nat) (shape : α) (plain : (build shape).everywhere Former.isPlain = true)
    (accepts : fits ctx n (build shape) t = some true) :
    ctx.Shows .never t ∨ exists shape', agrees shape shape' ∧
      exists enough, forall depth, enough ≤ depth -> look depth t = some (.found shape' false)
  /-- A type behind which something is hidden fits no shape. -/
  hidden (depth : Nat) (hides : look depth t = some .hidden) (shape : α) :
    exists enough, forall n, enough ≤ n -> fits ctx n (build shape) t = some false

section

variable {ctx : TypeContext} {α : Type} {pick : Ty -> Option α} {build : α -> Ty}
  {agrees : α -> α -> Prop} {t : Ty}

theorem seesAlike_find (hdeclared : ctx.registry.Declared) (hbounds : ctx.bounds = {})
    (ht : t.isOver ctx.registry = true)
    (hpick : forall s shape, pick s = some shape ↔ s = build shape)
    (hshape : forall shape, (build shape).isShape = true)
    (hformer : forall s shape, s.former = (build shape).former -> exists shape', s = build shape')
    (hagrees : forall shape shape',
      (build shape).everywhere Former.isPlain = true ->
      (build shape').everywhere Former.isPlain = true ->
      ctx.PartsFit (build shape) (build shape') -> agrees shape shape') :
    ctx.SeesAlike (fun depth => Shape.find pick ctx.module ctx.registry depth false) build agrees
      t := by
  have hknown := (Ty.isOver_iff.mp ht).left
  constructor
  case found =>
    intro depth shape across hfinds
    rcases exists_shown_of_find hfinds with ⟨s, hshows, hclosed, n, hanswer⟩
    rcases (hpick s shape).mp ((find_closed hclosed hanswer).left shape across rfl) with rfl
    rcases Assigns.self hbounds .toTarget (hshows.everywhere hdeclared.lawful.known hknown) with
      ⟨m, hself⟩
    exact fits_of_shown (hshape shape) hshows hself
  case fitting =>
    intro n shape hplain haccepts
    rcases exists_shown_of_fits (hshape shape) haccepts with ⟨s, hshows, hclosed, m, hanswer⟩
    have hs := Ty.plain_of_known (hshows.everywhere hdeclared.lawful.known hknown)
    rcases closed_of_fits hbounds (hshape shape) (Ty.everywhere_iff.mp hplain).left
      (Ty.everywhere_iff.mp hs).left hclosed hanswer with rfl | hparts
    · exact Or.inl hshows
    · rcases hformer s shape hparts.left with ⟨shape', rfl⟩
      refine Or.inr ⟨shape', hagrees shape shape' hplain hs hparts, ?_⟩
      rcases find_shown hshows with ⟨openings, hsame⟩
      refine ⟨openings + 1, ?_⟩
      intro depth hdepth
      obtain ⟨depth, rfl⟩ : exists k, depth = k + 1 + openings :=
        ⟨depth - (openings + 1), by omega⟩
      rw [hsame]
      exact find_shape (hshape shape') ((hpick _ shape').mpr rfl) depth
  case hidden =>
    intro depth hhides shape
    rcases exists_shown_of_find hhides with ⟨s, hshows, hclosed, n, hanswer⟩
    rcases (find_closed hclosed hanswer).right rfl with ⟨name, args, rfl⟩
    exact fits_of_shown (hshape shape) hshows (fits_closed_name (hshape shape) hclosed)

end

/-!
## Tuples, bundles and functions
-/

section

variable (ctx : TypeContext)

/-- Equally many items, each of which fits the item in its place. -/
def TypeContext.ItemsFit (targets givens : List Ty) : Prop :=
  givens.length = targets.length ∧
    forall (k : Nat) x y, targets[k]? = some x -> givens[k]? = some y ->
      Assigns ctx .toTarget x y

/-- Fields of the same names and slots, each of which fits the field of its name. -/
def TypeContext.FieldsFit (targets givens : Table String (Field Ty)) : Prop :=
  givens.map (fun item => (item.1, item.2.slot)) =
      targets.map (fun item => (item.1, item.2.slot)) ∧
    forall name x y, Table.get? targets name = some x -> Table.get? givens name = some y ->
      Assigns ctx .toTarget x.type y.type

/-- An input takes what is given for it: this was accepted from the side of what is given,
is not refused from the side of the input, and accepted there as well unless two bundles
are met with equally many fields under different names. -/
structure TypeContext.Takes (input given : Ty) : Prop where
  accepted : Assigns ctx .fromTarget given input
  admitted (n : Nat) (answer : Bool) (decided : fits ctx n input given = some answer) :
    answer = true
  fitting (apart : forall a b, Meets ctx .fromTarget given input a b -> ¬ a.Clash b) :
    Assigns ctx .toTarget input given

/-- A function that takes what the target takes and gives what fits. -/
def TypeContext.FunctionFits (target given : Ty × Ty) : Prop :=
  ctx.Takes given.1 target.1 ∧ Assigns ctx .toTarget target.2 given.2

variable {ctx : TypeContext}

theorem TypeContext.PartsFit.items {targets givens : List Ty}
    (h : ctx.PartsFit (.tuple targets) (.tuple givens)) : ctx.ItemsFit targets givens := by
  rcases h with ⟨hformer, hparts⟩
  constructor
  · exact Former.tuple.inj hformer
  · intro k x y hx hy
    have hk : k < targets.length := (List.getElem?_eq_some_iff.mp hx).choose
    exact hparts k .covariant x y (by simp [Ty.former, Former.positions, hk]) hx hy

theorem TypeContext.PartsFit.fields {targets givens : Table String (Field Ty)}
    (hgivens : (Ty.bundle givens).former.isPlain = true)
    (h : ctx.PartsFit (.bundle targets) (.bundle givens)) : ctx.FieldsFit targets givens := by
  rcases h with ⟨hformer, hparts⟩
  have hheads := Former.bundle.inj hformer
  refine ⟨hheads, ?_⟩
  intro name x y hx hy
  rcases List.mem_iff_getElem?.mp (Table.mem_of_get? hx) with ⟨k, hk⟩
  have hhead : (givens[k]?).map (fun item => (item.1, item.2.slot)) = some (name, x.slot) := by
    rw [<- List.getElem?_map, hheads, List.getElem?_map, hk]
    rfl
  rcases Option.map_eq_some_iff.mp hhead with ⟨⟨other, field⟩, hother, heq⟩
  rcases Prod.mk.inj heq with ⟨rfl, _⟩
  have hfield := Ty.field_of_plain hgivens (List.mem_of_getElem? hother)
  cases hfield.symm.trans hy
  exact hparts k .covariant x.type field.type (by simp [Ty.former, Former.positions, hk])
    (by simp [Ty.parts, hk]) (by simp [Ty.parts, hother])

theorem TypeContext.PartsFit.function (hbounds : ctx.bounds = {})
    (hstores : ctx.registry.Stores Former.isPlain) {target given : Ty × Ty}
    (htarget : (Ty.func target.1 target.2).everywhere Former.isPlain = true)
    (hgiven : (Ty.func given.1 given.2).everywhere Former.isPlain = true)
    (h : ctx.PartsFit (.func target.1 target.2) (.func given.1 given.2)) :
    ctx.FunctionFits target given := by
  rcases h with ⟨_, hparts⟩
  have hinput := hparts 0 .contravariant _ _ rfl rfl rfl
  have houtput := hparts 1 .covariant _ _ rfl rfl rfl
  rcases hinput with ⟨n, hn⟩
  rcases directions_mirror hbounds hstores
    ((Ty.everywhere_iff.mp htarget).right _ List.mem_cons_self)
    ((Ty.everywhere_iff.mp hgiven).right _ List.mem_cons_self) with ⟨hagree, hsame⟩
  refine ⟨⟨⟨n, hn⟩, ?_, ?_⟩, houtput⟩
  · intro m answer hanswer
    exact (hagree n m true answer hn hanswer).symm
  · intro hapart
    exact ⟨n, (hsame hapart n).symm.trans hn⟩

/-- Over a registry declared without problems, what is found by looking for a tuple, a
bundle or a function behind a type is what an assignment of the type finds there. -/
theorem shapes_seen_alike (hdeclared : ctx.registry.Declared) (hbounds : ctx.bounds = {}) {t : Ty}
    (ht : t.isOver ctx.registry = true) :
    ctx.SeesAlike (fun depth => tupleBehind ctx.module ctx.registry depth false) .tuple
        ctx.ItemsFit t ∧
      ctx.SeesAlike (fun depth => bundleBehind ctx.module ctx.registry depth false) .bundle
        ctx.FieldsFit t ∧
      ctx.SeesAlike (fun depth => funcBehind ctx.module ctx.registry depth)
        (fun parts => .func parts.1 parts.2) ctx.FunctionFits t := by
  constructor
  · apply seesAlike_find hdeclared hbounds ht
    · intro s items
      cases s <;> simp [Ty.tupleItems?, eq_comm]
    · intro items
      rfl
    · intro s items hformer
      cases s with
      | tuple givens => exact ⟨givens, rfl⟩
      | _ => cases hformer
    · intro items givens _ _ hparts
      exact hparts.items
  constructor
  · apply seesAlike_find hdeclared hbounds ht
    · intro s fields
      cases s <;> simp [Ty.bundleFields?, eq_comm]
    · intro fields
      rfl
    · intro s fields hformer
      cases s with
      | bundle givens => exact ⟨givens, rfl⟩
      | _ => cases hformer
    · intro fields givens _ hgivens hparts
      exact hparts.fields (Ty.everywhere_iff.mp hgivens).left
  · apply seesAlike_find hdeclared hbounds ht
    · intro s parts
      cases s <;> simp [Ty.funcParts?, Prod.ext_iff]
    · intro parts
      rfl
    · intro s parts hformer
      cases s with
      | func input output => exact ⟨(input, output), rfl⟩
      | _ => cases hformer
    · intro parts givens htarget hgiven hparts
      have hstores : ctx.registry.Stores Former.isPlain :=
        fun name d hd s hs => Ty.plain_of_known (hdeclared.lawful.known name d hd s hs)
      exact hparts.function hbounds hstores htarget hgiven

end

/-- A tuple behind two boxes fits the tuple of the inner types, and each item fits. -/
theorem boxed_tuple_seen_alike :
    let num := Ty.named ⟨"Main", "Num"⟩ []
    let box := fun t => Ty.named ⟨"Main", "Box"⟩ [t]
    let t := box (box (.tuple [num, box num]))
    t.isOver boxContext.registry = true ∧
      (exists enough, forall n, enough ≤ n ->
        fits boxContext n (.tuple [num, box num]) t = some true) ∧
      exists items, boxContext.ItemsFit [num, num] items ∧
        exists enough, forall depth, enough ≤ depth ->
          tupleBehind "Main" boxContext.registry depth false t = some (.found items false) := by
  intro num box t
  have ht : t.isOver boxContext.registry = true := by decide +kernel
  have hsees := (shapes_seen_alike boxContext_declared rfl ht).left
  refine ⟨ht, hsees.found 3 [num, box num] false rfl, ?_⟩
  rcases hsees.fitting 9 [num, num] (by decide +kernel) (by decide +kernel) with hnever | hfound
  · rcases find_shown hnever with ⟨openings, hsame⟩
    have habsent : Shape.find Ty.tupleItems? boxContext.module boxContext.registry (openings + 1)
        false t = some .absent := (Nat.add_comm openings 1 ▸ hsame 1).trans rfl
    rcases openings with _ | _ | openings <;> cases habsent
  · exact hfound

/-!
## An input that is accepted from one side only
-/

namespace Tagged

def narrow : Ty := .bundle [("a", ⟨1, .unit⟩), ("b", ⟨0, loop⟩)]

def wide : Ty := .bundle [("b", ⟨0, .unit⟩), ("c", ⟨1, .unit⟩)]

def taken : Ty := .named ⟨"Main", "Tag"⟩ [wide, .unit]

def offered : Ty := .named ⟨"Main", "Tag"⟩ [narrow, taken]

theorem applied : taggedContext.registry.FullyApplied :=
  Registry.stores_of_all (by decide +kernel)

theorem wide_undecided (depth : Nat) :
    (assign taggedContext depth .toTarget wide narrow).verdict .disabled = none := by
  refine undecided_of_structural rfl rfl (fun depth => ?_) depth
  have hunit := unit_undecided depth
  rw [Inferring.verdict_eq_none] at hunit ⊢
  simp [structural, fields, wide, narrow, Table.get?, Assigning.ofOption, Inferring.outcome_bind,
    hunit]

end Tagged

/-- A function of `taken` is accepted as a function of `offered`, and its input is found
without opening anything. That the input takes `offered` is never decided. -/
theorem accepted_function_of_undecided_input :
    taggedContext.registry.Declared ∧ taggedContext.registry.FullyApplied ∧
      (Ty.func Tagged.taken .unit).isOver taggedContext.registry = true ∧
      (Ty.func Tagged.offered .unit).isOver taggedContext.registry = true ∧
      fits taggedContext 10 (.func Tagged.offered .unit) (.func Tagged.taken .unit) = some true ∧
      (forall depth, funcBehind taggedContext.module taggedContext.registry (depth + 1)
        (.func Tagged.taken .unit) = some (.found (Tagged.taken, .unit) false)) ∧
      forall depth, fits taggedContext depth Tagged.taken Tagged.offered = none :=
  ⟨Tagged.declared, Tagged.applied, by decide +kernel, by decide +kernel, by decide +kernel,
    fun _ => rfl, Tagged.tags_undecided Tagged.wide_undecided⟩

end TypeChecker
