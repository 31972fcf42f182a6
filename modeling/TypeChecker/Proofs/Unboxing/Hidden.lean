import TypeChecker.Bounds
import TypeChecker.Checking.Branching

/-!
# Hidden inner types

The inner type of a hidden box is known to its own module only. Another module cannot
tell two registries apart that differ in such inner types: whatever looks through boxes
does so by opening them, and opening stops at a box that is hidden.
-/

namespace TypeChecker

/-- Declarations of one name that differ, if at all, in the inner type of a box that is
hidden from `module`. -/
def Declaration.SameFrom (module : String) (name : Symbol) (d d' : Declaration) : Prop :=
  d' = d ∨ exists boxed inner, d.definition = .boxed boxed ∧ boxed.hidden = true ∧
    name.module ≠ module ∧ d' = { d with definition := .boxed { boxed with inner := inner } }

/-- Registries that differ only in the inner types of boxes that are hidden from `module`. -/
def Registry.SameFrom (module : String) (r r' : Registry) : Prop :=
  forall name, Option.Rel (Declaration.SameFrom module name) (Table.get? r name)
    (Table.get? r' name)

namespace Registry
namespace SameFrom

variable {module : String} {r r' : Registry}

/-- A box opens alike: one that is hidden does not open, and any other is the same. -/
theorem unbox_eq (h : SameFrom module r r') (t : Ty) : t.unbox module r = t.unbox module r' := by
  cases t with
  | named name args =>
      have hname := h name
      dsimp only [Ty.unbox]
      generalize Table.get? r name = found, Table.get? r' name = found' at hname ⊢
      cases hname with
      | none => rfl
      | some hsame =>
          rcases hsame with rfl | ⟨boxed, inner, hboxed, hhidden, hforeign, rfl⟩
          · rfl
          · simp [Declaration.boxed?, hboxed, hhidden, hforeign]
  | never => rfl
  | any => rfl
  | param index inferring => rfl
  | unit => rfl
  | tuple items => rfl
  | bundle fields => rfl
  | func input output => rfl

theorem find_eq (h : SameFrom module r r') {α : Type} (pick : Ty -> Option α) (depth : Nat)
    (cross : Bool) (t : Ty) :
    Shape.find pick module r depth cross t = Shape.find pick module r' depth cross t := by
  induction depth generalizing cross t with
  | zero => rfl
  | succ depth ih =>
      cases t with
      | named name args => simp only [Shape.find, h.unbox_eq, ih]
      | never => rfl
      | any => rfl
      | param index inferring => rfl
      | unit => rfl
      | tuple items => rfl
      | bundle fields => rfl
      | func input output => rfl

theorem liesWithin_eq (ctx : TypeContext) (h : SameFrom ctx.module ctx.registry r') (depth : Nat)
    (met : List (Nat × Bool)) (sub sup : Ty) :
    ctx.liesWithin depth met sub sup =
      { ctx with registry := r' }.liesWithin depth met sub sup := by
  induction depth generalizing met sub sup with
  | zero => rfl
  | succ depth ih => simp only [TypeContext.liesWithin, h.unbox_eq, ih]

theorem unionBehind_eq (ctx : Context) (h : SameFrom ctx.module ctx.registry r') (depth : Nat)
    (cross : Bool) (t : Ty) :
    ctx.unionBehind depth cross t = { ctx with registry := r' }.unionBehind depth cross t := by
  induction depth generalizing cross t with
  | zero => rfl
  | succ depth ih =>
      unfold Context.unionBehind
      simp only [h.unbox_eq, ih]
      split
      · rfl
      · split
        · rename_i name args _
          have hname := h name
          generalize Table.get? ctx.registry name = found, Table.get? r' name = found' at hname ⊢
          cases hname with
          | none => rfl
          | some hsame =>
              rcases hsame with rfl | ⟨boxed, inner, hboxed, _, _, rfl⟩
              · rfl
              · simp only [Option.map_some, hboxed]
        · rfl

end SameFrom
end Registry

/-!
## Assignment
-/

namespace Assign

variable {ctx : TypeContext} {r' : Registry}

theorem structural_eq (h : Registry.SameFrom ctx.module ctx.registry r') (assign : Assigner)
    (d : Direction) (target given : Ty) :
    structural ctx assign d target given =
      structural { ctx with registry := r' } assign d target given := by
  unfold structural
  split <;> try rfl
  rename_i name targets other givens
  have hname := h name
  dsimp only
  generalize Table.get? ctx.registry name = found, Table.get? r' name = found' at hname ⊢
  cases hname with
  | none => rfl
  | some hsame =>
      rcases hsame with rfl | ⟨boxed, inner, _, _, _, rfl⟩
      · rfl
      · rfl

theorem target_eq (h : Registry.SameFrom ctx.module ctx.registry r') (direct assign : Assigner)
    (d : Direction) (t given : Ty) :
    target ctx direct assign d t given =
      target { ctx with registry := r' } direct assign d t given := by
  unfold target
  split
  · rfl
  · rfl
  · exact structural_eq h assign d t given

theorem directly_eq (h : Registry.SameFrom ctx.module ctx.registry r') (direct assign : Assigner) :
    directly ctx direct assign = directly { ctx with registry := r' } direct assign := by
  funext d t given
  unfold directly
  simp only [target_eq h]
  rfl

theorem afterwards_eq (h : Registry.SameFrom ctx.module ctx.registry r') (assign : Assigner) :
    afterwards ctx assign = afterwards { ctx with registry := r' } assign := by
  funext d t given
  unfold afterwards
  simp only [h.unbox_eq]

end Assign

theorem assign_and_directly_eq (ctx : TypeContext) {r' : Registry}
    (h : Registry.SameFrom ctx.module ctx.registry r') (depth : Nat) :
    assign ctx depth = assign { ctx with registry := r' } depth ∧
      assignDirectly ctx depth = assignDirectly { ctx with registry := r' } depth := by
  induction depth with
  | zero => exact ⟨rfl, rfl⟩
  | succ depth ih =>
      rcases ih with ⟨hassign, hdirect⟩
      constructor
      · funext d target given
        rw [assign, assign, hassign, hdirect, Assign.afterwards_eq h]
      · funext d target given
        rw [assignDirectly, assignDirectly, hassign, hdirect, Assign.directly_eq h]

/-- A module cannot observe the inner type of a box that another module hides: over
registries that differ only there, assignments from the module end alike and leave the
same inference, and its bounds and the shapes and unions behind types are the same. -/
theorem hidden_inner_unobservable {module : String} {r r' : Registry}
    (h : Registry.SameFrom module r r') (depth : Nat) :
    (forall (ctx : TypeContext) (d : Direction) (target given : Ty) (i : Inference),
      ctx.module = module ->
      (assign { ctx with registry := r } depth d target given).outcome i =
        (assign { ctx with registry := r' } depth d target given).outcome i) ∧
    (forall (ctx : TypeContext) (sub sup : Ty), ctx.module = module ->
      { ctx with registry := r }.isWithin depth sub sup =
        { ctx with registry := r' }.isWithin depth sub sup) ∧
    (forall (cross : Bool) (t : Ty),
      tupleBehind module r depth cross t = tupleBehind module r' depth cross t ∧
      bundleBehind module r depth cross t = bundleBehind module r' depth cross t ∧
      Shape.find Ty.funcParts? module r depth cross t =
        Shape.find Ty.funcParts? module r' depth cross t) ∧
    (forall t : Ty, funcBehind module r depth t = funcBehind module r' depth t) ∧
    (forall (ctx : Context) (cross : Bool) (t : Ty), ctx.module = module ->
      { ctx with registry := r }.unionBehind depth cross t =
        { ctx with registry := r' }.unionBehind depth cross t) := by
  refine ⟨?_, ?_, ?_, ?_, ?_⟩
  · rintro ctx d target given i rfl
    rw [(assign_and_directly_eq { ctx with registry := r } h depth).left]
  · rintro ctx sub sup rfl
    exact Registry.SameFrom.liesWithin_eq { ctx with registry := r } h depth [] sub sup
  · intro cross t
    exact ⟨h.find_eq _ depth cross t, h.find_eq _ depth cross t, h.find_eq _ depth cross t⟩
  · exact fun t => h.find_eq _ depth false t
  · rintro ctx cross t rfl
    exact Registry.SameFrom.unionBehind_eq { ctx with registry := r } h depth cross t

def sealedRegistry (inner : Ty) : Registry :=
  [(Symbol.core "Int", { definition := .native }),
    (⟨"Lib", "Sealed"⟩, { definition := .boxed { inner := inner, hidden := true } }),
    (⟨"Main", "Wrap"⟩, { definition := .boxed { inner := .named ⟨"Lib", "Sealed"⟩ [] } })]

/-- What `Lib` hides may be a number or a text. `Lib` itself can tell which; `Main`
assigns its box alike in both cases. -/
theorem sealed_inner_unobservable :
    let number := sealedRegistry (Ty.core "Int")
    let text := sealedRegistry (Ty.core "String")
    let wrapped := Ty.named ⟨"Main", "Wrap"⟩ []
    fits { module := "Lib", registry := number } 4 (Ty.core "Int") wrapped = some true ∧
      fits { module := "Lib", registry := text } 4 (Ty.core "Int") wrapped = some false ∧
      Registry.SameFrom "Main" number text ∧
      forall (depth : Nat) (i : Inference),
        (assign { module := "Main", registry := number } depth .toTarget (Ty.core "Int")
          wrapped).outcome i =
          (assign { module := "Main", registry := text } depth .toTarget (Ty.core "Int")
            wrapped).outcome i := by
  intro number text wrapped
  have hsame : Registry.SameFrom "Main" number text := by
    intro name
    simp only [number, text, sealedRegistry, Table.get?]
    split
    · exact .some (Or.inl rfl)
    · split
      · rename_i hname
        subst hname
        exact .some (Or.inr ⟨_, _, rfl, rfl, by decide, rfl⟩)
      · split
        · exact .some (Or.inl rfl)
        · exact .none
  refine ⟨by decide +kernel, by decide +kernel, hsame, ?_⟩
  intro depth i
  exact (hidden_inner_unobservable hsame depth).left { module := "Main", registry := number }
    .toTarget (Ty.core "Int") wrapped i rfl

end TypeChecker
