import TypeChecker.Checking.Aggregate
import TypeChecker.Checking.Branching
import TypeChecker.Checking.Checker
import TypeChecker.Checking.Inject
import TypeChecker.Proofs.Ensures
import TypeChecker.Proofs.Registry.Stored
import TypeChecker.Proofs.Tables

/-!
# Types of names

A name in an expression stands for a local value, a function or a constant; a pattern
gives names to a value and to parts of it. A condition on formers that the registry and
the names in scope satisfy holds of all types that come in this way.
-/

namespace TypeChecker

variable {p : Former -> Bool} {ctx : Context}

/-!
## Names in scope
-/

def Locals.Hold (p : Former -> Bool) (locals : Locals) : Prop :=
  forall item, item ∈ locals -> item.2.everywhere p = true

def Signature.AllHold (p : Former -> Bool) (functions : List Signature) : Prop :=
  forall f, f ∈ functions -> f.input.everywhere p = true ∧ f.output.everywhere p = true

def Meaning.Holds (p : Former -> Bool) : Meaning -> Prop
  | .localValue t => t.everywhere p = true
  | .localOrFunctions t overloads =>
      t.everywhere p = true ∧ Signature.AllHold p overloads.functions
  | .functions overloads => Signature.AllHold p overloads.functions
  | .constant _ t => t.everywhere p = true
  | .typeParam _ => True
  | .type _ => True

namespace Context

/-- All names in scope have types that satisfy `p` throughout. -/
structure Offers (ctx : Context) (p : Former -> Bool) : Prop where
  functions : Signature.AllHold p ctx.scope.functions
  constants : forall item, item ∈ ctx.scope.constants -> item.2.type.everywhere p = true
  locals : Locals.Hold p ctx.locals

namespace Offers

theorem withLocals (h : ctx.Offers p) {added : Locals} (hadded : Locals.Hold p added) :
    (ctx.withLocals added).Offers p where
  functions := h.functions
  constants := h.constants
  locals := by
    intro item hitem
    rcases List.mem_append.mp hitem with hnew | hold
    · exact hadded item (List.mem_reverse.mp hnew)
    · exact h.locals item hold

variable (h : ctx.Offers p)

include h

theorem functions? {name : String} {module : Option String} {found : List Signature}
    (hfound : ctx.functions? name module = some found) : Signature.AllHold p found := by
  have hfiltered := (Option.ite_none_left_eq_some.mp hfound).right
  cases hfiltered
  intro f hf
  exact h.functions f (List.mem_filter.mp (List.mem_filter.mp hf).left).left

theorem overloads? {name : String} {found : Overloads}
    (hfound : ctx.overloads? name = some found) : Signature.AllHold p found.functions := by
  rcases Option.map_eq_some_iff.mp hfound with ⟨functions, hfunctions, rfl⟩
  exact h.functions? hfunctions

theorem constant? {name : Symbol} {meaning : Meaning}
    (hmeaning : ctx.constant? name = some meaning) : meaning.Holds p := by
  rcases Option.map_eq_some_iff.mp hmeaning with ⟨constant, hconstant, rfl⟩
  exact h.constants _ (Table.mem_of_get? hconstant)

theorem local? {name : String} {type : Ty} (htype : ctx.local? name = some type) :
    type.everywhere p = true := by
  rcases Option.map_eq_some_iff.mp htype with ⟨item, hitem, rfl⟩
  exact h.locals item (List.mem_of_find?_eq_some hitem)

theorem lookup {ref : Source.RefName} {meaning : Meaning}
    (hmeaning : ctx.lookup ref = some meaning) : meaning.Holds p := by
  unfold Context.lookup at hmeaning
  split at hmeaning
  · unfold Context.lookupIn at hmeaning
    split at hmeaning
    · cases hmeaning
      trivial
    · split at hmeaning
      · cases hmeaning
        exact h.constant? (by assumption)
      · rcases Option.map_eq_some_iff.mp hmeaning with ⟨functions, hfunctions, rfl⟩
        exact h.functions? hfunctions
  · split at hmeaning
    · cases hmeaning
    · split at hmeaning
      · unfold Context.lookupGlobal at hmeaning
        split at hmeaning
        · cases hmeaning
          trivial
        · split at hmeaning
          · cases hmeaning
            exact h.overloads? (by assumption)
          · split at hmeaning
            · cases hmeaning
              trivial
            · split at hmeaning
              · cases hmeaning
                exact h.constant? (by assumption)
              · exact h.constant? hmeaning
      · rename_i type htype
        split at hmeaning
        · rename_i functions hfunctions
          cases hmeaning
          exact ⟨h.local? htype, h.overloads? hfunctions⟩
        · cases hmeaning
          exact h.local? htype

end Offers
end Context

/-!
## Shapes
-/

theorem Ty.everywhere_reactiveArg {t arg : Ty} (ht : t.everywhere p = true)
    (h : t.reactiveArg? = some arg) : arg.everywhere p = true := by
  unfold Ty.reactiveArg? at h
  split at h
  · split at h
    · cases h
      exact (Ty.everywhere_iff.mp ht).right arg List.mem_cons_self
    · cases h
  · cases h

namespace Registry.Stores

variable {registry : Registry} {module : String} (h : registry.Stores p)

include h

theorem find {α : Type} {pick : Ty -> Option α} {depth : Nat} {cross : Bool} {t : Ty}
    {shape : α} {across : Bool} (ht : t.everywhere p = true)
    (hfind : Shape.find pick module registry depth cross t = some (.found shape across)) :
    exists found, pick found = some shape ∧ found.everywhere p = true := by
  induction depth generalizing cross t across with
  | zero => cases hfind
  | succ depth ih =>
      cases t with
      | named name args =>
          rw [Shape.find] at hfind
          split at hfind
          · rename_i arg harg
            rcases Option.map_eq_some_iff.mp hfind with ⟨inside, hinside, hcross⟩
            cases inside with
            | found inner across' =>
                cases hcross
                refine ih ?_ hinside
                split at harg
                · exact Ty.everywhere_reactiveArg ht harg
                · cases harg
            | absent => cases hcross
            | hidden => cases hcross
          · split at hfind
            · rename_i inner hunbox
              exact ih (Ty.everywhere_unbox h ht hunbox) hfind
            · cases hfind
            · cases hfind
      | _ =>
          rw [Shape.find] at hfind
          · split at hfind
            · rename_i found hpick
              cases hfind
              exact ⟨_, hpick, ht⟩
            · cases hfind
          · simp

theorem tupleBehind {depth : Nat} {cross : Bool} {t : Ty} {items : List Ty} {across : Bool}
    (ht : t.everywhere p = true)
    (hfind : TypeChecker.tupleBehind module registry depth cross t =
      some (.found items across)) : forall item, item ∈ items -> item.everywhere p = true := by
  rcases h.find ht hfind with ⟨found, hpick, hfound⟩
  cases found with
  | tuple types =>
      cases hpick
      exact (Ty.everywhere_iff.mp hfound).right
  | _ => cases hpick

theorem bundleBehind {depth : Nat} {cross : Bool} {t : Ty} {fields : Table String (Field Ty)}
    {across : Bool} (ht : t.everywhere p = true)
    (hfind : TypeChecker.bundleBehind module registry depth cross t =
      some (.found fields across)) :
    forall name field, Table.get? fields name = some field ->
      field.type.everywhere p = true := by
  rcases h.find ht hfind with ⟨found, hpick, hfound⟩
  cases found with
  | bundle declared =>
      cases hpick
      intro name field hfield
      exact (Ty.everywhere_iff.mp hfound).right field.type
        (List.mem_map.mpr ⟨_, Table.mem_of_get? hfield, rfl⟩)
  | _ => cases hpick

theorem funcBehind {depth : Nat} {t input output : Ty} {across : Bool}
    (ht : t.everywhere p = true)
    (hfind : TypeChecker.funcBehind module registry depth t =
      some (.found (input, output) across)) :
    input.everywhere p = true ∧ output.everywhere p = true := by
  rcases h.find ht hfind with ⟨found, hpick, hfound⟩
  cases found with
  | func a b =>
      cases hpick
      have hparts := (Ty.everywhere_iff.mp hfound).right
      exact ⟨hparts input (by simp [Ty.parts]), hparts output (by simp [Ty.parts])⟩
  | _ => cases hpick

theorem stripWeak {depth : Nat} {t stripped : Ty} (ht : t.everywhere p = true)
    (hstrip : t.stripWeak registry depth = some stripped) : stripped.everywhere p = true := by
  induction depth generalizing t with
  | zero => cases hstrip
  | succ depth ih =>
      rw [Ty.stripWeak] at hstrip
      split at hstrip
      · rename_i inner hinner
        refine ih ?_ hstrip
        cases t with
        | named name args =>
            rw [Ty.weakInner?] at hinner
            split at hinner
            · cases hinner
            · rename_i d hd
              rcases Option.map_eq_some_iff.mp hinner with ⟨boxed, hboxed, rfl⟩
              have hboxed := (Option.filter_eq_some_iff.mp hboxed).left
              exact Ty.everywhere_instantiateWith
                (h name d hd _ (Declaration.mem_types_of_boxed hboxed))
                (fun index u hu => h name d hd u (Declaration.mem_types_of_default hu))
                (Ty.everywhere_iff.mp ht).right
        | _ => cases hinner
      · cases hstrip
        exact ht

end Registry.Stores

/-!
## Unions
-/

section

variable (h : ctx.registry.Stores p)

include h

theorem Registry.Stores.unionBehind {depth : Nat} {cross : Bool} {t : Ty} {union : UnionView}
    (ht : t.everywhere p = true) (hfind : ctx.unionBehind depth cross t = some (some union)) :
    (Ty.named union.name union.args).everywhere p = true ∧
      exists d, Table.get? ctx.registry union.name = some d ∧ d.cases? = some union.cases := by
  induction depth generalizing cross t union with
  | zero => cases hfind
  | succ depth ih =>
      unfold Context.unionBehind at hfind
      split at hfind
      · rename_i arg harg
        rcases Option.bind_eq_some_iff.mp hfind with ⟨found, hfound, hfind⟩
        rcases Option.map_eq_some_iff.mp (Option.some.inj hfind) with ⟨view, rfl, rfl⟩
        have harg : arg.everywhere p = true := by
          split at harg
          · exact Ty.everywhere_reactiveArg ht harg
          · cases harg
        have hview := ih harg hfound
        exact hview
      · cases t with
        | named name args =>
            dsimp only at hfind
            split at hfind
            · rename_i cases hcases
              rcases Option.map_eq_some_iff.mp hcases with ⟨d, hd, hdefinition⟩
              cases hfind
              exact ⟨ht, d, hd, Declaration.cases?_eq_some.mpr hdefinition⟩
            · split at hfind
              · rename_i inner hunbox
                exact ih (Ty.everywhere_unbox h ht hunbox) hfind
              · cases hfind
            · cases hfind
        | _ => cases hfind

omit h in
theorem Context.caseOf_ok {union : UnionView} {ref : Source.InlineRef} {case : CaseView}
    (hcase : ctx.caseOf union ref = .ok case) :
    exists declared, declared ∈ union.cases ∧
      case.type = .named declared.name (declared.params.filterMap fun i => union.args[i]?) := by
  unfold Context.caseOf at hcase
  split at hcase
  · unfold Context.caseNamed at hcase
    split at hcase
    · split at hcase
      · rename_i found index hfound
        cases hcase
        have hmem : found ∈ union.cases :=
          (List.mem_zipIdx' (List.mem_of_find?_eq_some hfound)).right ▸ List.getElem_mem _
        have hname := List.find?_some hfound
        dsimp only at hname
        exact ⟨found, hmem, by rw [eq_of_beq hname]⟩
      · cases hcase
    · cases hcase
  · cases hcase

omit h in
theorem Context.rowOf_ok {refs : List Source.InlineRef} {unions : List UnionView}
    {entries : List (Option CaseView)} (hrow : ctx.rowOf refs unions = .ok entries) :
    forall entry, entry ∈ entries -> entry = none ∨
      exists union ref case, union ∈ unions ∧ ctx.caseOf union ref = .ok case ∧
        entry = some case := by
  induction refs generalizing unions entries with
  | nil =>
      cases hrow
      exact List.forall_mem_nil _
  | cons ref refs ih =>
      cases unions with
      | nil =>
          cases hrow
          exact List.forall_mem_nil _
      | cons union unions =>
          have hlater : forall rest, ctx.rowOf refs unions = .ok rest ->
              forall entry, entry ∈ rest -> entry = none ∨
                exists other ref case, other ∈ union :: unions ∧
                  ctx.caseOf other ref = .ok case ∧ entry = some case := by
            intro rest hrest entry hentry
            rcases ih hrest entry hentry with hnone | ⟨other, ref, case, hother, hcase⟩
            · exact Or.inl hnone
            · exact Or.inr ⟨other, ref, case, List.mem_cons_of_mem _ hother, hcase⟩
          rw [Context.rowOf] at hrow
          split at hrow
          · rcases except_bind_ok.mp hrow with ⟨entry, hentry, hrow⟩
            rcases except_bind_ok.mp hrow with ⟨rest, hrest, hrow⟩
            cases hentry
            cases hrow
            exact List.forall_mem_cons.mpr ⟨Or.inl rfl, hlater rest hrest⟩
          · rcases except_bind_ok.mp hrow with ⟨entry, hentry, hrow⟩
            rcases except_bind_ok.mp hrow with ⟨rest, hrest, hrow⟩
            cases hcase : ctx.caseOf union ref with
            | error error =>
                rw [hcase] at hentry
                cases hentry
            | ok case =>
                rw [hcase] at hentry
                cases hentry
                cases hrow
                exact List.forall_mem_cons.mpr
                  ⟨Or.inr ⟨union, ref, case, List.mem_cons_self, hcase, rfl⟩, hlater rest hrest⟩

/-!
## Patterns
-/

omit h in
theorem hold_elements {names : List Source.Ident} {types : List Ty}
    (htypes : forall t, t ∈ types -> t.everywhere p = true) {index : Nat} {bound : List String}
    {items : List BoundItem}
    (hitems : Destructure.elements index bound names types = .ok items) :
    Locals.Hold p (items.map fun item => (item.name, item.type)) := by
  induction types generalizing names index bound items with
  | nil =>
      have hnil : items = [] := by
        cases names <;> simp_all [Destructure.elements, pure, Except.pure]
      subst hnil
      intro item hitem
      cases hitem
  | cons type types ih =>
      rw [List.forall_mem_cons] at htypes
      cases names with
      | nil =>
          cases hitems
          intro item hitem
          cases hitem
      | cons name names =>
          rw [Destructure.elements] at hitems
          split at hitems
          · exact ih htypes.right hitems
          · rcases except_bind_ok.mp hitems with ⟨_, _, hitems⟩
            rcases except_bind_ok.mp hitems with ⟨rest, hrest, hitems⟩
            cases hitems
            exact List.forall_mem_cons.mpr ⟨htypes.left, ih htypes.right hrest⟩

omit h in
theorem hold_fields {input : Ty} {declared : Table String (Field Ty)}
    (hdeclared : forall name field, Table.get? declared name = some field ->
      field.type.everywhere p = true)
    {names : List (Source.Ident × Source.Ident)} {bound : List String} {items : List BoundItem}
    (hitems : Destructure.fields ctx input declared bound names = .ok items) :
    Locals.Hold p (items.map fun item => (item.name, item.type)) := by
  induction names generalizing bound items with
  | nil =>
      cases hitems
      intro item hitem
      cases hitem
  | cons first rest ih =>
      rcases first with ⟨field, name⟩
      rw [Destructure.fields] at hitems
      split at hitems
      · cases hitems
      · rename_i found hfound
        rcases except_bind_ok.mp hitems with ⟨_, _, hitems⟩
        rcases except_bind_ok.mp hitems with ⟨more, hmore, hitems⟩
        cases hitems
        exact List.forall_mem_cons.mpr ⟨hdeclared _ found hfound, ih hmore⟩

namespace Registry.Stores

theorem bindWhole {depth : Nat} {name : Source.Ident} {input : Ty}
    (hinput : input.everywhere p = true) :
    Judge.Ensures (ctx.bindWhole depth name input) fun names =>
      Locals.Hold p names.bindings := by
  have hstrip : Judge.Ensures (liftM (input.stripWeak ctx.registry depth) : Judge ExprError Ty)
      fun t => t.everywhere p = true := Judge.ensures_bounded fun t ht => h.stripWeak hinput ht
  refine hstrip.bind fun stripped hstripped => Judge.ensures_pure ?_
  intro item hitem
  cases List.mem_singleton.mp hitem
  exact hstripped

theorem bindTuple {depth : Nat} {names : List Source.Ident} {input : Ty} {span : Span}
    (hinput : input.everywhere p = true) :
    Judge.Ensures (ctx.bindTuple depth names input span) fun names =>
      Locals.Hold p names.bindings := by
  refine Judge.Ensures.bind (Judge.ensures_bounded fun _ hfind => hfind) fun shape hshape => ?_
  cases shape with
  | absent => exact Judge.ensures_throw _
  | hidden => exact Judge.ensures_throw _
  | found types across =>
      have htypes := h.tupleBehind hinput hshape
      dsimp only
      split
      · exact Judge.ensures_throw_bind _ _
      · refine Judge.Ensures.bind (Judge.ensures_ofExcept fun items hitems =>
          hold_elements htypes hitems) fun items hitems => ?_
        split
        · exact Judge.ensures_throw_bind _ _
        · exact Judge.ensures_pure hitems

theorem bindBundle {depth : Nat} {fields : List (Source.Ident × Source.Ident)}
    {input : Ty} {span : Span} (hinput : input.everywhere p = true) :
    Judge.Ensures (ctx.bindBundle depth fields input span) fun names =>
      Locals.Hold p names.bindings := by
  refine Judge.Ensures.bind (Judge.ensures_bounded fun _ hfind => hfind) fun shape hshape => ?_
  cases shape with
  | absent => exact Judge.ensures_throw _
  | hidden => exact Judge.ensures_throw _
  | found declared across =>
      refine Judge.Ensures.bind (Judge.ensures_ofExcept fun items hitems =>
        hold_fields (h.bundleBehind hinput hshape) hitems) fun items hitems => ?_
      exact Judge.ensures_pure hitems

theorem destructure {depth : Nat} {pattern : Source.Pattern} {input : Ty}
    (hinput : input.everywhere p = true) :
    Judge.Ensures (ctx.destructure depth pattern input) fun bound =>
      Locals.Hold p bound.value.bindings := by
  unfold Context.destructure
  split
  · exact (h.bindWhole hinput).bind fun names hnames => Judge.ensures_pure hnames
  · exact (h.bindWhole hinput).bind fun names hnames => Judge.ensures_pure hnames
  · exact (h.bindTuple hinput).bind fun names hnames => Judge.ensures_pure hnames
  · exact (h.bindBundle hinput).bind fun names hnames => Judge.ensures_pure hnames

theorem destructure? {depth : Nat} {pattern : Option Source.Pattern} {input : Ty}
    (hinput : input.everywhere p = true) :
    Judge.Ensures (ctx.destructure? depth pattern input) fun bound =>
      forall found, bound = some found -> Locals.Hold p found.value.bindings := by
  cases pattern with
  | none => exact Judge.ensures_pure fun pattern hpattern => by cases hpattern
  | some pattern =>
      refine (h.destructure hinput).bind fun bound hbound => Judge.ensures_pure ?_
      intro found hfound
      cases hfound
      exact hbound

end Registry.Stores

end

/-!
## Drafts that are terms
-/

namespace Checker

variable {draft : Draft} {term : Term}

theorem updateBase_ok (h : updateBase draft = .ok term) : draft.term? = some term := by
  unfold updateBase at h
  split at h
  · rename_i found hfound
    split at h
    · cases h
    · cases h
      rw [Draft.term?, hfound]
  · cases h
  · cases h

theorem injectIntoUnion_ok {union : Symbol} (h : injectIntoUnion ctx draft union = .ok term) :
    exists found, draft.term? = some found ∧ term = Registry.lift ctx.registry found := by
  unfold injectIntoUnion at h
  split at h
  · cases h
  · rename_i found hfound
    split at h
    · cases h
      exact ⟨found, hfound, rfl⟩
    · cases h

end Checker

end TypeChecker
