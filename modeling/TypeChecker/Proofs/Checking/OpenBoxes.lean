import TypeChecker.Proofs.Assign.Mirror
import TypeChecker.Proofs.Checking.Boxed
import TypeChecker.Proofs.Checking.MarkedDrafts

/-!
# Boxes that stay open

When a draft is settled while type arguments are inferred, the parameters in question do
not get into bindings. They get into the type of the term only as arguments of boxes that
are filled unasked: such a box takes over an argument that nothing has bound.
-/

namespace TypeChecker

open Inferring Checker

variable {ctx : Context} {draft : Draft} {term : Term} {i j : Inference}

/-!
## The last resort
-/

theorem settleStep_ok {c : Checker} {expected : Option Ty}
    (h : (c.settleStep ctx expected draft).outcome i = some (.ok term, j)) :
    (c.settleDirectly ctx expected draft).outcome i = some (.ok term, j) ∨
      (exists t name args, expected = some t ∧ resort? ctx i t draft = some (.box name args) ∧
        (c.inject ctx draft name args true draft.span).outcome i = some (.ok term, j)) ∨
      exists union error,
        (c.settleLifted ctx expected draft union error).outcome i = some (.ok term, j) := by
  rcases outcome_bind_ok.mp h with ⟨_, _, hstate, h⟩
  cases hstate
  rw [outcome_restoring_attempt_bind] at h
  split at h
  · cases h
  · rename_i hdirect
    cases h
    exact Or.inl hdirect
  · dsimp only at h
    split at h
    · cases h
    · split at h
      · cases h
      · rename_i name args hresort
        rcases Option.bind_eq_some_iff.mp hresort with ⟨t, ht, hresort⟩
        exact Or.inr (Or.inl ⟨t, name, args, ht, hresort, h⟩)
      · exact Or.inr (Or.inr ⟨_, _, h⟩)

theorem inject_unbound {c : Checker} (hc : c.Confines) (hctx : ctx.Unmarked)
    (hdraft : draft.Unmarked) (hi : i.Binds Former.isUnmarked) {name : Symbol} {args : List Ty}
    {d : Declaration} {boxed : Boxed} (hd : Table.get? ctx.registry name = some d)
    (hboxed : d.definition = .boxed boxed)
    (h : (c.inject ctx draft name args true draft.span).outcome i = some (.ok term, j)) {k : Nat}
    (hmarks : term.type.marks k = true) : j.slot? k = none := by
  simp only [inject, hd, hboxed] at h
  rcases outcome_bind_ok.mp h with ⟨_, _, hrequire, h⟩
  rw [outcome_except, Option.some.injEq, Prod.mk.injEq] at hrequire
  rcases hrequire with ⟨_, rfl⟩
  split at h
  · rcases boxWithArgs_ok h with ⟨inner, hsettle, htype, _⟩
    have hj := (hc.settle i ctx _ draft hctx hdraft i _ j hi.keeps hsettle).left
    rw [htype] at hmarks
    rcases Ty.exists_part_marks rfl hmarks with ⟨arg, harg, hmarks⟩
    exact (exists_marks_of_completeArgs hctx hd hj.binds harg hmarks).left
  · split at h
    · rcases outcome_judge_ok.mp h with ⟨h, _⟩
      have hclosed : term.Unmarked := boxInferring_unmarked hc hctx hdraft term h
      exact (hclosed.not_marks hmarks).elim
    · cases h

/-- What is marked in a term settled at a declared type has no binding afterwards. -/
theorem settleDraft_unbound {depth : Nat} {name : Symbol} {args : List Ty} (hctx : ctx.Unmarked)
    (hdraft : draft.Unmarked) (hi : i.Binds Former.isUnmarked)
    (h : (settleDraft depth ctx (some (.named name args)) draft).outcome i = some (.ok term, j))
    {k : Nat} (hmarks : term.type.marks k = true) : j.slot? k = none := by
  induction depth generalizing ctx draft term with
  | zero => cases h
  | succ depth ih =>
      have hc := confines_checkerAt depth
      rcases settleStep_ok h with hdirect | ⟨t, name, args, _, hresort, hinject⟩ | ⟨_, _, hlift⟩
      -- a block is settled by its result; no other rule takes over arguments
      · by_cases hblock : exists bindings result, draft.value = .block bindings result
        · rcases hblock with ⟨bindings, result, hvalue⟩
          cases hdraft with
          | block hbindings hresult =>
              rcases outcome_bind_ok.mp hdirect with ⟨inner, _, hsettle, hdirect⟩
              cases hdirect
              exact ih (hctx.inBlock hbindings) hresult hsettle hmarks
          | _ => cases hvalue
        · have hconfined := (settleDirectly_confinedToItems hc hctx hdraft fun bindings result
            hvalue => hblock ⟨bindings, result, hvalue⟩).result hi.keeps hdirect
          rcases hconfined k hmarks with ⟨_, item, hproduct, hitem, _⟩
          cases hproduct
          cases hitem
      · rcases resort_fills hresort with ⟨_, d, boxed, hd, hboxed, _⟩
        exact inject_unbound hc hctx hdraft hi hd hboxed hinject hmarks
      · have hclosed := (settleLifted_unmarked hctx hdraft).result hi.keeps hlift
        exact (hclosed.not_marks hmarks).elim

/-!
## Settled terms
-/

/-- A context over a registry that was made without problems, in which no bound and no name
in scope has a parameter being inferred in its type. -/
structure Context.IsDeclared (ctx : Context) : Prop where
  declared : ctx.registry.Declared
  bounds : forall bound, bound ∈ ctx.boundTypes -> bound.hasInferring = false
  names : ctx.Offers Former.isUnmarked

theorem Context.IsDeclared.unmarked (h : ctx.IsDeclared) : ctx.Unmarked where
  types :=
    { registry := fun name d hd t ht =>
        Ty.unmarked_iff.mpr (Ty.hasInferring_eq_false (h.declared.lawful.known name d hd t ht))
      bounds := fun bound hbound => Ty.unmarked_iff.mpr (h.bounds bound hbound) }
  names := h.names

/-- Settling the draft of an expression leaves no parameter being inferred in the bindings,
whatever the expected type. In the type of the term there remain only those that had no
binding before and are arguments of boxes the expected type asks for. So none remains if
these arguments were known before, nor if the expected type is declared and its arguments
are known afterwards. -/
theorem marks_stay_in_open_boxes {outer : Context} (houter : outer.IsDeclared)
    (hctx : ctx.IsDeclared) {m depth : Nat} {expr : Source.Expr} {expected : Ty}
    (hdraft : (draftExpr m outer expr).outcome = some (.ok draft))
    (hi : forall k slot, i.slot? k = some slot -> slot.type.hasInferring = false)
    (h : (settleDraft depth ctx (some expected) draft).outcome i = some (.ok term, j)) :
    (forall k slot, j.slot? k = some slot -> slot.type.hasInferring = false) ∧
      (forall k, term.type.marks k = true -> StaysOpen ctx.registry i (some expected) k) ∧
      ((forall arg, BoxArg ctx.registry arg expected -> i.leavesOpen arg = false) ->
        term.type.hasInferring = false) ∧
      forall name args, expected = .named name args ->
        (forall arg, arg ∈ args -> j.leavesOpen arg = false) ->
        term.type.hasInferring = false := by
  have hdraft : draft.Unmarked :=
    (confines_checkerAt m).draft outer expr houter.unmarked draft hdraft
  have hbinds : i.Binds Former.isUnmarked := fun k slot hslot =>
    Ty.unmarked_iff.mpr (hi k slot hslot)
  have hsettle := (confines_checkerAt depth).settle i ctx (some expected) draft hctx.unmarked hdraft
  have hopen := hsettle.result hbinds.keeps h
  refine ⟨?_, hopen, ?_, ?_⟩
  · intro k slot hslot
    exact Ty.unmarked_iff.mp ((hsettle i _ j hbinds.keeps h).left.binds k slot hslot)
  · intro hknown
    refine Ty.unmarked_iff.mp (Ty.unmarked_of_marks fun k hmarks => ?_)
    rcases hopen k hmarks with ⟨hslot, t, arg, heq, hinside, hmarks⟩
    cases heq
    exact Inference.slot_ne_none_of_marks (hknown arg hinside) hmarks hslot
  · rintro name args rfl hknown
    refine Ty.unmarked_iff.mp (Ty.unmarked_of_marks fun k hmarks => ?_)
    rcases hopen k hmarks with ⟨_, t, arg, heq, hinside, harg⟩
    cases heq
    have hslot := settleDraft_unbound hctx.unmarked hdraft hbinds h hmarks
    cases hinside with
    | box _ _ _ _ mem => exact Inference.slot_ne_none_of_marks (hknown arg mem) harg hslot
    | item mem _ => cases mem

/-- A number fills a box that is being inferred, and its type is found. -/
theorem inferred_box_has_no_marks :
    let num := Ty.named ⟨"Main", "Num"⟩ []
    let expected := Ty.named ⟨"Main", "Box"⟩ [.param 0 true]
    let expr : Source.Expr := { value := .ref { name := { name := "x" } } }
    let i := Inference.start [{ name := "T", variance := .invariant }] {}
    exists draft term j, (draftExpr 4 boxScope expr).outcome = some (.ok draft) ∧
      (settleDraft 12 boxScope (some expected) draft).outcome i = some (.ok term, j) ∧
      (j.slot? 0).map Slot.type = some num ∧ term.type.hasInferring = false := by
  intro num expected expr i
  have hscope : boxScope.IsDeclared :=
    { declared := boxContext_declared
      bounds := List.forall_mem_nil _
      names :=
        { functions := List.forall_mem_nil _
          constants := List.forall_mem_nil _
          locals := List.forall_mem_singleton.mpr rfl } }
  have hdraft : (draftExpr 4 boxScope expr).outcome = some (.ok (localDraft "x" num)) := rfl
  have hrun : ((settleDraft 12 boxScope (some expected) (localDraft "x" num)).outcome i).map
      (fun result => (result.1.isOk, (result.2.slot? 0).map Slot.type,
        result.2.leavesOpen (.param 0 true))) = some (true, some num, false) := by
    decide +kernel
  rcases Option.map_eq_some_iff.mp hrun with ⟨⟨result, j⟩, hrun, heq⟩
  rcases Prod.mk.inj heq with ⟨haccepts, heq⟩
  rcases Prod.mk.inj heq with ⟨hslot, hclosed⟩
  cases result with
  | error e => cases haccepts
  | ok term =>
      have hmarks := (marks_stay_in_open_boxes hscope hscope hdraft
        (fun k slot h => by cases k <;> cases h) hrun).right.right.right
      refine ⟨_, term, j, hdraft, hrun, hslot, hmarks _ _ rfl fun arg harg => ?_⟩
      cases List.mem_singleton.mp harg
      exact hclosed

def taggedScope : Context :=
  { toTypeContext := taggedContext
    scope := { module := "Main" } }

/-- The first parameter of `Tag` does not occur in what it boxes. When it is being inferred,
the unit value fills the box without a binding for it, and the type of the term is the
expected type as it stands. -/
theorem phantom_mark_stays_in_box :
    let expected := Ty.named ⟨"Main", "Tag"⟩ [.param 0 true, .unit]
    let expr : Source.Expr := { value := .tuple [] }
    let i := Inference.start [{ name := "T", variance := .invariant }] {}
    taggedScope.IsDeclared ∧ (forall k, i.slot? k = none) ∧
      exists draft term j, (draftExpr 4 taggedScope expr).outcome = some (.ok draft) ∧
        (settleDraft 12 taggedScope (some expected) draft).outcome i = some (.ok term, j) ∧
        term.type = expected ∧ term.type.hasInferring = true := by
  intro expected expr i
  constructor
  · exact
      { declared := Tagged.declared
        bounds := List.forall_mem_nil _
        names :=
          { functions := List.forall_mem_nil _
            constants := List.forall_mem_nil _
            locals := List.forall_mem_nil _ } }
  constructor
  · intro k
    cases k <;> rfl
  · have hrun : (settleDraft 12 taggedScope (some expected)
        (.ofTerm (.unit {}))).typeGiven? i = some expected := by
      decide +kernel
    rcases Inferring.exists_of_typeGiven hrun with ⟨term, j, hrun, htype⟩
    exact ⟨_, term, j, rfl, hrun, htype, htype ▸ rfl⟩

end TypeChecker
