import TypeChecker.Proofs.Assign.Evolution
import TypeChecker.Proofs.Assign.Mirror
import TypeChecker.Proofs.Checking.Boxed

/-!
# Rejected drafts

A draft that is rejected leaves all bindings as they were, with one exception. A value
that is boxed into the expected type is first settled at the inner type, which may bind
parameters being inferred. If the arguments of the box then turn out to break a bound,
these bindings stay.
-/

namespace TypeChecker

open Inferring

/-!
## Runs without bindings
-/

theorem Context.fit_error {ctx : Context} {depth : Nat} {expected : Option Ty} {term : Term}
    {i j : Inference} {e : ExprError}
    (h : (ctx.fit depth expected term).outcome i = some (.error e, j)) : j = i := by
  cases expected with
  | none => cases h
  | some t =>
      rw [Context.fit, outcome_attempt_bind] at h
      split at h
      · cases h
      · rename_i result k hrun
        cases result with
        | ok type => cases h
        | error reason =>
            cases h
            exact assign_error_eq hrun

theorem Inferring.judge_error {ε α : Type} {x : Judge ε α} {i j : Inference} {e : ε}
    (h : (liftM x : Inferring ε α).outcome i = some (.error e, j)) :
    j = i ∧ x.outcome = some (.error e) := by
  rw [outcome_judge, Option.map_eq_some_iff] at h
  rcases h with ⟨result, hrun, heq⟩
  cases heq
  exact ⟨rfl, hrun⟩

theorem Inferring.except_error {ε α : Type} {x : Except ε α} {i j : Inference} {e : ε}
    (h : (liftM x : Inferring ε α).outcome i = some (.error e, j)) : j = i := by
  cases h
  rfl

namespace Checker

/-!
## Values in boxes
-/

/-- A value boxed with given arguments is rejected because it does not fit the inner type,
or afterwards because an argument breaks a bound. -/
theorem boxWithArgs_error {c : Checker} {ctx : Context} {value : Draft} {name : Symbol}
    {d : Declaration} {inner : Ty} {args : List Ty} {exact : Bool} {span : Span} {i j : Inference}
    {e : ExprError}
    (h : (c.boxWithArgs ctx value name d inner args exact span).outcome i = some (.error e, j)) :
    (c.settle ctx (some (inner.instantiateWith d.defaults args)) value).outcome i =
        some (.error e, j) ∨
      exists term,
        (c.settle ctx (some (inner.instantiateWith d.defaults args)) value).outcome i =
          some (.ok term, j) ∧
        (ctx.requireArgs c.depth span d.params d.defaults d.bounds
          (Ty.completeArgs d.defaults d.arity (args.map j.substitute))).outcome =
          some (.error e) := by
  rcases outcome_bind_error.mp h with hsettle | ⟨term, k, hsettle, h⟩
  · exact Or.inl hsettle
  · rcases outcome_bind_error.mp h with hstate | ⟨_, _, hstate, h⟩
    · cases hstate
    · cases hstate
      rcases outcome_bind_error.mp h with hrequire | ⟨_, _, _, h⟩
      · rcases judge_error hrequire with ⟨rfl, hrefuses⟩
        exact Or.inr ⟨term, hsettle, hrefuses⟩
      · cases h

end Checker

/-- A draft that is rejected with `e` at a type leaves the bindings `j` behind, as far as
a depth allows: it is accepted inside a box whose arguments then break a bound. -/
inductive LeavesBindings (ctx : Context) (draft : Draft) (e : ExprError) (i j : Inference) :
    Nat -> Ty -> Prop where
  | here {depth : Nat} {t : Ty} {name : Symbol} {args : List Ty} {d : Declaration} {boxed : Boxed}
      {term : Term} (resort : Checker.resort? ctx i t draft = some (.box name args))
      (declared : Table.get? ctx.registry name = some d) (boxes : d.definition = .boxed boxed)
      (accepts : (settleDraft depth ctx
        (some (boxed.inner.instantiateWith d.defaults args)) draft).outcome i = some (.ok term, j))
      (refuses : (ctx.requireArgs depth draft.span d.params d.defaults d.bounds
        (Ty.completeArgs d.defaults d.arity (args.map j.substitute))).outcome = some (.error e)) :
      LeavesBindings ctx draft e i j (depth + 1) t
  | inside {depth : Nat} {t : Ty} {name : Symbol} {args : List Ty} {d : Declaration}
      {boxed : Boxed} (resort : Checker.resort? ctx i t draft = some (.box name args))
      (declared : Table.get? ctx.registry name = some d) (boxes : d.definition = .boxed boxed)
      (rest : LeavesBindings ctx draft e i j depth (boxed.inner.instantiateWith d.defaults args)) :
      LeavesBindings ctx draft e i j (depth + 1) t

section

variable {ctx : Context} {draft : Draft} {e : ExprError} {i j : Inference}

theorem LeavesBindings.exists_bounded {depth : Nat} {t : Ty}
    (h : LeavesBindings ctx draft e i j depth t) :
    exists name d boxed, Table.get? ctx.registry name = some d ∧ d.definition = .boxed boxed ∧
      boxed.guarded = false ∧ boxed.hidden = false ∧ d.bounds ≠ {} := by
  induction h with
  | @here depth t name args d boxed term resort declared boxes accepts refuses =>
      rcases Checker.resort_fills resort with ⟨_, d', boxed', hd, hboxed, hguarded, hhidden⟩
      cases declared.symm.trans hd
      cases boxes.symm.trans hboxed
      refine ⟨name, d, boxed, declared, boxes, hguarded, hhidden, ?_⟩
      intro hbounds
      rw [hbounds] at refuses
      cases refuses
  | inside _ _ _ _ ih => exact ih

namespace Checker

/-- What a rejected last resort leaves: nothing, or bindings from inside the box. -/
theorem inject_error {depth : Nat} {t : Ty} {name : Symbol} {args : List Ty}
    (hresort : resort? ctx i t draft = some (.box name args))
    (hsettle : forall t, (settleDraft depth ctx (some t) draft).outcome i = some (.error e, j) ->
      j = i ∨ LeavesBindings ctx draft e i j depth t)
    (h : ((checkerAt depth).inject ctx draft name args true draft.span).outcome i =
      some (.error e, j)) :
    j = i ∨ LeavesBindings ctx draft e i j (depth + 1) t := by
  rcases resort_fills hresort with ⟨_, d, boxed, hd, hboxed, _⟩
  simp only [inject, hd, hboxed] at h
  rcases outcome_bind_error.mp h with hrequire | ⟨_, k, hrequire, h⟩
  · exact Or.inl (except_error hrequire)
  · rw [outcome_except, Option.some.injEq, Prod.mk.injEq] at hrequire
    rcases hrequire with ⟨_, rfl⟩
    split at h
    · rcases boxWithArgs_error h with hrejects | ⟨term, haccepts, hrefuses⟩
      · rcases hsettle _ hrejects with hsame | hinside
        · exact Or.inl hsame
        · exact Or.inr (.inside hresort hd hboxed hinside)
      · exact Or.inr (.here hresort hd hboxed haccepts hrefuses)
    · split at h
      · exact Or.inl (judge_error h).left
      · cases h
        exact Or.inl rfl

theorem settleLifted_error {c : Checker} {expected : Option Ty} {union : Symbol}
    {error : ExprError}
    (h : (c.settleLifted ctx expected draft union error).outcome i = some (.error e, j)) :
    j = i := by
  unfold settleLifted at h
  split at h
  · cases h
    rfl
  · dsimp only at h
    split at h
    · exact Context.fit_error h
    · cases h
      rfl

end Checker

theorem settleDraft_error {depth : Nat} {expected : Option Ty}
    (h : (settleDraft depth ctx expected draft).outcome i = some (.error e, j)) :
    j = i ∨ exists t, expected = some t ∧ LeavesBindings ctx draft e i j depth t := by
  induction depth generalizing expected with
  | zero => cases h
  | succ depth ih =>
      rcases outcome_bind_error.mp h with hstate | ⟨_, _, hstate, h⟩
      · cases hstate
      cases hstate
      rw [outcome_restoring_attempt_bind] at h
      split at h
      · cases h
      · cases h
      -- the direct attempt was undone, so the last resort starts from the same bindings
      · rename_i error k _
        dsimp only at h
        split at h
        · cases h
          exact Or.inl rfl
        · cases expected with
          | none =>
              cases h
              exact Or.inl rfl
          | some t =>
              simp only [Option.bind_some] at h
              cases hresort : Checker.resort? ctx i t draft with
              | none =>
                  rw [hresort] at h
                  cases h
                  exact Or.inl rfl
              | some resort =>
                  rw [hresort] at h
                  cases resort with
                  | box name args =>
                      have hsettle : forall s,
                          (settleDraft depth ctx (some s) draft).outcome i = some (.error e, j) ->
                          j = i ∨ LeavesBindings ctx draft e i j depth s := by
                        intro s hs
                        rcases ih hs with hsame | ⟨s', heq, hleaves⟩
                        · exact Or.inl hsame
                        · cases heq
                          exact Or.inr hleaves
                      rcases Checker.inject_error hresort hsettle h with hsame | hleaves
                      · exact Or.inl hsame
                      · exact Or.inr ⟨t, rfl, hleaves⟩
                  | lift union => exact Or.inl (Checker.settleLifted_error h)

/-- A draft that is rejected leaves all bindings as they were, unless it was accepted
inside a box on the way and the arguments of the box break a bound. So it leaves them as
they were if no box that is filled unasked declares bounds. -/
theorem rejected_draft_undone_or_boxed {depth : Nat} {expected : Option Ty}
    (h : (settleDraft depth ctx expected draft).outcome i = some (.error e, j)) :
    (j = i ∨ exists t, expected = some t ∧ LeavesBindings ctx draft e i j depth t) ∧
      ((forall name d boxed, Table.get? ctx.registry name = some d ->
          d.definition = .boxed boxed -> boxed.guarded = false -> boxed.hidden = false ->
          d.bounds = {}) ->
        j = i) := by
  have hleft := settleDraft_error h
  refine ⟨hleft, ?_⟩
  intro hunbounded
  rcases hleft with hsame | ⟨t, _, hleaves⟩
  · exact hsame
  · rcases hleaves.exists_bounded with ⟨name, d, boxed, hd, hboxed, hguarded, hhidden, hbounds⟩
    exact absurd (hunbounded name d boxed hd hboxed hguarded hhidden) hbounds

end

/-- The first item binds a parameter before the second is rejected, boxed or not. -/
theorem rejected_pair_undone :
    let num := Ty.named ⟨"Main", "Num"⟩ []
    let expected := Ty.tuple [.param 0 true, .named ⟨"Main", "Box"⟩ [num]]
    let draft : Draft := { value := .tuple [localDraft "x" num, localDraft "u" .unit] }
    let i := Inference.start [{ name := "T", variance := .invariant }] {}
    exists e, (settleDraft 12 boxScope (some expected) draft).outcome i = some (.error e, i) := by
  intro num expected draft i
  have hverdict : (settleDraft 12 boxScope (some expected) draft).verdict i = some false := by
    decide +kernel
  rcases verdict_eq_false.mp hverdict with ⟨e, j, hrun⟩
  have hbounds : boxScope.registry.all (fun item => item.2.bounds.isEmpty) = true := by
    decide +kernel
  have hsame := (rejected_draft_undone_or_boxed hrun).right (by
    intro name d boxed hd _ _ _
    have hempty := List.all_eq_true.mp hbounds _ (Table.mem_of_get? hd)
    rw [Bounds.isEmpty, Bool.and_eq_true, List.isEmpty_iff, List.isEmpty_iff] at hempty
    exact congrArg₂ Bounds.mk hempty.left hempty.right)
  exact ⟨e, hsame ▸ hrun⟩

def limitedModules : List Source.Module :=
  [{ name := "Main"
     types := [
      .native { name := { name := "Num" } },
      .native { name := { name := "Word" } },
      .boxed
        { name := { name := "Limited" }
          params := [
            { name := { name := "T" }
              bound := some (.below, { value := .ref { name := "Num" } [] }) }] }
        { inner := some { value := .ref { name := "T" } [] } }] }]

def limitedScope : Context :=
  { module := "Main"
    registry := ((Registration.ofModules {} 8 limitedModules).getD {}).registry
    scope := { module := "Main" } }

/-- A word is accepted inside `Limited` and binds its parameter, which must be a number.
The binding stays though the word is rejected. -/
theorem binding_stays_after_broken_bound :
    let word := Ty.named ⟨"Main", "Word"⟩ []
    let expected := Ty.named ⟨"Main", "Limited"⟩ [.param 0 true]
    let i := Inference.start [{ name := "T", variance := .invariant }] {}
    limitedScope.registry.Declared ∧
      exists e j, (settleDraft 12 limitedScope (some expected) (localDraft "w" word)).outcome i =
          some (.error e, j) ∧
        i.slot? 0 = none ∧ (j.slot? 0).map Slot.type = some word := by
  intro word expected i
  have hdeclared : limitedScope.registry.Declared := by
    dsimp only [limitedScope]
    exact Registry.declared_of_clean (by decide +kernel)
  refine ⟨hdeclared, ?_⟩
  have hrun : ((settleDraft 12 limitedScope (some expected) (localDraft "w" word)).outcome i).map
      (fun result => (result.1.isOk, (result.2.slot? 0).map Slot.type)) =
        some (false, some word) := by
    decide +kernel
  rcases Option.map_eq_some_iff.mp hrun with ⟨⟨result, j⟩, hrun, heq⟩
  rcases Prod.mk.inj heq with ⟨hrejects, hslot⟩
  cases result with
  | ok term => cases hrejects
  | error e => exact ⟨e, j, hrun, rfl, hslot⟩

end TypeChecker
