import TypeChecker.Proofs.Assign.Inferred
import TypeChecker.Proofs.Checking.Settled

/-!
# Boxed values

A value put into a box is assigned to the inner type at the given arguments, or the
arguments are inferred from it. The box then opens to the inner type at the arguments
in full. The two inner types are the same unless a default that is filled in mentions a
parameter whose argument is left out.
-/

namespace TypeChecker

open Inferring

namespace Checker

/-!
## Ways into a box
-/

section

variable {c : Checker} {ctx : Context} {value : Draft} {name : Symbol} {d : Declaration}
  {inner : Ty} {args : List Ty} {span : Span} {i j : Inference} {e : Term}

theorem boxWithArgs_ok
    (h : (c.boxWithArgs ctx value name d inner args true span).outcome i = some (.ok e, j)) :
    exists term,
      (c.settle ctx (some (inner.instantiateWith d.defaults args)) value).outcome i =
        some (.ok term, j) ∧
      e.type = .named name (Ty.completeArgs d.defaults d.arity (args.map j.substitute)) ∧
      e.node = term.node := by
  rcases outcome_bind_ok.mp h with ⟨term, k, hsettle, h⟩
  rcases outcome_bind_ok.mp h with ⟨_, _, hstate, h⟩
  cases hstate
  rcases outcome_bind_ok.mp h with ⟨_, _, hrequire, h⟩
  rcases outcome_judge_ok.mp hrequire with ⟨_, rfl⟩
  cases h
  exact ⟨term, hsettle, rfl, rfl⟩

theorem boxInferring_ok
    (h : (c.boxInferring ctx value name d inner true span).outcome = some (.ok e)) :
    exists term final inferred,
      (c.settle ctx (some inner.toInferring) value).outcome (.start d.params d.bounds) =
        some (.ok term, final) ∧
      final.bindings? = some inferred ∧
      ctx.fits c.depth (inner.instantiate inferred) term.type = some true ∧
      e.type = .named name inferred ∧ e.node = term.node := by
  rcases judge_bind_ok.mp h with ⟨⟨term, final⟩, hsettle, h⟩
  have hsettle := outcome_runWith.mp hsettle
  dsimp only at h
  split at h
  · cases h
  · rename_i inferred hbindings
    rcases judge_bind_ok.mp h with ⟨fits, hfits, h⟩
    cases fits with
    | false => cases h
    | true =>
        rcases judge_bind_ok.mp h with ⟨_, _, h⟩
        cases h
        exact ⟨term, final, inferred, hsettle, hbindings, judge_bounded_ok.mp hfits, rfl, rfl⟩

theorem visible_of_requireBoxable {boxed : Boxed}
    (h : requireBoxable ctx name boxed span = .ok ()) :
    (boxed.hidden && name.module != ctx.module) = false := by
  unfold requireBoxable at h
  split at h
  · rename_i hmodule
    simp [hmodule]
  · split at h
    · cases h
    · split at h
      · cases h
      · rename_i hhidden
        simp [hhidden]

/-- How a value is assigned on its way into a box around `inner`: at the inner type for
the given arguments, or with the arguments being inferred from it. The last index is
the type it has with all bindings in place. -/
inductive Assigned (c : Checker) (ctx : Context) (value : Draft) (d : Declaration) (inner : Ty)
    (args : List Ty) (i j : Inference) : Term -> Ty -> Prop where
  | given {term : Term} (enough : d.minArity ≤ args.length)
      (run : (c.settle ctx (some (inner.instantiateWith d.defaults args)) value).outcome i =
        some (.ok term, j)) :
      Assigned c ctx value d inner args i j term (j.substitute term.type)
  | inferred {term : Term} {final : Inference} (none : args = []) (same : i = j)
      (run : (c.settle ctx (some inner.toInferring) value).outcome (.start d.params d.bounds) =
        some (.ok term, final)) :
      Assigned c ctx value d inner args i j term term.type

end

end Checker

section

variable {ctx : Context} {depth : Nat} {value : Draft} {name : Symbol} {d : Declaration}
  {inner : Ty} {args : List Ty} {span : Span} {i j : Inference} {e term : Term}

theorem settle_typed {v : Term} {expected t : Ty} {m : Nat} {k : Inference}
    (hvalue : value.value = .typed v)
    (hassign : (assign ctx.toTypeContext m .toTarget expected v.type).outcome i = some (.ok t, k))
    (h : ((checkerAt depth).settle ctx (some expected) value).outcome i = some (.ok term, j)) :
    term.type = t ∧ j = k := by
  cases depth with
  | zero => cases h
  | succ depth =>
      rcases Inferring.outcome_bind_ok.mp h with ⟨_, _, hstate, h⟩
      cases hstate
      rw [Inferring.outcome_restoring_attempt_bind, Checker.settleDirectly, hvalue] at h
      have hfit : (ctx.fit depth (some expected) v).outcome i =
          ((assign ctx.toTypeContext depth .toTarget expected v.type).outcome i).map
            fun _ => (.ok (v.retype t), k) := by
        rw [Context.fit, Inferring.outcome_attempt_bind]
        cases hother : (assign ctx.toTypeContext depth .toTarget expected v.type).outcome i with
        | none => rfl
        | some result =>
            cases assign_agree hother hassign
            rfl
      dsimp only at h
      rw [hfit] at h
      cases hother : (assign ctx.toTypeContext depth .toTarget expected v.type).outcome i with
      | none =>
          rw [hother] at h
          cases h
      | some result =>
          rw [hother] at h
          cases h
          exact ⟨rfl, rfl⟩

/-- The conditions under which a boxed value is sure to have the type that the box opens
to. -/
inductive Checker.Faithful (ctx : Context) (value : Draft) (d : Declaration) (inner : Ty)
    (args : List Ty) (i j : Inference) (term : Term) : Prop where
  | inferred (few : args.length < d.minArity)
  | plain (chains : inner.ChainsNone d.defaults args.length) (bounds : ctx.BoundsKnown)
      (proper : (inner.instantiateWith d.defaults args).isProper ctx.registry = true)
      (certain : term.type.hasInferring = false)
  | typed {v : Term} {m : Nat} {t : Ty} {k : Inference}
      (chains : inner.ChainsNone d.defaults args.length) (bounds : ctx.bounds = {})
      (applied : ctx.registry.FullyApplied) (bindingsOver : i.IsOver ctx.registry)
      (type : value.value = .typed v) (typeOver : v.type.isOver ctx.registry = true)
      (run : (assign ctx.toTypeContext m .toTarget (inner.instantiateWith d.defaults args)
        v.type).outcome i = some (.ok t, k))
      (target : (inner.instantiateWith d.defaults args).everywhere
        (Former.isOpen ctx.registry i.arity) = true)
      (closed : (j.substitute (inner.instantiateWith d.defaults args)).hasInferring = false)
      (suits : j.Suits ctx.registry .toTarget (inner.instantiateWith d.defaults args))

section

variable (hlawful : ctx.registry.Lawful) (hd : Table.get? ctx.registry name = some d)

include hlawful hd

/-- The inner type at the arguments of a box is what the value was assigned at, with the
bindings in place. -/
theorem inner_eq_substitute {boxed : Boxed} (hboxed : d.boxed? = some boxed)
    (hchains : boxed.inner.ChainsNone d.defaults args.length) (hmin : d.minArity ≤ args.length)
    (hmax : args.length ≤ d.arity) :
    boxed.inner.instantiateWith d.defaults
        (Ty.completeArgs d.defaults d.arity (args.map j.substitute)) =
      j.substitute (boxed.inner.instantiateWith d.defaults args) := by
  have hlength : (args.map j.substitute).length = args.length := List.length_map _
  have hinner := hlawful.known name d hd _ (Declaration.mem_types_of_boxed hboxed)
  rw [Ty.instantiateWith_completeArgs hlawful hd (hlength ▸ hchains) (hlength ▸ hmin)
    (hlength ▸ hmax)]
  refine (Inference.substitute_instantiateWith (Ty.hasInferring_eq_false hinner) ?_ args).symm
  intro k s hs
  exact Ty.hasInferring_eq_false (hlawful.known name d hd s (Declaration.mem_types_of_default hs))

omit hd in
/-- What a value is assigned as at given arguments is not refused by the inner type. -/
theorem given_admits (hmin : d.minArity ≤ args.length)
    (hfaithful : Checker.Faithful ctx value d inner args i j term)
    (hrun : ((checkerAt depth).settle ctx (some (inner.instantiateWith d.defaults args))
      value).outcome i = some (.ok term, j)) :
    inner.ChainsNone d.defaults args.length ∧
      Admits ctx.toTypeContext .toTarget (j.substitute (inner.instantiateWith d.defaults args))
        (j.substitute term.type) := by
  cases hfaithful with
  | inferred few => omega
  | plain chains bounds proper certain =>
      refine ⟨chains, ?_⟩
      have hsettles := settleDraft_accepts Inference.stable_trivial ctx.toTypeContext depth
      have haccepts := (hsettles ctx rfl _ value).result trivial hrun
      rw [Ty.substitute_eq_self j certain, Ty.substitute_eq_self j (Ty.plain_of_isProper proper)]
      exact haccepts ⟨hlawful.known, bounds⟩ _ rfl proper
  | typed chains bounds applied bindingsOver type typeOver run target closed suits =>
      refine ⟨chains, ?_⟩
      rcases settle_typed type run hrun with ⟨rfl, rfl⟩
      have hreached :=
        assign_reaches bounds hlawful applied _ _ rfl bindingsOver target typeOver run
      have hholds := hreached.meetsResult j (Inference.Evolves.refl j) hreached.bindingsOver suits
      have hresult := (Ty.isOver_iff.mp hreached.resultOver).left
      have htarget := (Ty.isOver_iff.mp
        (Inference.isOver_substitute hreached.bindingsOver target closed)).left
      rw [Ty.substitute_eq_self j (Ty.hasInferring_eq_false hresult)]
      exact hholds.admits hlawful.known htarget hresult

end

/-- Boxing and unboxing go round: a value put into a box gives the box type at arguments
in full, which opens to an inner type. The type the value was given fits into that inner
type if the arguments were inferred. If they were given so that no default filled in
mentions a parameter that is left out and no binding changes against the use of its
parameter, it is not refused there, and fits if its matches come to an end. -/
theorem boxed_value_fits_inner (hdeclared : ctx.registry.Declared)
    (hd : Table.get? ctx.registry name = some d) {boxed : Boxed}
    (hboxed : d.boxed? = some boxed)
    (hrun : ((checkerAt depth).inject ctx value name args true span).outcome i =
      some (.ok e, j)) :
    exists full inner term type,
      e.type = .named name full ∧ full.length = d.arity ∧
      e.type.unbox ctx.module ctx.registry = .inner inner ∧
      e.node = term.node ∧
      (checkerAt depth).Assigned ctx value d boxed.inner args i j term type ∧
      (d.minArity ≤ args.length -> boxed.inner.ChainsNone d.defaults args.length ->
        inner = j.substitute (boxed.inner.instantiateWith d.defaults args)) ∧
      (Checker.Faithful ctx value d boxed.inner args i j term ->
        (forall depth answer, ctx.fits depth inner type = some answer -> answer = true) ∧
        (args.length < d.minArity ∨ ctx.Concludes inner type ->
          exists enough, forall n, enough ≤ n -> ctx.fits n inner type = some true)) := by
  have hlawful := hdeclared.lawful
  simp only [Checker.inject, hd, Declaration.boxed?_eq_some.mp hboxed] at hrun
  rcases Inferring.outcome_bind_ok.mp hrun with ⟨_, k, hrequire, hrun⟩
  rw [Inferring.outcome_except, Option.some.injEq, Prod.mk.injEq] at hrequire
  rcases hrequire with ⟨hrequire, rfl⟩
  have hvisible := Checker.visible_of_requireBoxable hrequire
  have hopens : forall full, (Ty.named name full).unbox ctx.module ctx.registry =
      .inner (boxed.inner.instantiateWith d.defaults full) := by
    intro full
    simp [Ty.unbox, hd, hboxed, hvisible]
  split at hrun
  · rename_i harity
    rw [Bool.and_eq_true, Nat.ble_eq, Nat.ble_eq] at harity
    rcases harity with ⟨hmin, hmax⟩
    rcases Checker.boxWithArgs_ok hrun with ⟨term, hsettle, htype, hnode⟩
    refine ⟨_, _, term, _, htype, ?_, htype ▸ hopens _, hnode, .given hmin hsettle, ?_, ?_⟩
    · exact Ty.length_completeArgs (by simpa using hmax)
    · intro _ hchains
      exact inner_eq_substitute hlawful hd hboxed hchains hmin hmax
    · intro hfaithful
      rcases given_admits hlawful hmin hfaithful hsettle with ⟨hchains, hadmits⟩
      rw [inner_eq_substitute hlawful hd hboxed hchains hmin hmax]
      refine ⟨fun depth answer hanswer => hadmits.answer_eq hanswer, ?_⟩
      rintro (hfew | hconcludes)
      · omega
      · exact hadmits.fits_of_concludes hconcludes
  · rename_i harity
    rw [Bool.and_eq_true, Nat.ble_eq, Nat.ble_eq] at harity
    split at hrun
    · rename_i hempty
      rcases Inferring.outcome_judge_ok.mp hrun with ⟨hinferring, rfl⟩
      rcases Checker.boxInferring_ok hinferring with
        ⟨term, final, inferred, hsettle, hbindings, hfits, htype, hnode⟩
      have hlength : inferred.length = d.arity := by
        have hsettles := settleDraft_accepts (Inference.stable_arity d.arity) ctx.toTypeContext
          depth
        have hstart : (Inference.start d.params d.bounds).arity = d.arity := List.length_map _
        rw [Inference.length_bindings hbindings]
        exact (hsettles ctx rfl _ value _ _ _ hstart hsettle).left
      refine ⟨inferred, _, term, _, htype, hlength, htype ▸ hopens inferred, hnode,
        .inferred (List.isEmpty_iff.mp hempty) rfl hsettle, ?_, ?_⟩
      · intro hmin
        rw [List.isEmpty_iff.mp hempty] at hmin harity
        exact absurd ⟨hmin, Nat.zero_le _⟩ harity
      · intro _
        -- the fit was checked when the arguments were found
        rw [Ty.instantiateWith_full hlawful hd hlength]
        exact ⟨fun depth answer hanswer => fits_agree hanswer hfits,
          fun _ => ⟨_, fun n hn => fits_extends hn hfits⟩⟩
    · cases hrun

end

def chainModules : List Source.Module :=
  [Core.module,
    { name := "Main"
      types := [.boxed
        { name := { name := "Tri" }
          params := [{ name := { name := "A" } },
            { name := { name := "B" }, default := some { value := .ref { name := "A" } [] } },
            { name := { name := "C" }, default := some { value := .ref { name := "B" } [] } }] }
        { inner := some { value := .tuple [{ value := .ref { name := "A" } [] },
            { value := .ref { name := "B" } [] }, { value := .ref { name := "C" } [] }] } }] }]

def chainScope : Context :=
  { module := "Main"
    registry := ((Registration.ofModules {} 8 chainModules).getD {}).registry
    params := [{ name := "S", variance := .invariant }, { name := "U", variance := .invariant }]
    scope := { module := "Main" }
    locals := [("x", Ty.core "Int"), ("y", .param 1 false)] }

theorem chainScope_declared : chainScope.registry.Declared := by
  dsimp only [chainScope]
  exact Registry.declared_of_clean (by decide +kernel)

def localDraft (name : String) (type : Ty) : Draft :=
  .ofTerm { type, node := .localName name }

/-- Two arguments are given, and the third is filled in by the second. -/
theorem filled_triple_fits :
    let int := Ty.core "Int"
    let u := Ty.param 1 false
    let value : Draft :=
      { value := .tuple [localDraft "x" int, localDraft "y" u, localDraft "y" u] }
    exists e j,
      ((checkerAt 12).inject chainScope value ⟨"Main", "Tri"⟩ [int, u] true {}).outcome .disabled =
        some (.ok e, j) ∧
      exists inner, e.type.unbox chainScope.module chainScope.registry = .inner inner ∧
        exists enough, forall n, enough ≤ n ->
          chainScope.fits n inner (.tuple [int, u, u]) = some true := by
  intro int u value
  have heval : ((checkerAt 12).inject chainScope value ⟨"Main", "Tri"⟩ [int, u] true {}).typeGiven?
        .disabled = some (.named ⟨"Main", "Tri"⟩ [int, u, u]) ∧
      ((checkerAt 12).settle chainScope (some (.tuple [int, u, u])) value).typeGiven? .disabled =
        some (.tuple [int, u, u]) ∧
      (Ty.tuple [int, u, u]).isProper chainScope.registry = true ∧
      ((assignDirectly chainScope.toTypeContext 12 .toTarget (.tuple [int, u, u])
        (.tuple [int, u, u])).outcome .disabled).isSome = true ∧
      ((Table.get? chainScope.registry ⟨"Main", "Tri"⟩).bind fun d => d.boxed?.map fun boxed =>
        (boxed.inner.instantiateWith d.defaults [int, u], d.defaults)) =
          some (.tuple [int, u, u], [(1, .param 0 false), (2, .param 1 false)]) := by
    decide +kernel
  rcases heval with ⟨hinject, hsettle, hproper, hdirect, hdeclaration⟩
  rcases Inferring.exists_of_typeGiven hinject with ⟨e, j, hrun, htype⟩
  rcases Inferring.exists_of_typeGiven hsettle with ⟨term, k, hsettled, hterm⟩
  rcases Option.bind_eq_some_iff.mp hdeclaration with ⟨d, hd, hboxed⟩
  rcases Option.map_eq_some_iff.mp hboxed with ⟨boxed, hboxed, hpair⟩
  rcases Prod.mk.inj hpair with ⟨htarget, hdefaults⟩
  refine ⟨e, j, hrun, ?_⟩
  rcases boxed_value_fits_inner chainScope_declared hd hboxed hrun with
    ⟨full, inner, other, type, _, _, hunbox, _, hassigned, hinner, hfits⟩
  refine ⟨inner, hunbox, ?_⟩
  cases hassigned with
  | inferred none => cases none
  | given enough run =>
      rw [htarget, hsettled] at run
      cases run
      have hchains : boxed.inner.ChainsNone d.defaults 2 := by
        rw [hdefaults]
        intro k t hk _ ht
        rw [Table.get?, if_neg (by omega), Table.get?] at ht
        split at ht
        · cases ht
          rfl
        · cases ht
      have hcertain : term.type.hasInferring = false := by
        rw [hterm]
        rfl
      have hsame : inner = .tuple [int, u, u] := by
        rw [hinner enough hchains, htarget]
        rfl
      rw [hterm, hsame] at hfits
      rw [hsame]
      apply (hfits (.plain hchains (TypeContext.boundsKnown_of_empty rfl) (htarget ▸ hproper)
        hcertain)).right
      exact Or.inr (TypeContext.Concludes.of_closed rfl hdirect)

/-- With one argument given, the third item is assigned at the second parameter of the
enclosing declaration, and the box does not open to the type of the value. -/
theorem chained_default_breaks_box :
    let int := Ty.core "Int"
    let u := Ty.param 1 false
    let value : Draft :=
      { value := .tuple [localDraft "x" int, localDraft "x" int, localDraft "y" u] }
    exists e j term k,
      ((checkerAt 12).inject chainScope value ⟨"Main", "Tri"⟩ [int] true {}).outcome .disabled =
        some (.ok e, j) ∧
      e.type = .named ⟨"Main", "Tri"⟩ [int, int, int] ∧
      e.type.unbox chainScope.module chainScope.registry = .inner (.tuple [int, int, int]) ∧
      ((checkerAt 12).settle chainScope (some (.tuple [int, int, u])) value).outcome .disabled =
        some (.ok term, k) ∧
      term.type = .tuple [int, int, u] ∧
      chainScope.fits 12 (.tuple [int, int, int]) term.type = some false := by
  intro int u value
  have heval : ((checkerAt 12).inject chainScope value ⟨"Main", "Tri"⟩ [int] true {}).typeGiven?
      .disabled = some (.named ⟨"Main", "Tri"⟩ [int, int, int]) ∧
      (Ty.named ⟨"Main", "Tri"⟩ [int, int, int]).unbox chainScope.module chainScope.registry =
        .inner (.tuple [int, int, int]) ∧
      ((checkerAt 12).settle chainScope (some (.tuple [int, int, u])) value).typeGiven? .disabled =
        some (.tuple [int, int, u]) ∧
      chainScope.fits 12 (.tuple [int, int, int]) (.tuple [int, int, u]) = some false := by
    decide +kernel
  rcases heval with ⟨hinject, hunbox, hsettle, hfits⟩
  rcases Inferring.exists_of_typeGiven hinject with ⟨e, j, hrun, htype⟩
  rcases Inferring.exists_of_typeGiven hsettle with ⟨term, k, hsettled, hterm⟩
  exact ⟨e, j, term, k, hrun, htype, htype ▸ hunbox, hsettled, hterm, hterm ▸ hfits⟩

end TypeChecker
