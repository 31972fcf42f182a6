import TypeChecker.Checking.Settle
import TypeChecker.Proofs.Assign.Preorder
import TypeChecker.Proofs.Checking.Accepted

/-!
# Settled drafts

A draft settled at an expected type gives a term that the type accepts, whatever the
kind of the draft, and whether it fits as it stands, is boxed or is lifted.
-/

namespace TypeChecker

open Inferring

namespace Checker

section

variable {P : Inference -> Prop} {ctx : Context} {c : Checker} {expected : Option Ty}
  {span : Span}

/-!
## Numbers, switches, lambdas and blocks
-/

theorem settleInteger_accepts {value : Int} :
    (settleInteger ctx expected value span).Ensures P (ctx.Accepts expected) := by
  apply Ensures.bind requireType_ensures
  intro t ht
  subst ht
  apply Ensures.bind requireCertain_ensures
  intro certain hcertain
  split
  · exact ensures_pure (TypeContext.accepts_same fun hproper =>
      hcertain (Ty.plain_of_isProper hproper))
  · exact ensures_throw _
  · exact Preserves.bind ensures_state.preserves fun _ => ensures_throw _

theorem toTypeContext_foldl (bindings : List (BoundValue Term)) :
    (bindings.foldl (fun inner binding => inner.withPattern binding.pattern)
      ctx).toTypeContext = ctx.toTypeContext := by
  induction bindings generalizing ctx with
  | nil => rfl
  | cons binding rest ih => exact ih

variable (hc : c.Settles ctx.toTypeContext P)

include hc

theorem settleBranches_preserves {t : Ty} (branches : List (CaseBranch Draft)) :
    (c.settleBranches ctx t branches).Preserves P := by
  induction branches with
  | nil => exact ensures_pure trivial
  | cons branch rest ih =>
      apply Preserves.bind (hc ctx rfl _ _).preserves
      intro _
      exact ih.bind fun _ => ensures_pure trivial

theorem settleSwitch_accepts {arg : Term} {branches : List (CaseBranch Draft)}
    {reactive : Bool} :
    (c.settleSwitch ctx expected arg branches reactive span).Ensures P
      (ctx.Accepts expected) := by
  apply Ensures.bind requireType_ensures
  intro t ht
  subst ht
  refine (settleBranches_preserves hc branches).bind fun branches => ?_
  apply Ensures.bind requireCertain_ensures
  intro certain hcertain
  exact ensures_pure (TypeContext.accepts_same fun hproper =>
    hcertain (Ty.plain_of_isProper hproper))

theorem settleRows_preserves {t : Ty} (branches : List (CasesBranch Draft)) :
    (c.settleRows ctx t branches).Preserves P := by
  induction branches with
  | nil => exact ensures_pure trivial
  | cons branch rest ih =>
      apply Preserves.bind (hc ctx rfl _ _).preserves
      intro _
      exact ih.bind fun _ => ensures_pure trivial

theorem settleMultiSwitch_accepts {args : List Term} {branches : List (CasesBranch Draft)} :
    (c.settleMultiSwitch ctx expected args branches span).Ensures P (ctx.Accepts expected) := by
  apply Ensures.bind requireType_ensures
  intro t ht
  subst ht
  refine (settleRows_preserves hc branches).bind fun branches => ?_
  apply Ensures.bind requireCertain_ensures
  intro certain hcertain
  exact ensures_pure (TypeContext.accepts_same fun hproper =>
    hcertain (Ty.plain_of_isProper hproper))

theorem settleLambda_accepts {lambda : Source.Lambda} {locals : Locals} :
    (c.settleLambda ctx expected lambda locals span).Ensures P (ctx.Accepts expected) := by
  apply Ensures.bind requireType_ensures
  intro t ht
  subst ht
  split
  · rename_i input output
    apply Ensures.bind requireCertain_ensures
    intro certain hcertain
    apply Preserves.bind (preserves_judge _)
    intro pattern
    apply Preserves.bind (preserves_judge _)
    intro body
    apply Preserves.bind (hc (bodyContext ctx locals pattern) rfl _ _).preserves
    intro body
    apply Preserves.bind ensures_state.preserves
    intro i
    split
    · exact ensures_throw _
    · rename_i result hresult
      refine Preserves.bind (ensures_bounded fun _ _ => trivial) fun fits => ?_
      dsimp only
      split
      · exact ensures_throw_bind _ _
      · refine ensures_pure (TypeContext.accepts_same fun hproper => ?_)
        have hparts := (Ty.everywhere_iff.mp hproper).right
        rw [hcertain (Ty.plain_of_isProper (hparts input (by simp [Ty.parts]))),
          Inference.certain_eq hresult
            (Ty.plain_of_isProper (hparts output (by simp [Ty.parts])))]
  · exact Preserves.bind ensures_state.preserves fun _ => ensures_throw _

theorem settleBlock_accepts {bindings : List (BoundValue Term)} {result : Draft} :
    (c.settleBlock ctx expected bindings result span).Ensures P (ctx.Accepts expected) := by
  apply Ensures.bind (hc _ (toTypeContext_foldl bindings) expected result)
  intro term hterm
  exact ensures_pure hterm

end

/-!
## Overloads
-/

theorem narrowestFrom_mem {ctx : Context} {depth index : Nat} {all rest : List Candidate}
    {candidate : Candidate}
    (h : Candidate.narrowestFrom ctx depth all index rest = some (some candidate)) :
    candidate ∈ rest := by
  induction rest generalizing index with
  | nil => cases h
  | cons first rest ih =>
      rw [Candidate.narrowestFrom] at h
      rcases Option.bind_eq_some_iff.mp h with ⟨narrowest, _, h⟩
      split at h
      · cases h
        exact List.mem_cons_self
      · exact List.mem_cons_of_mem _ (ih h)

section

variable {P : Inference -> Prop} {Q : Term -> Prop}

theorem tried_ensures {α : Type} {describe : α -> String} {result : α -> Term -> Ty}
    {use : α -> Inferring ExprError Term} {options : List α}
    (h : forall option, option ∈ options -> (use option).Ensures P Q) :
    (Tried.all describe result use options).Ensures P fun tried =>
      forall candidate, candidate ∈ tried.accepted ->
        P candidate.inference ∧ Q candidate.term := by
  induction options with
  | nil => exact ensures_pure fun candidate hmem => by cases hmem
  | cons option rest ih =>
      rw [List.forall_mem_cons] at h
      apply Ensures.bind h.left.trial
      intro outcome houtcome
      rcases outcome with ⟨outcome, inference⟩
      cases outcome with
      | ok term =>
          refine (ih h.right).bind fun tried htried => ensures_pure ?_
          intro candidate hmem
          rcases List.mem_cons.mp hmem with rfl | hmem
          · exact ⟨houtcome.left, houtcome.right term rfl⟩
          · exact htried candidate hmem
      | error e =>
          dsimp only
          split
          · exact ensures_throw_bind _ _
          · exact (ih h.right).bind fun tried htried => ensures_pure htried

theorem choose_ensures (hP : Inference.Stable P) {candidate : Candidate}
    (hinference : P candidate.inference) (hterm : Q candidate.term) :
    candidate.choose.Ensures P Q :=
  Preserves.bind (ensures_modify fun i hi => hP.adopt i _ hi hinference)
    fun _ => ensures_pure hterm

variable {ctx : Context} {c : Checker} {expected : Option Ty} {span : Span}
  (hP : Inference.Stable P)

include hP

theorem settleUndecided_accepts {options : List CallOption} :
    (c.settleUndecided ctx expected options span).Ensures P (ctx.Accepts expected) := by
  refine Ensures.bind (tried_ensures fun option _ => fit_accepts hP)
    fun tried htried => ?_
  split
  · exact ensures_throw _
  · rename_i only hone
    rcases htried only (hone ▸ List.mem_cons_self) with ⟨hinference, hterm⟩
    exact choose_ensures hP hinference hterm
  · refine Ensures.bind (ensures_bounded fun _ h => h) fun narrowest hnarrowest => ?_
    cases narrowest with
    | none => exact ensures_throw _
    | some candidate =>
        rcases htried candidate (narrowestFrom_mem hnarrowest) with ⟨hinference, hterm⟩
        exact choose_ensures hP hinference hterm

/-!
## References
-/

omit hP in
theorem call_preserves (hc : c.Settles ctx.toTypeContext P) {f : Signature}
    {typeArgs : List Ty} {arg : Draft} {calleeSpan : Span} :
    (c.call ctx f typeArgs arg calleeSpan span).Preserves P := by
  unfold call
  split
  · apply Preserves.bind (hc ctx rfl _ _).preserves
    intro _
    exact Preserves.bind (preserves_judge _) fun _ => ensures_pure trivial
  · split
    · exact preserves_judge _
    · exact ensures_throw _

omit hP in
theorem referInferring_ensures {t : Ty} {f : Signature} :
    Judge.Ensures (c.referInferring ctx t f span)
      fun term => Admits ctx.toTypeContext .toTarget t term.type := by
  unfold referInferring
  refine Judge.Ensures.bind (Judge.ensures_bounded fun _ _ => trivial) fun outcome _ => ?_
  rcases outcome with ⟨result, i⟩
  cases result with
  | error e => exact fun _ h => by cases h
  | ok type =>
      dsimp only
      split
      · exact Judge.ensures_throw _
      · refine Judge.Ensures.bind (Judge.ensures_bounded fun _ h => h) fun fits hfits => ?_
        cases fits with
        | false => exact fun _ h => by cases h
        | true =>
            refine Judge.Ensures.bind (Judge.ensures_any _) fun node _ => ?_
            exact Judge.ensures_pure (Admits.of_fits hfits)

theorem referPlainly_accepts {f : Signature} {typeArgs : List Ty} :
    (c.referPlainly ctx expected f typeArgs span).Ensures P (ctx.Accepts expected) := by
  unfold referPlainly
  split
  · exact Preserves.bind (preserves_judge _) fun node => fit_accepts hP
  · split
    · apply Ensures.bind requireType_ensures
      intro t ht
      subst ht
      apply Ensures.bind requireCertain_ensures
      intro certain hcertain
      apply Ensures.mono (ensures_judge referInferring_ensures)
      intro term hterm
      apply TypeContext.Accepts.intro
      intro _ hproper
      rw [hcertain (Ty.plain_of_isProper hproper)] at hterm
      exact hterm
    · exact ensures_throw _

theorem refer_accepts (hc : c.Settles ctx.toTypeContext P) {f : Signature}
    {typeArgs : List Ty} :
    (c.refer ctx expected f typeArgs span).Ensures P (ctx.Accepts expected) := by
  have hcalled : (c.callOnUnit ctx expected f typeArgs span).Ensures P (ctx.Accepts expected) :=
    Preserves.bind (call_preserves hc) fun called => fit_accepts hP
  unfold refer
  dsimp only
  split
  · apply Ensures.bind hcalled.restoring.attempt
    intro result hresult
    cases result with
    | ok term => exact ensures_pure (hresult term rfl)
    | error e => exact referPlainly_accepts hP
  · exact referPlainly_accepts hP

theorem referOverloaded_accepts (hc : c.Settles ctx.toTypeContext P)
    {functions : List Signature} {typeArgs : List Ty} :
    (c.referOverloaded ctx expected functions typeArgs span).Ensures P
      (ctx.Accepts expected) := by
  unfold referOverloaded
  split
  · exact refer_accepts hP hc
  · refine Ensures.bind (tried_ensures fun f _ => refer_accepts hP hc)
      fun tried htried => ?_
    split
    · exact Preserves.bind ensures_state.preserves fun _ => ensures_throw _
    · rename_i only hone
      rcases htried only (hone ▸ List.mem_cons_self) with ⟨hinference, hterm⟩
      exact choose_ensures hP hinference hterm
    · exact ensures_throw _

end

/-!
## Boxing and lifting
-/

section

variable {P : Inference -> Prop} {ctx : Context} {c : Checker} {expected : Option Ty}
  {span : Span} {value : Draft} {name : Symbol} {args : List Ty} {exact : Bool}
  (hc : c.Settles ctx.toTypeContext P)

theorem length_eq_of_isProper {d : Declaration} (hd : Table.get? ctx.registry name = some d)
    (h : (Ty.named name args).isProper ctx.registry = true) : args.length = d.arity := by
  have hhere := (Ty.everywhere_iff.mp h).left
  simp only [Former.isProper, Former.isOver, Former.isApplied, Ty.former, hd,
    Bool.and_eq_true, beq_iff_eq] at hhere
  exact hhere.left.right

include hc

theorem boxWithArgs_ensures {d : Declaration} {inner : Ty}
    (hd : Table.get? ctx.registry name = some d) :
    (c.boxWithArgs ctx value name d inner args exact span).Ensures P fun term =>
      exact = true -> ctx.Accepts (some (.named name args)) term := by
  apply Preserves.bind (hc ctx rfl _ _).preserves
  intro term
  apply Preserves.bind ensures_state.preserves
  intro i
  apply Preserves.bind (preserves_judge _)
  intro _
  apply ensures_pure
  rintro rfl
  apply TypeContext.accepts_same
  intro hproper
  have hparts := (Ty.everywhere_iff.mp hproper).right
  have hargs : args.map i.substitute = args := by
    refine (List.map_congr_left fun arg harg => ?_).trans (List.map_id args)
    exact Ty.substitute_eq_self i (Ty.plain_of_isProper (hparts arg harg))
  show Ty.named name _ = _
  rw [hargs, Ty.completeArgs_full (length_eq_of_isProper hd hproper)]

/-- A value put into a declared box, and not lifted, has the type that was asked for. -/
theorem inject_ensures :
    (c.inject ctx value name args exact span).Ensures P fun term =>
      exact = true -> forall d boxed, Table.get? ctx.registry name = some d ->
        d.definition = .boxed boxed -> ctx.Accepts (some (.named name args)) term := by
  unfold inject
  split
  · exact ensures_throw _
  · rename_i d hd
    split
    · rename_i cases hdefinition
      apply ensures_except
      intro term _ _ other boxed hother hboxed
      cases hd.symm.trans hother
      rw [hdefinition] at hboxed
      cases hboxed
    · exact ensures_throw _
    · refine Preserves.bind (ensures_except fun _ _ => trivial) fun _ => ?_
      split
      · exact (boxWithArgs_ensures hc hd).mono fun term hterm hexact _ _ _ _ => hterm hexact
      · rename_i harity
        split
        · apply Ensures.mono (preserves_judge _)
          intro term _ _ _ _ _ _
          apply TypeContext.Accepts.intro
          intro _ hproper
          have hlength := length_eq_of_isProper hd hproper
          refine absurd ?_ harity
          rw [hlength, Bool.and_eq_true, Nat.ble_eq, Nat.ble_eq]
          exact ⟨Nat.sub_le _ _, Nat.le_refl _⟩
        · exact ensures_throw _

variable (hP : Inference.Stable P)

include hP

theorem settleRef_accepts {target : RefTarget} {typeArgs : List Ty} :
    (c.settleRef ctx expected target typeArgs span).Ensures P (ctx.Accepts expected) := by
  cases target with
  | type use =>
      apply Preserves.bind (inject_ensures hc).preserves.mapError
      intro boxed
      exact fit_accepts hP
  | functions f => exact referOverloaded_accepts hP hc
  | functionsOrLocal f value =>
      apply Ensures.bind (fit_accepts hP).restoring.attempt
      intro result hresult
      cases result with
      | ok term => exact ensures_pure (hresult term rfl)
      | error e => exact (referOverloaded_accepts hP hc).restoring.mapError

omit hc in
theorem settleLifted_accepts {draft : Draft} {union : Symbol} {error : ExprError} :
    (c.settleLifted ctx expected draft union error).Ensures P (ctx.Accepts expected) := by
  unfold settleLifted
  split
  · exact ensures_throw _
  · dsimp only
    split
    · exact fit_accepts hP
    · exact ensures_throw _

omit hP hc in
theorem resort_fills {i : Inference} {t : Ty} {draft : Draft}
    (h : resort? ctx i t draft = some (.box name args)) :
    resortTarget? i t = some (name, args) ∧ exists d boxed,
      Table.get? ctx.registry name = some d ∧ d.definition = .boxed boxed ∧
        boxed.guarded = false ∧ boxed.hidden = false := by
  rcases Option.bind_eq_some_iff.mp h with ⟨⟨name', args'⟩, htarget, h⟩
  rcases Option.bind_eq_some_iff.mp h with ⟨d, hd, h⟩
  split at h
  · rename_i boxed hboxed
    split at h
    · cases h
    · rename_i hfree
      cases h
      rw [Bool.not_eq_true, Bool.or_eq_false_iff] at hfree
      exact ⟨htarget, d, boxed, hd, hboxed, hfree.left, hfree.right⟩
  · rcases Option.bind_eq_some_iff.mp h with ⟨term, _, h⟩
    split at h
    · cases h
    · cases h
  · cases h

omit hP hc in
theorem resort_box {i : Inference} {t : Ty} {draft : Draft}
    (h : resort? ctx i t draft = some (.box name args))
    (hproper : t.isProper ctx.registry = true) :
    t = .named name args ∧ exists d boxed, Table.get? ctx.registry name = some d ∧
      d.definition = .boxed boxed := by
  rcases resort_fills h with ⟨htarget, d, boxed, hd, hboxed, _⟩
  refine ⟨?_, d, boxed, hd, hboxed⟩
  unfold resortTarget? at htarget
  split at htarget
  · cases htarget
    rfl
  · rcases Option.bind_eq_some_iff.mp htarget with ⟨certain, hcertain, hnamed⟩
    rw [Inference.certain_eq hcertain (Ty.plain_of_isProper hproper)] at hnamed
    cases t <;> simp_all [Ty.named?]

/-!
## All drafts
-/

theorem settleDirectly_accepts {draft : Draft} :
    (c.settleDirectly ctx expected draft).Ensures P (ctx.Accepts expected) := by
  unfold settleDirectly
  dsimp only
  split
  · exact fit_accepts hP
  · exact settleLambda_accepts hc
  · exact settleInteger_accepts
  · exact settleRef_accepts hc hP
  · exact settleUndecided_accepts hP
  · exact settleTuple_accepts hP hc
  · exact settleBundle_accepts hc
  · exact settleArray_accepts hP hc
  · exact settleBlock_accepts hc
  · exact settleSwitch_accepts hc
  · exact settleMultiSwitch_accepts hc

theorem settleStep_accepts {draft : Draft} :
    (c.settleStep ctx expected draft).Ensures P (ctx.Accepts expected) := by
  apply Preserves.bind ensures_state.preserves
  intro i
  refine Ensures.bind (settleDirectly_accepts hc hP).restoring.attempt
    fun result hresult => ?_
  cases result with
  | ok term => exact ensures_pure (hresult term rfl)
  | error error =>
      dsimp only
      split
      · exact ensures_throw_bind _ _
      · split
        · exact ensures_throw _
        · rename_i name args hresort
          refine (inject_ensures hc).mono fun term hterm => ?_
          rcases Option.bind_eq_some_iff.mp hresort with ⟨t, rfl, hresort⟩
          apply TypeContext.Accepts.intro
          intro hknown hproper
          rcases resort_box hresort hproper with ⟨rfl, d, boxed, hd, hboxed⟩
          exact hterm rfl d boxed hd hboxed hknown _ rfl hproper
        · exact settleLifted_accepts hP

end

end Checker

section

variable {P : Inference -> Prop}

/-- Drafts are settled to accepted terms at every depth. -/
theorem settleDraft_accepts (hP : Inference.Stable P) (types : TypeContext) (depth : Nat) :
    (checkerAt depth).Settles types P := by
  induction depth with
  | zero => exact fun ctx _ expected draft => ensures_exhausted
  | succ depth ih =>
      intro ctx hctx expected draft
      subst hctx
      exact Checker.settleStep_accepts ih hP

theorem Inference.stable_trivial : Inference.Stable fun _ => True where
  bind := fun _ _ _ _ => trivial
  adopt := fun _ _ _ _ => trivial

/-- Settling is sound: the type of a draft settled at a type fits into that type
whenever this is decided, whatever is being inferred elsewhere. -/
theorem settled_draft_fits {ctx : Context} (hdeclared : ctx.registry.Declared)
    (hbounds : ctx.bounds = {}) {expected : Ty} (hexpected : expected.isProper ctx.registry = true)
    {depth : Nat} {draft : Draft} {term : Term} {i j : Inference}
    (hrun : (settleDraft depth ctx (some expected) draft).outcome i = some (.ok term, j)) :
    forall depth answer, ctx.fits depth expected term.type = some answer -> answer = true := by
  have hknown : ctx.Known :=
    ⟨hdeclared.lawful.known, TypeContext.boundsKnown_of_empty hbounds⟩
  have hsettles := settleDraft_accepts Inference.stable_trivial ctx.toTypeContext depth
  have haccepts := (hsettles ctx rfl (some expected) draft).result trivial hrun
  have hadmits := haccepts hknown expected rfl hexpected
  exact fun depth answer hanswer => hadmits.answer_eq hanswer

end

def Inferring.typeGiven? (run : Inferring ExprError Term) (i : Inference) : Option Ty :=
  (run.outcome i).bind fun result => result.1.toOption.map Typed.type

theorem Inferring.exists_of_typeGiven {run : Inferring ExprError Term} {i : Inference} {t : Ty}
    (h : run.typeGiven? i = some t) :
    exists term j, run.outcome i = some (.ok term, j) ∧ term.type = t := by
  rcases Option.bind_eq_some_iff.mp h with ⟨⟨result, j⟩, hrun, htype⟩
  cases result with
  | error e => cases htype
  | ok term => exact ⟨term, j, hrun, Option.some.inj htype⟩

def boxScope : Context :=
  { toTypeContext := boxContext
    scope := { module := "Main" }
    locals := [("x", .named ⟨"Main", "Num"⟩ [])] }

/-- A bundle of two numbers, one of them boxed on the way into its field. -/
theorem boxed_field_fits :
    let num := Ty.named ⟨"Main", "Num"⟩ []
    let box := Ty.named ⟨"Main", "Box"⟩ [num]
    let expected := Ty.bundle
      [("a", { slot := 1, type := box }), ("b", { slot := 0, type := num })]
    let x : Draft := .ofTerm { type := num, node := .localName "x" }
    let draft : Draft := { value := .bundle [({ name := "a" }, x), ({ name := "b" }, x)] }
    exists term i,
      (settleDraft 12 boxScope (some expected) draft).outcome .disabled = some (.ok term, i) ∧
        term.type = expected ∧
        forall depth answer, boxScope.fits depth expected term.type = some answer ->
          answer = true := by
  intro num box expected x draft
  have hsettled : (settleDraft 12 boxScope (some expected) draft).typeGiven? .disabled =
      some expected := by
    decide +kernel
  rcases Inferring.exists_of_typeGiven hsettled with ⟨term, i, hrun, htype⟩
  exact ⟨term, i, hrun, htype,
    settled_draft_fits boxContext_declared rfl (by decide +kernel) hrun⟩

end TypeChecker
