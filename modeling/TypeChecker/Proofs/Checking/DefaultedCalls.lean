import TypeChecker.Proofs.Assign.Occurrences
import TypeChecker.Proofs.Checking.KnownTypes

/-!
# Calls that leave type arguments open

The argument of a call need not bind all parameters of the function. A parameter that it
leaves open becomes `never` or `any`, as its use in the output asks for, so that the output
is at least as narrow as with any other choice. Where there is no such choice, because the
parameter does not occur in the output or occurs there invariantly, type arguments have to
be written.
-/

namespace TypeChecker

namespace Checker

/-!
## Choices
-/

theorem smallestChoice?_eq_none {v : Variance} :
    smallestChoice? (some v) = none ↔ v = .bivariant ∨ v = .invariant := by
  cases v <;> simp [smallestChoice?]

def argFor? (i : Inference) (output : List Variance) (k : Nat) : Option Ty :=
  match i.slot? k with
  | some slot => some slot.type
  | none => smallestChoice? output[k]?

section

variable {i : Inference} {output : List Variance} {n : Nat}

theorem argFor?_of_bound {k : Nat} {slot : Slot} (h : i.slot? k = some slot) :
    argFor? i output k = some slot.type := by
  rw [argFor?, h]

theorem argFor?_of_open {k : Nat} (h : i.slot? k = none) :
    argFor? i output k = smallestChoice? output[k]? := by
  rw [argFor?, h]

theorem argFor?_eq_none {k : Nat} :
    argFor? i output k = none ↔ i.slot? k = none ∧ smallestChoice? output[k]? = none := by
  cases hslot : i.slot? k with
  | some slot => simp [argFor?_of_bound hslot]
  | none => simp [argFor?_of_open hslot]

theorem calledWith?_succ : calledWith? i output (n + 1) =
    (calledWith? i output n).bind fun earlier =>
      (argFor? i output n).map fun arg => earlier ++ [arg] := by
  rw [calledWith?]
  cases calledWith? i output n with
  | none => rfl
  | some earlier =>
      cases hslot : i.slot? n with
      | some slot =>
          rw [argFor?_of_bound hslot]
          rfl
      | none =>
          rw [argFor?_of_open hslot]
          cases smallestChoice? output[n]? <;> rfl

theorem calledWith?_eq_none :
    calledWith? i output n = none ↔ exists k, k < n ∧ argFor? i output k = none := by
  induction n with
  | zero => simp [calledWith?]
  | succ n ih =>
      have hlast : calledWith? i output (n + 1) = none ↔
          calledWith? i output n = none ∨ argFor? i output n = none := by
        rw [calledWith?_succ]
        cases calledWith? i output n <;> simp
      rw [hlast, ih]
      constructor
      · intro h
        rcases h with ⟨k, hk, hnone⟩ | hnone
        · exact ⟨k, Nat.lt_succ_of_lt hk, hnone⟩
        · exact ⟨n, Nat.lt_succ_self n, hnone⟩
      · intro h
        rcases h with ⟨k, hk, hnone⟩
        rcases Nat.lt_succ_iff_lt_or_eq.mp hk with hk | rfl
        · exact Or.inl ⟨k, hk, hnone⟩
        · exact Or.inr hnone

theorem length_calledWith {args : List Ty} (h : calledWith? i output n = some args) :
    args.length = n := by
  induction n generalizing args with
  | zero =>
      cases h
      rfl
  | succ n ih =>
      rw [calledWith?_succ] at h
      rcases Option.bind_eq_some_iff.mp h with ⟨earlier, hearlier, h⟩
      rcases Option.map_eq_some_iff.mp h with ⟨last, _, rfl⟩
      rw [List.length_append, ih hearlier, List.length_singleton]

theorem getElem?_calledWith {args : List Ty} (h : calledWith? i output n = some args) {k : Nat}
    (hk : k < n) : args[k]? = argFor? i output k := by
  induction n generalizing args with
  | zero => cases hk
  | succ n ih =>
      rw [calledWith?_succ] at h
      rcases Option.bind_eq_some_iff.mp h with ⟨earlier, hearlier, h⟩
      rcases Option.map_eq_some_iff.mp h with ⟨last, hlast, rfl⟩
      have hlen := length_calledWith hearlier
      rcases Nat.lt_succ_iff_lt_or_eq.mp hk with hk | rfl
      · rw [List.getElem?_append_left (hlen.symm ▸ hk), ih hearlier hk]
      · rw [<- hlen, List.getElem?_concat_length, hlen, hlast]

end

/-!
## Calls
-/

section

variable {c : Checker} {ctx : Context} {f : Signature} {draft : Draft} {calleeSpan span : Span}

theorem call_open (hgeneric : 0 < f.arity) :
    c.call ctx f [] draft calleeSpan span = c.callInferring ctx f draft calleeSpan span := by
  have hnone : ¬ ([] : List Ty).length = f.arity := Nat.ne_of_lt hgeneric
  unfold call
  rw [if_neg hnone]
  rfl

theorem callInferring_ok {term : Term}
    (h : (c.callInferring ctx f draft calleeSpan span).outcome = some (.ok term)) :
    exists arg bound typeArgs,
      (c.settle ctx (some f.input.toInferring) draft).outcome (.start f.params f.bounds) =
          some (.ok arg, bound) ∧
        calledWith? bound (Variance.usage ctx.registry f.arity f.output) f.arity =
            some typeArgs ∧
          term.type = f.output.instantiate typeArgs := by
  rcases judge_bind_ok.mp h with ⟨⟨arg, bound⟩, hsettle, h⟩
  refine ⟨arg, bound, ?_⟩
  dsimp only at h
  split at h
  · cases h
  · rename_i typeArgs hcalled
    rcases judge_bind_ok.mp h with ⟨fitting, _, h⟩
    split at h
    · cases h
    · rcases judge_bind_ok.mp h with ⟨callee, _, h⟩
      cases h
      exact ⟨typeArgs, Inferring.outcome_runWith.mp hsettle, hcalled, rfl⟩

theorem functionRef_error {typeArgs : List Ty} {error : ExprError}
    (h : (c.functionRef ctx f typeArgs span).outcome = some (.error error)) :
    error.value ≠ .typeArgsRequired := by
  rcases judge_bind_error.mp h with h | ⟨_, _, h⟩
  · rcases Option.map_eq_some_iff.mp h with ⟨result, _, hresult⟩
    rcases except_mapError_error.mp hresult with ⟨detail, _, rfl⟩
    exact ExprFault.noConfusion
  · cases h

/-- Once its argument is accepted, a call is rejected for want of type arguments just if no
choice is made for some parameter. -/
theorem callInferring_required {arg : Term} {bound : Inference}
    (hsettle : (c.settle ctx (some f.input.toInferring) draft).outcome
      (.start f.params f.bounds) = some (.ok arg, bound)) :
    (exists error, (c.callInferring ctx f draft calleeSpan span).outcome = some (.error error) ∧
        error.value = .typeArgsRequired) ↔
      calledWith? bound (Variance.usage ctx.registry f.arity f.output) f.arity = none := by
  have hrun : (c.callInferring ctx f draft calleeSpan span).outcome = _ :=
    judge_bind_of_ok (Inferring.outcome_runWith.mpr hsettle) _
  rw [hrun]
  dsimp only
  cases calledWith? bound (Variance.usage ctx.registry f.arity f.output) f.arity with
  | none =>
      constructor
      · exact fun _ => rfl
      · exact fun _ => ⟨_, rfl, rfl⟩
  | some typeArgs =>
      constructor
      · intro h
        rcases h with ⟨error, h, hvalue⟩
        rcases judge_bind_error.mp h with h | ⟨fitting, _, h⟩
        · cases hfits : ctx.fits c.depth (f.input.instantiate typeArgs) arg.type with
          | none =>
              rw [hfits] at h
              cases h
          | some fitting =>
              rw [hfits] at h
              cases h
        · split at h
          · cases h
            cases hvalue
          · rcases judge_bind_error.mp h with h | ⟨callee, _, h⟩
            · exact absurd hvalue (functionRef_error h)
            · cases h
      · intro h
        cases h

end

end Checker

/-!
## The narrowest output
-/

/-- The type arguments of a call make the output at least as narrow as any others that agree
with the bindings. -/
theorem Assigns.of_calledWith {ctx : TypeContext} (hsigned : ctx.registry.Signed)
    (hbounds : ctx.bounds = {}) {output : Ty} {n : Nat}
    (houtput : output.isOverWith ctx.registry n = true) {bound : Inference}
    (hbound : bound.Binds (Former.isKnown ctx.registry)) {typeArgs choice : List Ty}
    (hcalled : Checker.calledWith? bound (Variance.usage ctx.registry n output) n = some typeArgs)
    (hlen : choice.length = n)
    (hopen : forall (k : Nat) t, choice[k]? = some t -> bound.slot? k = none ->
      t.isOver ctx.registry = true)
    (hkept : forall (k : Nat) slot, bound.slot? k = some slot -> choice[k]? = some slot.type) :
    Assigns ctx .toTarget (output.instantiate choice) (output.instantiate typeArgs) := by
  have htypeArgs := Checker.length_calledWith hcalled
  subst htypeArgs
  apply Ty.instances_related hsigned _ hlen houtput
  · intro k v a b hv ha hb
    have hk := (List.getElem?_eq_some_iff.mp ha).choose
    rw [Checker.getElem?_calledWith hcalled hk] at ha
    cases hslot : bound.slot? k with
    | some slot =>
        rw [Checker.argFor?_of_bound hslot] at ha
        cases ha
        cases (hkept k slot hslot).symm.trans hb
        have hself := fun d => Assigns.self hbounds d (hbound k slot hslot)
        exact Variance.demands_of_cases (fun _ => hself _) (fun _ => hself _) (fun _ => hself)
    | none =>
        rw [Checker.argFor?_of_open hslot, hv] at ha
        have hknown := (Ty.isOver_iff.mp (hopen k b hb hslot)).left
        cases v with
        | covariant =>
            cases ha
            have hnever := Assigns.never hbounds (Ty.hasInferring_eq_false hknown)
            exact Variance.demands_of_cases (fun _ => hnever) (fun h => by cases h)
              (fun h => by cases h)
        | contravariant =>
            cases ha
            exact Variance.demands_of_cases (fun h => by cases h)
              (fun _ => Assigns.from_any hbounds b) (fun h => by cases h)
        | invariant => cases ha
        | bivariant => cases ha
  · intro d target given hparam hformer hhere
    exact Assigns.of_parts hparam hformer hhere

theorem Checker.argFor?_eq_none_iff {registry : Registry} (hsigned : registry.Signed) {n k : Nat}
    (hk : k < n) {output : Ty} (houtput : output.isOverWith registry n = true)
    {bound : Inference} :
    argFor? bound (Variance.usage registry n output) k = none ↔
      bound.slot? k = none ∧
        (¬ output.Mentions registry k ∨ output.OccursInvariantly registry k) := by
  have happlicable := Ty.isApplicable_of_isOverWith houtput
  rw [argFor?_eq_none, Variance.usage_at hk, smallestChoice?_eq_none,
    Variance.usage_eq_bivariant hsigned hk happlicable,
    Variance.usage_eq_invariant hsigned hk happlicable]

/-- A call of a generic function without type arguments. If it is accepted for a checked
argument, its type fits the output at every choice of types over the registry for the
parameters that the argument left open. Once the argument is accepted, the call is rejected
for want of type arguments just if a parameter that is left open does not occur in the output
or occurs there invariantly. -/
theorem defaulted_call_narrowest {ctx : Context} (hdeclared : ctx.registry.Declared)
    {f : Signature} (hgeneric : 0 < f.arity)
    (houtput : f.output.isOverWith ctx.registry f.arity = true) (draft : Draft) (depth : Nat)
    (calleeSpan span : Span) (i : Inference) :
    let call := ((checkerAt depth).call ctx f [] draft calleeSpan span).outcome i
    let settled := ((checkerAt depth).settle ctx (some f.input.toInferring) draft).outcome
      (.start f.params f.bounds)
    (ctx.IsOver -> f.input.isOverWith ctx.registry f.arity = true ->
      forall m expr, (draftExpr m ctx expr).outcome = some (.ok draft) ->
      forall term j, call = some (.ok term, j) ->
      exists arg bound, settled = some (.ok arg, bound) ∧
        forall choice : List Ty, choice.length = f.arity ->
          (forall (k : Nat) t, choice[k]? = some t -> bound.slot? k = none ->
            t.isOver ctx.registry = true) ->
          (forall (k : Nat) slot, bound.slot? k = some slot -> choice[k]? = some slot.type) ->
          exists depth, fits ctx.toTypeContext depth (f.output.instantiate choice) term.type =
            some true) ∧
    forall arg bound, settled = some (.ok arg, bound) ->
      ((exists error j, call = some (.error error, j) ∧ error.value = .typeArgsRequired) ↔
        exists k, k < f.arity ∧ bound.slot? k = none ∧
          (¬ f.output.Mentions ctx.registry k ∨ f.output.OccursInvariantly ctx.registry k)) := by
  intro call settled
  have hsigned : ctx.registry.Signed := hdeclared.lawful.signed
  have hrun : call = ((checkerAt depth).callInferring ctx f draft calleeSpan span).outcome.map
      fun result => (result, i) := by
    show ((checkerAt depth).call ctx f [] draft calleeSpan span).outcome i = _
    rw [Checker.call_open hgeneric]
    rfl
  rw [hrun]
  constructor
  · intro hctx hinput m expr hdraft term j hcall
    rcases Option.map_eq_some_iff.mp hcall with ⟨result, hresult, heq⟩
    cases heq
    rcases Checker.callInferring_ok hresult with ⟨arg, bound, typeArgs, hsettled, hcalled, htype⟩
    refine ⟨arg, bound, hsettled, ?_⟩
    intro choice hlen hopen hkept
    have hnamed :=
      (Standard.named_suits hctx.registry).toInferring (Ty.isNamed_of_isOverWith hinput)
    have hbound : bound.Binds (Former.isKnown ctx.registry) :=
      hctx.binds_known hdraft hnamed (Inference.binds_start f.params f.bounds) hsettled
    rw [htype]
    exact Assigns.of_calledWith hsigned hctx.bounds houtput hbound hcalled hlen hopen hkept
  · intro arg bound hsettled
    have hrequired : (exists error j, (((checkerAt depth).callInferring ctx f draft calleeSpan
        span).outcome.map fun result => (result, i)) = some (.error error, j) ∧
          error.value = .typeArgsRequired) ↔
        exists error, ((checkerAt depth).callInferring ctx f draft calleeSpan span).outcome =
          some (.error error) ∧ error.value = .typeArgsRequired := by
      simp
    rw [hrequired, Checker.callInferring_required hsettled, Checker.calledWith?_eq_none]
    constructor
    · intro h
      rcases h with ⟨k, hk, hnone⟩
      exact ⟨k, hk, (Checker.argFor?_eq_none_iff hsigned hk houtput).mp hnone⟩
    · intro h
      rcases h with ⟨k, hk, hnone⟩
      exact ⟨k, hk, (Checker.argFor?_eq_none_iff hsigned hk houtput).mpr hnone⟩

def Inferring.bindingsGiven? (run : Inferring ExprError Term) (i : Inference) :
    Option (List (Option Ty)) :=
  (run.outcome i).bind fun result =>
    result.1.toOption.map fun _ => result.2.slots.map (Option.map Slot.type)

theorem Inferring.exists_of_bindingsGiven {run : Inferring ExprError Term} {i : Inference}
    {bindings : List (Option Ty)} (h : run.bindingsGiven? i = some bindings) :
    exists term j, run.outcome i = some (.ok term, j) ∧
      forall k : Nat, (j.slot? k).map Slot.type = (bindings[k]?).join := by
  rcases Option.bind_eq_some_iff.mp h with ⟨⟨result, j⟩, hrun, hbindings⟩
  cases result with
  | error e => cases hbindings
  | ok term =>
      cases hbindings
      refine ⟨term, j, hrun, fun k => ?_⟩
      rw [Inference.slot?, List.getElem?_map]
      cases j.slots[k]? <;> rfl

def coreContext : Context where
  module := "Main"
  registry := ((Registration.ofModules {} 8 [Core.module]).getD {}).registry
  scope := { module := "Main" }

theorem coreContext_isOver : coreContext.IsOver where
  registry := by
    dsimp only [coreContext]
    rcases Registration.registered_of_clean (show (Registration.ofModules {} 8 [Core.module]).map
      (fun r => r.problems.isEmpty) = some true by decide +kernel) with ⟨hr, hproblems⟩
    exact ⟨{}, 8, [], _, hr, hproblems, rfl⟩
  bounds := rfl
  names := ⟨List.forall_mem_nil _, List.forall_mem_nil _, List.forall_mem_nil _⟩

def wrapSignature (names : List String) (output : Ty) : Signature where
  symbol := ⟨"Main", "wrap"⟩
  index := 0
  isPublic := true
  doc := ""
  params := names.map fun name => { name, variance := .invariant }
  bounds := {}
  input := .param 0 false
  output
  span := {}

/-- Given a text, a function with the output `(A, B -> C)` gives `(String, any -> never)`,
which fits `(String, Int -> Bool)`. One with the output `(A, B -> B)` needs its type
arguments. -/
theorem wrapped_text_narrowest :
    let f := wrapSignature ["A", "B", "C"]
      (.tuple [.param 0 false, .func (.param 1 false) (.param 2 false)])
    let g := wrapSignature ["A", "B"]
      (.tuple [.param 0 false, .func (.param 1 false) (.param 1 false)])
    let text : Draft := .ofTerm { type := Ty.core "String", node := .text "a", span := {} }
    let call := fun f => (checkerAt 8).call coreContext f [] text {} {}
    (exists term j, (call f).outcome .disabled = some (.ok term, j) ∧
      term.type = .tuple [Ty.core "String", .func .any .never] ∧
      exists depth, fits coreContext.toTypeContext depth
        (.tuple [Ty.core "String", .func (Ty.core "Int") (Ty.core "Bool")]) term.type =
          some true) ∧
    exists error j, (call g).outcome .disabled = some (.error error, j) ∧
      error.value = .typeArgsRequired := by
  intro f g text call
  have hctx := coreContext_isOver
  have hdraft : (draftExpr 8 coreContext { value := .text "a" }).outcome = some (.ok text) := rfl
  have heval : (call f).typeGiven? .disabled =
        some (.tuple [Ty.core "String", .func .any .never]) ∧
      ((checkerAt 8).settle coreContext (some f.input.toInferring) text).bindingsGiven?
        (.start f.params f.bounds) = some [some (Ty.core "String"), none, none] ∧
      ((checkerAt 8).settle coreContext (some g.input.toInferring) text).bindingsGiven?
        (.start g.params g.bounds) = some [some (Ty.core "String"), none] ∧
      [Ty.core "String", Ty.core "Int", Ty.core "Bool"].all (Ty.isOver coreContext.registry) =
        true := by
    decide +kernel
  rcases heval with ⟨hcall, hthree, htwo, hover⟩
  constructor
  · rcases Inferring.exists_of_typeGiven hcall with ⟨term, j, hcall, htype⟩
    rcases Inferring.exists_of_bindingsGiven hthree with ⟨arg, bound, hsettled, hslots⟩
    rcases (defaulted_call_narrowest hctx.registry.declared (f := f) (by decide) (by decide) text
      8 {} {} .disabled).left hctx (by decide) 8 _ hdraft term j hcall with
      ⟨arg', bound', hsettled', hnarrowest⟩
    cases hsettled.symm.trans hsettled'
    refine ⟨term, j, hcall, htype, ?_⟩
    apply hnarrowest [Ty.core "String", Ty.core "Int", Ty.core "Bool"] rfl
    · intro k t ht _
      exact List.all_eq_true.mp hover t (List.mem_of_getElem? ht)
    · intro k slot hslot
      have hbound := hslots k
      rw [hslot] at hbound
      rcases k with _ | _ | _ | k
      · exact hbound.symm
      · cases hbound
      · cases hbound
      · cases hbound
  · rcases Inferring.exists_of_bindingsGiven htwo with ⟨arg, bound, hsettled, hslots⟩
    have hresult : g.output.OccursAt coreContext.registry 1
        (Variance.within .covariant (.within .covariant .covariant)) :=
      .part (k := 1) rfl rfl (.part (k := 1) rfl rfl (.param false))
    have hargument : g.output.OccursAt coreContext.registry 1
        (Variance.within .covariant (.within .contravariant .covariant)) :=
      .part (k := 1) rfl rfl (.part (k := 0) rfl rfl (.param false))
    apply ((defaulted_call_narrowest hctx.registry.declared (f := g) (by decide) (by decide) text
      8 {} {} .disabled).right arg bound hsettled).mpr
    have hopen : bound.slot? 1 = none := Option.map_eq_none_iff.mp (hslots 1)
    exact ⟨1, by decide, hopen, Or.inr (Or.inr ⟨hresult, hargument⟩)⟩

end TypeChecker
