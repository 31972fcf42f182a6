import TypeChecker.Proofs.Checking.MarkedTerms

/-!
# Drafts without marks

Where no name in scope has a parameter being inferred in its type, every expression is
drafted without marks. With the rules that settle drafts this makes an induction on the
depth of the check.
-/

namespace TypeChecker

open Inferring Checker

variable {ctx : Context} {c : Checker} {span : Span}

/-!
## Written types and names
-/

theorem TypeScope.reads_isUnmarked (scope : TypeScope) : scope.Reads Former.isUnmarked where
  named _ _ _ _ _ _ := rfl
  unit := rfl
  tuple _ := rfl
  bundle _ _ := rfl
  func := rfl

theorem Context.Unmarked.resolve (h : ctx.Unmarked) {depth : Nat} {expr : Source.TypeExpr} :
    Judge.Ensures (ctx.resolve depth expr) Ty.Unmarked := by
  apply Judge.Ensures.mapError
  intro t ht
  rcases TypeContext.resolve_ok ht with ⟨read, hread, rfl⟩
  refine h.types.registry.complete rfl (fun _ _ _ => rfl) ?_
  exact TypeScope.everywhere_read (TypeScope.reads_isUnmarked _) rfl rfl (fun _ => rfl) hread

theorem draftMeaning_unmarked {name : String} {typeArgs : List Ty} {meaning : Meaning}
    (h : meaning.Holds Former.isUnmarked) (htypeArgs : forall t : Ty, t ∈ typeArgs -> t.Unmarked)
    {draft : Draft} (hdraft : draftMeaning name typeArgs span meaning = .ok draft) :
    draft.Unmarked := by
  cases meaning with
  | localValue type =>
      rcases except_bind_ok.mp hdraft with ⟨_, _, hdraft⟩
      cases hdraft
      exact .typed h
  | constant symbol type =>
      rcases except_bind_ok.mp hdraft with ⟨_, _, hdraft⟩
      cases hdraft
      exact .typed h
  | typeParam index => cases hdraft
  | type use =>
      cases hdraft
      exact .reference trivial htypeArgs
  | functions functions =>
      cases hdraft
      exact .reference h htypeArgs
  | localOrFunctions type functions =>
      rw [draftMeaning] at hdraft
      split at hdraft
      · cases hdraft
        exact .reference ⟨h.right, h.left⟩ htypeArgs
      · cases hdraft
        exact .reference h.right htypeArgs

section

variable (hctx : ctx.Unmarked)

include hctx

theorem resolveAll_unmarked {exprs : List Source.TypeExpr} :
    Judge.Ensures (c.resolveAll ctx exprs) fun types =>
      forall t : Ty, t ∈ types -> t.Unmarked := by
  induction exprs with
  | nil => exact Judge.ensures_pure (List.forall_mem_nil _)
  | cons expr rest ih =>
      refine hctx.resolve.bind fun type htype => ?_
      refine ih.bind fun types htypes => ?_
      exact Judge.ensures_pure (List.forall_mem_cons.mpr ⟨htype, htypes⟩)

theorem draftRef_unmarked {ref : Source.InlineRef} :
    Judge.Ensures (c.draftRef ctx ref span) Draft.Unmarked := by
  unfold draftRef
  split
  · exact Judge.ensures_throw _
  · rename_i meaning hmeaning
    refine (resolveAll_unmarked hctx).bind fun typeArgs htypeArgs => ?_
    exact Judge.ensures_except fun draft hdraft =>
      draftMeaning_unmarked (hctx.names.lookup hmeaning) htypeArgs hdraft

/-!
## Tuples, bundles and arrays
-/

theorem getFromTerm_unmarked {base : Term} (hbase : base.Unmarked) {baseSpan : Span}
    {field : Source.Ident} :
    Judge.Ensures (c.getFromTerm ctx base baseSpan field span) Draft.Unmarked := by
  unfold getFromTerm
  dsimp only
  split
  · exact Judge.ensures_throw_bind _ _
  · refine (Judge.ensures_bounded fun _ h => h).bind fun shape hshape => ?_
    cases shape with
    | hidden => exact Judge.ensures_throw _
    | absent => exact Judge.ensures_throw _
    | found fields across =>
        dsimp only
        split
        · exact Judge.ensures_throw _
        · rename_i found hfound
          exact Judge.ensures_pure
            (.typed (hctx.types.registry.bundleBehind hbase hshape _ found hfound))

variable (hc : c.Confines)

include hc

theorem draftAll_unmarked {exprs : List Source.Expr} :
    Judge.Ensures (c.draftAll ctx exprs) fun drafts =>
      forall draft, draft ∈ drafts -> Draft.Unmarked draft := by
  induction exprs with
  | nil => exact Judge.ensures_pure (List.forall_mem_nil _)
  | cons expr rest ih =>
      refine (hc.draft ctx expr hctx).bind fun draft hdraft => ?_
      refine ih.bind fun drafts hdrafts => ?_
      exact Judge.ensures_pure (List.forall_mem_cons.mpr ⟨hdraft, hdrafts⟩)

theorem draftTuple_unmarked {items : List Source.Expr} :
    Judge.Ensures (c.draftTuple ctx items span) Draft.Unmarked := by
  unfold draftTuple
  split
  · exact Judge.ensures_pure (.typed rfl)
  · exact hc.draft ctx _ hctx
  · refine (draftAll_unmarked hctx hc).bind fun drafts hdrafts => ?_
    exact Judge.ensures_pure (.tuple hdrafts)

theorem draftFields_unmarked {fields : List (Source.Ident × Option Source.Expr)}
    {given : List String} :
    Judge.Ensures (c.draftFields ctx given fields) fun drafted =>
      forall field, field ∈ drafted -> Draft.Unmarked field.2 := by
  induction fields generalizing given with
  | nil => exact Judge.ensures_pure (List.forall_mem_nil _)
  | cons field rest ih =>
      refine (Judge.ensures_any _).bind fun _ _ => ?_
      refine (hc.draft ctx _ hctx).bind fun draft hdraft => ?_
      refine ih.bind fun drafted hdrafted => ?_
      exact Judge.ensures_pure (List.forall_mem_cons.mpr ⟨hdraft, hdrafted⟩)

theorem draftGet_unmarked {base : Source.Expr} {field : Source.Ident} :
    Judge.Ensures (c.draftGet ctx base field span) Draft.Unmarked := by
  refine (hc.draft ctx base hctx).bind fun draft hdraft => ?_
  split
  · rename_i term hterm
    exact getFromTerm_unmarked hctx (hdraft.term (by rw [Draft.term?, hterm]))
  · refine (settleAlone_unmarked hc hctx hdraft).mapError.bind fun term hterm => ?_
    exact getFromTerm_unmarked hctx hterm
  · exact Judge.ensures_throw _
  · exact Judge.ensures_throw _

omit hctx hc in
theorem updateFields_type {type : Ty} {declared : Table String (Field Ty)}
    {fields : List (Source.Ident × Option Source.Expr)} {given : List String} {current : Term}
    (hcurrent : current.type = type) :
    Judge.Ensures (c.updateFields ctx type declared span given current fields) fun updated =>
      updated.type = type := by
  induction fields generalizing given current with
  | nil => exact Judge.ensures_pure hcurrent
  | cons field rest ih =>
      rcases field with ⟨name, value⟩
      rw [updateFields]
      split
      · exact Judge.ensures_throw _
      · refine (Judge.ensures_any _).bind fun _ _ => ?_
        refine (Judge.ensures_any _).bind fun draft _ => ?_
        exact (Judge.ensures_any _).bind fun value _ => ih rfl

theorem draftUpdate_unmarked {base : Source.Expr}
    {fields : List (Source.Ident × Option Source.Expr)} :
    Judge.Ensures (c.draftUpdate ctx base fields span) Draft.Unmarked := by
  refine (hc.draft ctx base hctx).bind fun draft hdraft => ?_
  have hstart : Judge.Ensures (liftM (updateBase draft) : Judge ExprError Term) Term.Unmarked :=
    Judge.ensures_except fun term hterm => hdraft.term (updateBase_ok hterm)
  refine hstart.bind fun term hterm => ?_
  refine (Judge.ensures_any _).bind fun shape _ => ?_
  cases shape with
  | hidden => exact Judge.ensures_throw _
  | absent => exact Judge.ensures_throw _
  | found declared across =>
      refine (updateFields_type rfl).bind fun updated hupdated => Judge.ensures_pure (.typed ?_)
      show updated.type.Unmarked
      rw [hupdated]
      exact hterm

/-!
## Calls
-/

omit hc in
theorem callValue_unmarked {f : Term} (hf : f.Unmarked) {arg : Draft} :
    Judge.Ensures (c.callValue ctx f arg span) Term.Unmarked := by
  refine (Judge.ensures_bounded fun _ h => h).bind fun shape hshape => ?_
  split
  · refine (Judge.ensures_any _).bind fun value _ => Judge.ensures_pure ?_
    exact (hctx.types.registry.funcBehind hf hshape).right
  · exact Judge.ensures_throw _

theorem termOf_unmarked {draft : Draft} (hdraft : draft.Unmarked) :
    Judge.Ensures (c.termOf ctx draft) Term.Unmarked := by
  unfold termOf
  split
  · rename_i term hterm
    exact Judge.ensures_pure (hdraft.term hterm)
  · exact settleAlone_unmarked hc hctx hdraft

theorem callLambda_unmarked {lambda : Source.Lambda} {locals : Locals}
    (hlocals : Locals.Hold Former.isUnmarked locals) {arg : Draft} (harg : arg.Unmarked)
    {lambdaSpan : Span} :
    Judge.Ensures (c.callLambda ctx lambda locals arg lambdaSpan span) Term.Unmarked := by
  refine (termOf_unmarked hctx hc harg).mapError.bind fun value hvalue => ?_
  refine (hctx.types.registry.destructure hvalue).bind fun pattern hpattern => ?_
  have hinner := hctx.inBody hlocals hpattern
  refine (hc.draft _ lambda.output hinner).bind fun draft hdraft => ?_
  exact (termOf_unmarked hinner hc hdraft).bind fun body hbody => Judge.ensures_pure hbody

theorem callType_unmarked {use : TypeUse} {typeArgs : List Ty}
    (htypeArgs : forall t : Ty, t ∈ typeArgs -> t.Unmarked) {arg : Draft} (harg : arg.Unmarked) :
    Judge.Ensures (c.callType ctx use typeArgs arg span) Draft.Unmarked := by
  have hinject : (c.inject ctx arg use.name typeArgs use.exact span).Ensures
      Inference.disabled.Keeps Term.Unmarked := inject_unmarked hc hctx harg htypeArgs
  exact (hinject.withoutInference Inference.binds_disabled.keeps).bind fun _ hterm =>
    Judge.ensures_pure (.typed hterm)

theorem callOverloaded_unmarked {name : String} {functions : List Signature}
    (hfunctions : Signature.AllHold Former.isUnmarked functions) {typeArgs : List Ty}
    (htypeArgs : forall t : Ty, t ∈ typeArgs -> t.Unmarked) {arg : Draft} (harg : arg.Unmarked)
    {calleeSpan : Span} {base : Inference} :
    (c.callOverloaded ctx name functions typeArgs arg calleeSpan span).Ensures base.Keeps
      Draft.Unmarked := by
  unfold callOverloaded
  split
  · rename_i f
    apply Ensures.bind (call_unmarked hctx (hfunctions f List.mem_cons_self) htypeArgs hc harg)
    intro term hterm
    exact ensures_pure (.typed hterm)
  · refine Ensures.bind (tried_ensures fun f hf =>
      call_unmarked hctx (hfunctions f hf) htypeArgs hc harg) fun tried htried => ?_
    split
    · exact ensures_throw _
    · rename_i only hone
      rcases htried only (hone ▸ List.mem_cons_self) with ⟨hinference, hterm⟩
      apply Ensures.bind (choose_unmarked hinference hterm)
      intro term hterm
      exact ensures_pure (.typed hterm)
    · refine ensures_pure (.undecided (List.forall_mem_map.mpr ?_))
      exact fun candidate hcandidate => (htried candidate hcandidate).right

theorem callFunctions_unmarked {f : Overloads}
    (hf : Signature.AllHold Former.isUnmarked f.functions) {typeArgs : List Ty}
    (htypeArgs : forall t : Ty, t ∈ typeArgs -> t.Unmarked) {arg : Draft} (harg : arg.Unmarked)
    {calleeSpan : Span} :
    Judge.Ensures (c.callFunctions ctx f typeArgs arg calleeSpan span) Draft.Unmarked := by
  refine ((callOverloaded_unmarked hctx hc hf htypeArgs harg).withoutInference
    Inference.binds_disabled.keeps).attempt.bind fun result hresult => ?_
  cases result with
  | ok draft => exact Judge.ensures_pure (hresult draft rfl)
  | error error =>
      dsimp only
      split
      · exact Judge.ensures_throw_bind _ _
      · split
        · exact Judge.ensures_throw _
        · exact (callType_unmarked hctx hc htypeArgs harg).mapError

theorem callRef_unmarked {target : RefTarget} (htarget : target.Unmarked) {typeArgs : List Ty}
    (htypeArgs : forall t : Ty, t ∈ typeArgs -> t.Unmarked) {arg : Draft} (harg : arg.Unmarked)
    {calleeSpan : Span} :
    Judge.Ensures (c.callRef ctx target typeArgs arg calleeSpan span) Draft.Unmarked := by
  cases target with
  | type use => exact callType_unmarked hctx hc htypeArgs harg
  | functions f => exact callFunctions_unmarked hctx hc htarget htypeArgs harg
  | functionsOrLocal f value =>
      refine (Judge.ensures_any _).bind fun shape _ => ?_
      split
      · refine (callValue_unmarked hctx htarget.right).bind fun term hterm => ?_
        exact Judge.ensures_pure (.typed hterm)
      · exact callFunctions_unmarked hctx hc htarget.left (List.forall_mem_nil _) harg

theorem callDraft_unmarked {callee arg : Draft} (hcallee : callee.Unmarked)
    (harg : arg.Unmarked) : Judge.Ensures (c.callDraft ctx callee arg span) Draft.Unmarked := by
  cases hcallee with
  | typed hf =>
      refine (callValue_unmarked hctx hf).bind fun term hterm => ?_
      exact Judge.ensures_pure (.typed hterm)
  | lambda hlocals =>
      refine (callLambda_unmarked hctx hc hlocals harg).bind fun term hterm => ?_
      exact Judge.ensures_pure (.typed hterm)
  | reference htarget htypeArgs => exact callRef_unmarked hctx hc htarget htypeArgs harg
  | _ => exact Judge.ensures_throw _

/-!
## Blocks
-/

theorem checkBinding_unmarked {binding : Source.Binding} :
    Judge.Ensures (c.checkBinding ctx binding) fun bound =>
      Locals.Hold Former.isUnmarked bound.pattern.value.bindings := by
  have hannotation : Judge.Ensures (c.annotation? ctx binding) fun annotation =>
      forall t, annotation = some t -> t.Unmarked := by
    unfold annotation?
    split
    · refine hctx.resolve.bind fun t ht => Judge.ensures_pure ?_
      intro s hs
      cases hs
      exact ht
    · refine Judge.ensures_pure ?_
      intro s hs
      cases hs
  refine hannotation.bind fun annotation hexpected => ?_
  split
  · split
    · exact Judge.ensures_throw _
    · rename_i declared
      refine (hctx.types.registry.destructure (hexpected declared rfl)).bind
        fun pattern hpattern => ?_
      refine (Judge.ensures_any _).bind fun value _ => ?_
      dsimp only
      split
      · exact Judge.ensures_throw_bind _ _
      · exact Judge.ensures_pure hpattern
  · have hcheck : Judge.Ensures (c.check ctx annotation binding.value) Term.Unmarked :=
      (hc.draft ctx _ hctx).bind fun draft hdraft => settle_unmarked hc hctx hexpected hdraft
    refine hcheck.bind fun value hvalue => ?_
    refine (hctx.types.registry.destructure hvalue).bind fun pattern hpattern => ?_
    exact Judge.ensures_pure hpattern

omit hctx in
theorem checkBindings_unmarked {bindings : List Source.Binding} {ctx : Context}
    (hctx : ctx.Unmarked) :
    Judge.Ensures (c.checkBindings ctx bindings) fun result =>
      (forall bound, bound ∈ result.1 ->
        Locals.Hold Former.isUnmarked bound.pattern.value.bindings) ∧ result.2.Unmarked := by
  induction bindings generalizing ctx with
  | nil => exact Judge.ensures_pure ⟨List.forall_mem_nil _, hctx⟩
  | cons binding rest ih =>
      refine (checkBinding_unmarked hctx hc).bind fun bound hbound => ?_
      refine (ih (hctx.withLocals hbound)).bind fun result hresult => ?_
      exact Judge.ensures_pure
        ⟨List.forall_mem_cons.mpr ⟨hbound, hresult.left⟩, hresult.right⟩

theorem draftBlock_unmarked {bindings : List Source.Binding} {result : Source.Expr} :
    Judge.Ensures (c.draftBlock ctx bindings result span) Draft.Unmarked := by
  refine (checkBindings_unmarked hc hctx).bind fun checked hchecked => ?_
  refine (hc.draft _ result hchecked.right).bind fun draft hdraft => ?_
  split
  · rename_i term hterm
    have hterm := hdraft.term hterm
    exact Judge.ensures_pure (.typed hterm)
  · exact Judge.ensures_pure (.block hchecked.left hdraft)

/-!
## Switches and conditionals
-/

omit hctx hc in
theorem caseOf_unmarked {union : UnionView}
    (hunion : (Ty.named union.name union.args).Unmarked) {ref : Source.InlineRef}
    {case : CaseView} (h : ctx.caseOf union ref = .ok case) : case.type.Unmarked := by
  rcases Context.caseOf_ok h with ⟨declared, _, htype⟩
  rw [htype]
  refine Ty.unmarked_of_parts rfl ?_
  intro t ht
  rcases List.mem_filterMap.mp ht with ⟨position, _, harg⟩
  exact (Ty.everywhere_iff.mp hunion).right t (List.mem_of_getElem? harg)

omit hctx hc in
theorem rowOf_unmarked {refs : List Source.InlineRef} {unions : List UnionView}
    (hunions : forall union, union ∈ unions -> (Ty.named union.name union.args).Unmarked)
    {entries : List (Option CaseView)} (h : ctx.rowOf refs unions = .ok entries) :
    forall entry, entry ∈ entries -> ((entry.map CaseView.type).getD .unit).Unmarked := by
  intro entry hentry
  rcases Context.rowOf_ok h entry hentry with rfl | ⟨union, ref, case, hunion, hcase, rfl⟩
  · rfl
  · exact caseOf_unmarked (hunions union hunion) hcase

theorem switchArg_unmarked {cross : Bool} {arg : Source.Expr} :
    Judge.Ensures (c.switchArg ctx cross arg) fun result =>
      (Ty.named result.2.name result.2.args).Unmarked := by
  refine (hc.draft ctx arg hctx).bind fun draft hdraft => ?_
  refine (settleAlone_unmarked hc hctx hdraft).bind fun term hterm => ?_
  refine (Judge.ensures_bounded fun _ h => h).bind fun found hfound => ?_
  cases found with
  | none => exact Judge.ensures_throw _
  | some union =>
      exact Judge.ensures_pure (hctx.types.registry.unionBehind hterm hfound).left

theorem draftCases_unmarked {union : UnionView}
    (hunion : (Ty.named union.name union.args).Unmarked) {branch : Source.Branch}
    {refs : List Source.InlineRef} {taken : List Nat} :
    Judge.Ensures (c.draftCases ctx union branch taken refs) fun result =>
      forall drafted, drafted ∈ result.1 -> Draft.Unmarked drafted.value := by
  induction refs generalizing taken with
  | nil => exact Judge.ensures_pure (List.forall_mem_nil _)
  | cons ref rest ih =>
      refine (Judge.ensures_except fun case hcase => caseOf_unmarked hunion hcase).bind
        fun case hcase => ?_
      dsimp only
      split
      · exact Judge.ensures_throw_bind _ _
      · have htype : (if union.reactive then Ty.named reactive [case.type]
            else case.type).Unmarked := by
          split
          · exact Ty.unmarked_applied hcase _
          · exact hcase
        refine (hctx.types.registry.destructure? htype).bind fun pattern hpattern => ?_
        refine (hc.draft _ branch.value (hctx.withPattern? hpattern)).bind fun value hvalue => ?_
        refine ih.bind fun result hresult => ?_
        exact Judge.ensures_pure (List.forall_mem_cons.mpr ⟨hvalue, hresult⟩)

theorem draftBranches_unmarked {union : UnionView}
    (hunion : (Ty.named union.name union.args).Unmarked) {branches : List Source.Branch}
    {taken : List Nat} {default : Option Span} :
    Judge.Ensures (c.draftBranches ctx union taken default branches) fun result =>
      forall drafted, drafted ∈ result.branches -> Draft.Unmarked drafted.value := by
  induction branches generalizing taken default with
  | nil => exact Judge.ensures_pure (List.forall_mem_nil _)
  | cons branch rest ih =>
      rw [draftBranches]
      split
      · dsimp only
        split
        · exact Judge.ensures_throw_bind _ _
        · refine (hc.draft ctx branch.value hctx).bind fun value hvalue => ?_
          refine ih.bind fun result hresult => ?_
          exact Judge.ensures_pure (List.forall_mem_cons.mpr ⟨hvalue, hresult⟩)
      · refine (draftCases_unmarked hctx hc hunion).bind fun own hown => ?_
        refine ih.bind fun result hresult => ?_
        exact Judge.ensures_pure (List.forall_mem_append.mpr ⟨hown, hresult⟩)

theorem draftSwitch_unmarked {arg : Source.Expr} {branches : List Source.Branch} :
    Judge.Ensures (c.draftSwitch ctx arg branches span) Draft.Unmarked := by
  refine (switchArg_unmarked hctx hc).bind fun result hunion => ?_
  refine (draftBranches_unmarked hctx hc hunion).bind fun drafted hdrafted => ?_
  refine (Judge.ensures_any _).bind fun _ _ => ?_
  exact Judge.ensures_pure (.switch hdrafted)

theorem switchArgs_unmarked {args : List Source.Expr} :
    Judge.Ensures (c.switchArgs ctx args) fun results =>
      forall result, result ∈ results ->
        (Ty.named (UnionView.name result.2) result.2.args).Unmarked := by
  induction args with
  | nil => exact Judge.ensures_pure (List.forall_mem_nil _)
  | cons arg rest ih =>
      refine (switchArg_unmarked hctx hc).bind fun first hfirst => ?_
      refine ih.bind fun others hothers => ?_
      exact Judge.ensures_pure (List.forall_mem_cons.mpr ⟨hfirst, hothers⟩)

theorem draftRow_unmarked {unions : List UnionView}
    (hunions : forall union, union ∈ unions -> (Ty.named union.name union.args).Unmarked)
    {covered : List Coverage.Combination} {branch : Source.MultiBranch}
    {refs : List Source.InlineRef} :
    Judge.Ensures (c.draftRow ctx unions covered branch refs) fun result =>
      Draft.Unmarked result.1.value := by
  unfold draftRow
  dsimp only
  split
  · exact Judge.ensures_throw_bind _ _
  · refine (Judge.ensures_except fun entries hentries => rowOf_unmarked hunions hentries).bind
      fun entries hentries => ?_
    split
    · exact Judge.ensures_throw_bind _ _
    · refine (Judge.ensures_any _).bind fun _ _ => ?_
      have htuple : (Ty.tuple (entries.map fun entry =>
          (entry.map CaseView.type).getD .unit)).Unmarked :=
        Ty.unmarked_of_parts rfl (List.forall_mem_map.mpr hentries)
      refine (hctx.types.registry.destructure? htuple).bind fun pattern hpattern => ?_
      refine (hc.draft _ branch.value (hctx.withPattern? hpattern)).bind fun value hvalue => ?_
      exact Judge.ensures_pure hvalue

theorem draftRows_unmarked {unions : List UnionView}
    (hunions : forall union, union ∈ unions -> (Ty.named union.name union.args).Unmarked)
    {branches : List Source.MultiBranch} {covered : List Coverage.Combination}
    {default : Option Span} :
    Judge.Ensures (c.draftRows ctx unions covered default branches) fun result =>
      forall drafted, drafted ∈ result.branches -> Draft.Unmarked drafted.value := by
  induction branches generalizing covered default with
  | nil => exact Judge.ensures_pure (List.forall_mem_nil _)
  | cons branch rest ih =>
      rw [draftRows]
      split
      · dsimp only
        split
        · exact Judge.ensures_throw_bind _ _
        · refine (hc.draft ctx branch.value hctx).bind fun value hvalue => ?_
          refine ih.bind fun result hresult => ?_
          exact Judge.ensures_pure (List.forall_mem_cons.mpr ⟨hvalue, hresult⟩)
      · refine (draftRow_unmarked hctx hc hunions).bind fun own hown => ?_
        refine ih.bind fun result hresult => ?_
        exact Judge.ensures_pure (List.forall_mem_cons.mpr ⟨hown, hresult⟩)

theorem draftMultiSwitch_unmarked {args : List Source.Expr}
    {branches : List Source.MultiBranch} :
    Judge.Ensures (c.draftMultiSwitch ctx args branches span) Draft.Unmarked := by
  refine (switchArgs_unmarked hctx hc).bind fun results hresults => ?_
  refine (draftRows_unmarked hctx hc (List.forall_mem_map.mpr hresults)).bind
    fun drafted hdrafted => ?_
  refine (Judge.ensures_any _).bind fun _ _ => ?_
  exact Judge.ensures_pure (.multiSwitch hdrafted)

theorem draftConditional_unmarked {condition yes no : Source.Expr}
    {elseIfs : List Source.ElseIf} :
    Judge.Ensures (c.draftConditional ctx condition yes elseIfs no span) Draft.Unmarked := by
  refine (Judge.ensures_any _).bind fun draft _ => ?_
  refine (Judge.ensures_any _).bind fun result _ => ?_
  refine (hc.draft ctx yes hctx).bind fun yes hyes => ?_
  refine (hc.draft ctx _ hctx).bind fun no hno => Judge.ensures_pure (.switch ?_)
  exact List.forall_mem_cons.mpr ⟨hyes, List.forall_mem_singleton.mpr hno⟩

/-!
## All expressions
-/

theorem draftStep_unmarked {expr : Source.Expr} :
    Judge.Ensures (c.draftStep ctx expr) Draft.Unmarked := by
  rcases expr with ⟨node, span⟩
  cases node with
  | ref ref => exact draftRef_unmarked hctx
  | call callee arg =>
      refine (hc.draft ctx callee hctx).bind fun callee hcallee => ?_
      refine (hc.draft ctx arg hctx).bind fun arg harg => ?_
      exact callDraft_unmarked hctx hc hcallee harg
  | operator op left right =>
      refine (hc.draft ctx op hctx).bind fun callee hcallee => ?_
      refine (hc.draft ctx left hctx).bind fun left hleft => ?_
      refine (hc.draft ctx right hctx).bind fun right hright => ?_
      refine callDraft_unmarked hctx hc hcallee (.tuple ?_)
      exact List.forall_mem_cons.mpr ⟨hleft, List.forall_mem_singleton.mpr hright⟩
  | cast value target =>
      refine hctx.resolve.bind fun type htype => ?_
      refine (hc.draft ctx value hctx).bind fun draft hdraft => ?_
      refine (settleTo_unmarked hc hctx htype hdraft).bind fun term hterm => ?_
      exact Judge.ensures_pure (.typed hterm)
  | get base field => exact draftGet_unmarked hctx hc
  | lambda f => exact Judge.ensures_pure (.lambda hctx.names.locals)
  | tuple items => exact draftTuple_unmarked hctx hc
  | bundle fields =>
      refine (draftFields_unmarked hctx hc).bind fun drafted hdrafted => ?_
      exact Judge.ensures_pure (.bundle hdrafted)
  | update base fields => exact draftUpdate_unmarked hctx hc
  | array items =>
      refine (draftAll_unmarked hctx hc).bind fun drafts hdrafts => ?_
      exact Judge.ensures_pure (.array hdrafts)
  | block bindings result => exact draftBlock_unmarked hctx hc
  | switch arg branches => exact draftSwitch_unmarked hctx hc
  | multiSwitch args branches => exact draftMultiSwitch_unmarked hctx hc
  | conditional condition yes elseIfs no => exact draftConditional_unmarked hctx hc
  | int literal =>
      apply Judge.ensures_except
      intro draft hdraft
      unfold draftInteger at hdraft
      split at hdraft
      · cases hdraft
        exact .integer
      · cases hdraft
  | float bits => exact Judge.ensures_pure (.typed (Ty.unmarked_core _))
  | text value => exact Judge.ensures_pure (.typed (Ty.unmarked_core _))
  | char value => exact Judge.ensures_pure (.typed (Ty.unmarked_core _))

end

/-- The checker confines marks, at every depth. -/
theorem confines_checkerAt (depth : Nat) : (checkerAt depth).Confines := by
  induction depth with
  | zero => exact ⟨fun _ _ _ => Judge.ensures_exhausted, fun _ _ _ _ _ _ => ensures_exhausted⟩
  | succ depth ih =>
      constructor
      · exact fun ctx expr hctx => draftStep_unmarked hctx ih
      · exact fun base ctx expected draft hctx hdraft => settleStep_confined ih hctx hdraft

end TypeChecker
