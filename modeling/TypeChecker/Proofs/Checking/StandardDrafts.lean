import TypeChecker.Proofs.Checking.StandardTerms

/-!
# Drafts keep to standards

Each rule that drafts an expression gives a draft that meets a standard, if the context
does and the expression writes no tuple of a size that is not accepted. With the rules
that settle drafts this makes an induction on the depth of the check.
-/

namespace TypeChecker
namespace Standard

open Inferring Checker

variable {s : Standard} {ctx : Context} {c : Checker} {span : Span}

theorem ofDraft_ofTerm {term : Term} (h : s.OfTerm term) : s.OfDraft (.ofTerm term) :=
  .typed h

/-!
## Names
-/

theorem OfMeaning.draft {name : String} {typeArgs : List Ty} {meaning : Meaning}
    (h : s.OfMeaning meaning) (htypeArgs : s.OfTypes typeArgs) {draft : Draft}
    (hdraft : draftMeaning name typeArgs span meaning = .ok draft) : s.OfDraft draft := by
  cases meaning with
  | localValue type =>
      rcases except_bind_ok.mp hdraft with ⟨_, _, hdraft⟩
      cases hdraft
      exact ofDraft_ofTerm (ofTerm_leaf rfl rfl h)
  | constant symbol type =>
      rcases except_bind_ok.mp hdraft with ⟨_, _, hdraft⟩
      cases hdraft
      exact ofDraft_ofTerm (ofTerm_leaf rfl rfl h)
  | typeParam index => cases hdraft
  | type use =>
      cases hdraft
      exact .reference trivial htypeArgs
  | functions functions =>
      cases hdraft
      exact .reference h htypeArgs
  | localOrFunctions type functions =>
      rw [draftMeaning] at hdraft
      split at hdraft
      · cases hdraft
        exact .reference ⟨h.right, ofTerm_leaf rfl rfl h.left⟩ htypeArgs
      · cases hdraft
        exact .reference h.right htypeArgs

section

variable (hctx : s.OfContext ctx)

include hctx

theorem resolveAll_standard {exprs : List Source.TypeExpr} :
    Judge.Ensures (c.resolveAll ctx exprs) s.OfTypes := by
  induction exprs with
  | nil => exact Judge.ensures_pure ofTypes_nil
  | cons expr rest ih =>
      refine (hctx.written c.depth expr).bind fun type htype => ?_
      refine ih.bind fun types htypes => ?_
      exact Judge.ensures_pure (ofTypes_cons.mpr ⟨htype, htypes⟩)

theorem draftRef_standard {ref : Source.InlineRef} :
    Judge.Ensures (c.draftRef ctx ref span) s.OfDraft := by
  unfold draftRef
  split
  · exact Judge.ensures_throw _
  · rename_i meaning hmeaning
    refine (resolveAll_standard hctx).bind fun typeArgs htypeArgs => ?_
    exact Judge.ensures_except fun draft hdraft => (hctx.lookup hmeaning).draft htypeArgs hdraft

end

/-!
## Tuples, bundles and arrays
-/

theorem ofExpr_fieldValue {name : Source.Ident} {value : Option Source.Expr}
    (h : forall expr, value = some expr -> s.OfExpr expr) : s.OfExpr (fieldValue name value) := by
  cases value with
  | some expr => exact h expr rfl
  | none =>
      refine ofExpr_iff.mpr ⟨?_, ?_⟩
      · intro n hn
        cases hn
      · intro part hpart
        cases hpart

section

variable (hc : s.OfChecker c) (hctx : s.OfContext ctx)

include hc hctx

theorem draftAll_standard {exprs : List Source.Expr}
    (hexprs : forall expr, expr ∈ exprs -> s.OfExpr expr) :
    Judge.Ensures (c.draftAll ctx exprs) fun drafts =>
      drafts.length = exprs.length ∧ forall draft, draft ∈ drafts -> s.OfDraft draft := by
  induction exprs with
  | nil => exact Judge.ensures_pure ⟨rfl, List.forall_mem_nil _⟩
  | cons expr rest ih =>
      rw [List.forall_mem_cons] at hexprs
      refine (hc.draft ctx expr hctx hexprs.left).bind fun draft hdraft => ?_
      refine (ih hexprs.right).bind fun drafts hdrafts => ?_
      exact Judge.ensures_pure ⟨congrArg Nat.succ hdrafts.left,
        List.forall_mem_cons.mpr ⟨hdraft, hdrafts.right⟩⟩

theorem draftTuple_standard {items : List Source.Expr} (h : s.OfExpr ⟨.tuple items, span⟩) :
    Judge.Ensures (c.draftTuple ctx items span) s.OfDraft := by
  rcases ofExpr_iff.mp h with ⟨hsize, hitems⟩
  unfold draftTuple
  split
  · exact Judge.ensures_pure (ofDraft_ofTerm (ofTerm_unit hctx.suits span))
  · exact hc.draft ctx _ hctx (hitems _ List.mem_cons_self)
  · rename_i hnotNil hnotOne
    refine (draftAll_standard hc hctx hitems).bind fun drafts hdrafts => ?_
    refine Judge.ensures_pure (.tuple (hdrafts.left ▸ hsize items.length ?_) hdrafts.right)
    rcases items with _ | ⟨first, _ | ⟨second, rest⟩⟩
    · exact absurd rfl hnotNil
    · exact absurd rfl (hnotOne first)
    · rfl

theorem draftFields_standard {fields : List (Source.Ident × Option Source.Expr)}
    (hfields : forall field, field ∈ fields -> forall expr, field.2 = some expr -> s.OfExpr expr)
    {given : List String} :
    Judge.Ensures (c.draftFields ctx given fields) fun drafted =>
      forall field, field ∈ drafted -> s.OfDraft field.2 := by
  induction fields generalizing given with
  | nil => exact Judge.ensures_pure (List.forall_mem_nil _)
  | cons field rest ih =>
      rw [List.forall_mem_cons] at hfields
      refine (Judge.ensures_any _).bind fun _ _ => ?_
      refine (hc.draft ctx _ hctx (ofExpr_fieldValue hfields.left)).bind fun draft hdraft => ?_
      refine (ih hfields.right).bind fun drafted hdrafted => ?_
      exact Judge.ensures_pure (List.forall_mem_cons.mpr ⟨hdraft, hdrafted⟩)

omit hc hctx in
theorem ofExpr_field {parts : List Source.Expr} (h : forall part, part ∈ parts -> s.OfExpr part)
    {fields : List (Source.Ident × Option Source.Expr)}
    (hparts : forall part, part ∈ fields.filterMap Prod.snd -> part ∈ parts) :
    forall field, field ∈ fields -> forall expr, field.2 = some expr -> s.OfExpr expr := by
  intro field hfield expr hexpr
  exact h expr (hparts expr (List.mem_filterMap.mpr ⟨field, hfield, hexpr⟩))

omit hc in
theorem getFromTerm_standard {base : Term} (hbase : s.OfTerm base) {baseSpan : Span}
    {field : Source.Ident} :
    Judge.Ensures (c.getFromTerm ctx base baseSpan field span) s.OfDraft := by
  unfold getFromTerm
  dsimp only
  split
  · exact Judge.ensures_throw_bind _ _
  · refine (Judge.ensures_bounded fun _ h => h).bind fun shape hshape => ?_
    cases shape with
    | hidden => exact Judge.ensures_throw _
    | absent => exact Judge.ensures_throw _
    | found fields across =>
        dsimp only
        split
        · exact Judge.ensures_throw _
        · rename_i found hfound
          have htype := hctx.bundleBehind hbase.type hshape _ found hfound
          exact Judge.ensures_pure (ofDraft_ofTerm (ofTerm_of_parts rfl htype
            (List.forall_mem_singleton.mpr hbase)))

theorem draftGet_standard {base : Source.Expr} (hbase : s.OfExpr base) {field : Source.Ident} :
    Judge.Ensures (c.draftGet ctx base field span) s.OfDraft := by
  refine (hc.draft ctx base hctx hbase).bind fun draft hdraft => ?_
  split
  · rename_i term hterm
    exact getFromTerm_standard hctx (hdraft.term (by rw [Draft.term?, hterm]))
  · refine (settleAlone_standard hc hctx hdraft).mapError.bind fun term hterm => ?_
    exact getFromTerm_standard hctx hterm
  · exact Judge.ensures_throw _
  · exact Judge.ensures_throw _

theorem updateFields_standard {type : Ty} (htype : s.OfType type)
    {declared : Table String (Field Ty)}
    (hdeclared : forall name field, Table.get? declared name = some field -> s.OfType field.type)
    {fields : List (Source.Ident × Option Source.Expr)}
    (hfields : forall field, field ∈ fields -> forall expr, field.2 = some expr -> s.OfExpr expr)
    {given : List String} {current : Term} (hcurrent : s.OfTerm current) :
    Judge.Ensures (c.updateFields ctx type declared span given current fields) s.OfTerm := by
  induction fields generalizing given current with
  | nil => exact Judge.ensures_pure hcurrent
  | cons field rest ih =>
      rcases field with ⟨name, value⟩
      rw [List.forall_mem_cons] at hfields
      rw [updateFields]
      split
      · exact Judge.ensures_throw _
      · rename_i target htarget
        refine (Judge.ensures_any _).bind fun _ _ => ?_
        refine (hc.draft ctx _ hctx (ofExpr_fieldValue hfields.left)).bind fun draft hdraft => ?_
        refine (settleTo_standard hc hctx (hdeclared _ target htarget) hdraft).bind
          fun value hvalue => ?_
        exact ih hfields.right (ofTerm_of_parts rfl htype
          (List.forall_mem_cons.mpr ⟨hcurrent, List.forall_mem_singleton.mpr hvalue⟩))

theorem draftUpdate_standard {base : Source.Expr} (hbase : s.OfExpr base)
    {fields : List (Source.Ident × Option Source.Expr)}
    (hfields : forall field, field ∈ fields -> forall expr, field.2 = some expr -> s.OfExpr expr) :
    Judge.Ensures (c.draftUpdate ctx base fields span) s.OfDraft := by
  refine (hc.draft ctx base hctx hbase).bind fun draft hdraft => ?_
  have hstart : Judge.Ensures (liftM (updateBase draft) : Judge ExprError Term) s.OfTerm :=
    Judge.ensures_except fun term hterm => hdraft.term (updateBase_ok hterm)
  refine hstart.bind fun term hterm => ?_
  refine (Judge.ensures_bounded fun _ h => h).bind fun shape hshape => ?_
  cases shape with
  | hidden => exact Judge.ensures_throw _
  | absent => exact Judge.ensures_throw _
  | found declared across =>
      refine (updateFields_standard hc hctx hterm.type (hctx.bundleBehind hterm.type hshape)
        hfields hterm).bind fun updated hupdated => ?_
      exact Judge.ensures_pure (ofDraft_ofTerm hupdated)

/-!
## Calls
-/

theorem callValue_standard {f : Term} (hf : s.OfTerm f) {arg : Draft} (harg : s.OfDraft arg) :
    Judge.Ensures (c.callValue ctx f arg span) s.OfTerm := by
  refine (Judge.ensures_bounded fun _ h => h).bind fun shape hshape => ?_
  split
  · rcases hctx.funcBehind hf.type hshape with ⟨hinput, houtput⟩
    refine (settleTo_standard hc hctx hinput harg).bind fun value hvalue => ?_
    exact Judge.ensures_pure (ofTerm_of_parts rfl houtput
      (List.forall_mem_cons.mpr ⟨hf, List.forall_mem_singleton.mpr hvalue⟩))
  · exact Judge.ensures_throw _

theorem termOf_standard {draft : Draft} (hdraft : s.OfDraft draft) :
    Judge.Ensures (c.termOf ctx draft) s.OfTerm := by
  unfold termOf
  split
  · rename_i term hterm
    exact Judge.ensures_pure (hdraft.term hterm)
  · exact settleAlone_standard hc hctx hdraft

theorem callLambda_standard {lambda : Source.Lambda} (hlambda : s.OfExpr lambda.output)
    {locals : Locals} (hlocals : s.OfLocals locals) {arg : Draft} (harg : s.OfDraft arg)
    {lambdaSpan : Span} :
    Judge.Ensures (c.callLambda ctx lambda locals arg lambdaSpan span) s.OfTerm := by
  refine (termOf_standard hc hctx harg).mapError.bind fun value hvalue => ?_
  refine (hctx.destructure hvalue.type).bind fun pattern hpattern => ?_
  have hinner : s.OfContext (bodyContext ctx locals pattern) := hctx.inBody hlocals hpattern
  refine (hc.draft _ lambda.output hinner hlambda).bind fun draft hdraft => ?_
  refine (termOf_standard hc hinner hdraft).bind fun body hbody => Judge.ensures_pure ?_
  have hcallee : s.OfTerm ⟨.func value.type body.type, .lambda pattern body, lambdaSpan⟩ :=
    ofTerm_of_parts rfl (hctx.suits.func hvalue.type hbody.type)
      (List.forall_mem_singleton.mpr hbody)
  exact ofTerm_of_parts rfl hbody.type
    (List.forall_mem_cons.mpr ⟨hcallee, List.forall_mem_singleton.mpr hvalue⟩)

theorem callType_standard {use : TypeUse} {typeArgs : List Ty} (htypeArgs : s.OfTypes typeArgs)
    {arg : Draft} (harg : s.OfDraft arg) :
    Judge.Ensures (c.callType ctx use typeArgs arg span) s.OfDraft :=
  ((inject_standard hc hctx harg htypeArgs).withoutInference ofInference_disabled).bind
    fun _ hterm => Judge.ensures_pure (ofDraft_ofTerm hterm)

theorem callOverloaded_standard {name : String} {functions : List Signature}
    (hfunctions : s.OfSignatures functions) {typeArgs : List Ty} (htypeArgs : s.OfTypes typeArgs)
    {arg : Draft} (harg : s.OfDraft arg) {calleeSpan : Span} {n : Nat} :
    (c.callOverloaded ctx name functions typeArgs arg calleeSpan span).Ensures (s.OfInference n)
      s.OfDraft := by
  unfold callOverloaded
  split
  · rename_i f
    apply Ensures.bind (call_standard hctx (hfunctions f List.mem_cons_self) htypeArgs hc harg)
    intro term hterm
    exact ensures_pure (ofDraft_ofTerm hterm)
  · refine Ensures.bind (tried_ensures fun f hf =>
      call_standard hctx (hfunctions f hf) htypeArgs hc harg) fun tried htried => ?_
    split
    · exact ensures_throw _
    · rename_i only hone
      rcases htried only (hone ▸ List.mem_cons_self) with ⟨hinference, hterm⟩
      apply Ensures.bind (choose_standard hinference hterm)
      intro term hterm
      exact ensures_pure (ofDraft_ofTerm hterm)
    · refine ensures_pure (.undecided (List.forall_mem_map.mpr ?_))
      exact fun candidate hcandidate => (htried candidate hcandidate).right

theorem callFunctions_standard {f : Overloads} (hf : s.OfSignatures f.functions)
    {typeArgs : List Ty} (htypeArgs : s.OfTypes typeArgs) {arg : Draft} (harg : s.OfDraft arg)
    {calleeSpan : Span} :
    Judge.Ensures (c.callFunctions ctx f typeArgs arg calleeSpan span) s.OfDraft := by
  refine ((callOverloaded_standard hc hctx hf htypeArgs harg).withoutInference
    ofInference_disabled).attempt.bind fun result hresult => ?_
  cases result with
  | ok draft => exact Judge.ensures_pure (hresult draft rfl)
  | error error =>
      dsimp only
      split
      · exact Judge.ensures_throw_bind _ _
      · split
        · exact Judge.ensures_throw _
        · exact (callType_standard hc hctx htypeArgs harg).mapError

theorem callRef_standard {target : RefTarget} (htarget : s.OfTarget target) {typeArgs : List Ty}
    (htypeArgs : s.OfTypes typeArgs) {arg : Draft} (harg : s.OfDraft arg) {calleeSpan : Span} :
    Judge.Ensures (c.callRef ctx target typeArgs arg calleeSpan span) s.OfDraft := by
  cases target with
  | type use => exact callType_standard hc hctx htypeArgs harg
  | functions f => exact callFunctions_standard hc hctx htarget htypeArgs harg
  | functionsOrLocal f value =>
      refine (Judge.ensures_any _).bind fun shape _ => ?_
      split
      · refine (callValue_standard hc hctx htarget.right harg).bind fun term hterm => ?_
        exact Judge.ensures_pure (ofDraft_ofTerm hterm)
      · exact callFunctions_standard hc hctx htarget.left ofTypes_nil harg

theorem callDraft_standard {callee arg : Draft} (hcallee : s.OfDraft callee)
    (harg : s.OfDraft arg) : Judge.Ensures (c.callDraft ctx callee arg span) s.OfDraft := by
  cases hcallee with
  | typed hf =>
      refine (callValue_standard hc hctx hf harg).bind fun term hterm => ?_
      exact Judge.ensures_pure (ofDraft_ofTerm hterm)
  | lambda hlambda hlocals =>
      refine (callLambda_standard hc hctx hlambda hlocals harg).bind fun term hterm => ?_
      exact Judge.ensures_pure (ofDraft_ofTerm hterm)
  | reference htarget htypeArgs => exact callRef_standard hc hctx htarget htypeArgs harg
  | _ => exact Judge.ensures_throw _

/-!
## Blocks
-/

theorem checkBinding_standard {binding : Source.Binding} (hbinding : s.OfExpr binding.value) :
    Judge.Ensures (c.checkBinding ctx binding)
      fun bound => s.OfPattern bound.pattern ∧ s.OfTerm bound.value := by
  have hannotation : Judge.Ensures (c.annotation? ctx binding) s.OfExpected := by
    unfold annotation?
    split
    · refine (hctx.written c.depth _).bind fun t ht => ?_
      exact Judge.ensures_pure (ofExpected_some ht)
    · exact Judge.ensures_pure ofExpected_none
  refine hannotation.bind fun annotation hexpected => ?_
  split
  · split
    · exact Judge.ensures_throw _
    · rename_i declared
      have hdeclared := hexpected declared rfl
      refine (hctx.destructure hdeclared).bind fun pattern hpattern => ?_
      refine (check_standard hc (hctx.withLocals hpattern) hexpected hbinding).bind
        fun value hvalue => ?_
      dsimp only
      split
      · exact Judge.ensures_throw_bind _ _
      · exact Judge.ensures_pure ⟨hpattern, hvalue⟩
  · refine (check_standard hc hctx hexpected hbinding).bind fun value hvalue => ?_
    refine (hctx.destructure hvalue.type).bind fun pattern hpattern => ?_
    exact Judge.ensures_pure ⟨hpattern, hvalue⟩

omit hctx in
theorem checkBindings_standard {bindings : List Source.Binding}
    (hbindings : forall binding, binding ∈ bindings -> s.OfExpr binding.value) {ctx : Context}
    (hctx : s.OfContext ctx) :
    Judge.Ensures (c.checkBindings ctx bindings) fun result =>
      (forall bound, bound ∈ result.1 -> s.OfPattern bound.pattern ∧ s.OfTerm bound.value) ∧
        s.OfContext result.2 := by
  induction bindings generalizing ctx with
  | nil =>
      exact Judge.ensures_pure ⟨List.forall_mem_nil _, hctx⟩
  | cons binding rest ih =>
      rw [List.forall_mem_cons] at hbindings
      refine (checkBinding_standard hc hctx hbindings.left).bind fun bound hbound => ?_
      refine (ih hbindings.right (hctx.withLocals hbound.left)).bind fun result hresult => ?_
      exact Judge.ensures_pure
        ⟨List.forall_mem_cons.mpr ⟨hbound, hresult.left⟩, hresult.right⟩

theorem draftBlock_standard {bindings : List Source.Binding} {result : Source.Expr}
    (hbindings : forall binding, binding ∈ bindings -> s.OfExpr binding.value)
    (hresult : s.OfExpr result) :
    Judge.Ensures (c.draftBlock ctx bindings result span) s.OfDraft := by
  refine (checkBindings_standard hc hbindings hctx).bind fun checked hchecked => ?_
  refine (hc.draft _ result hchecked.right hresult).bind fun draft hdraft => ?_
  split
  · rename_i term hterm
    exact Judge.ensures_pure (ofDraft_ofTerm (ofTerm_block
      (fun binding hbinding => (hchecked.left binding hbinding).right) (hdraft.term hterm)))
  · exact Judge.ensures_pure (.block hchecked.left hdraft)

/-!
## Switches and conditionals
-/

end

structure OfUnion (s : Standard) (registry : Registry) (union : UnionView) : Prop where
  args : s.OfTypes union.args
  applied : s.former (.named union.name union.args.length) = true
  declared : exists d, Table.get? registry union.name = some d ∧ d.cases? = some union.cases

section

variable (hctx : s.OfContext ctx)

include hctx

theorem OfContext.unionBehind {depth : Nat} {cross : Bool} {t : Ty} {union : UnionView}
    (ht : s.OfType t) (h : ctx.unionBehind depth cross t = some (some union)) :
    s.OfUnion ctx.registry union := by
  rcases hctx.types.registry.unionBehind ht h with ⟨hunion, hdeclared⟩
  rcases ofType_iff.mp hunion with ⟨hformer, hargs⟩
  exact ⟨hargs, hformer, hdeclared⟩

theorem OfUnion.caseOf {union : UnionView} (hunion : s.OfUnion ctx.registry union)
    {ref : Source.InlineRef} {case : CaseView} (h : ctx.caseOf union ref = .ok case) :
    s.OfType case.type := by
  rcases Context.caseOf_ok h with ⟨declared, hmem, htype⟩
  rcases hunion.declared with ⟨d, hd, hcases⟩
  rw [htype]
  refine ofType_iff.mpr
    ⟨hctx.suits.selected _ d _ declared union.args hd hcases hmem hunion.applied, ?_⟩
  intro t ht
  rcases List.mem_filterMap.mp ht with ⟨position, _, harg⟩
  exact hunion.args t (List.mem_of_getElem? harg)

theorem ofTypes_row {refs : List Source.InlineRef} {unions : List UnionView}
    (hunions : forall union, union ∈ unions -> s.OfUnion ctx.registry union)
    {entries : List (Option CaseView)} (h : ctx.rowOf refs unions = .ok entries) :
    s.OfTypes (entries.map fun entry => (entry.map CaseView.type).getD .unit) := by
  refine List.forall_mem_map.mpr fun entry hentry => ?_
  rcases Context.rowOf_ok h entry hentry with rfl | ⟨union, ref, case, hunion, hcase, rfl⟩
  · exact hctx.suits.bareType rfl ofTypes_nil
  · exact (hunions union hunion).caseOf hctx hcase

variable (hc : s.OfChecker c)

include hc

theorem switchArg_standard {cross : Bool} {arg : Source.Expr} (harg : s.OfExpr arg) :
    Judge.Ensures (c.switchArg ctx cross arg)
      fun result => s.OfTerm result.1 ∧ s.OfUnion ctx.registry result.2 := by
  refine (hc.draft ctx arg hctx harg).bind fun draft hdraft => ?_
  refine (settleAlone_standard hc hctx hdraft).bind fun term hterm => ?_
  refine (Judge.ensures_bounded fun _ h => h).bind fun found hfound => ?_
  cases found with
  | none => exact Judge.ensures_throw _
  | some union => exact Judge.ensures_pure ⟨hterm, hctx.unionBehind hterm.type hfound⟩

theorem draftCases_standard {union : UnionView} (hunion : s.OfUnion ctx.registry union)
    {branch : Source.Branch} (hbranch : s.OfExpr branch.value) {refs : List Source.InlineRef}
    {taken : List Nat} :
    Judge.Ensures (c.draftCases ctx union branch taken refs) fun result =>
      forall drafted, drafted ∈ result.1 -> s.OfDraft drafted.value := by
  induction refs generalizing taken with
  | nil => exact Judge.ensures_pure (List.forall_mem_nil _)
  | cons ref rest ih =>
      refine (Judge.ensures_except fun case hcase => hunion.caseOf hctx hcase).bind
        fun case hcase => ?_
      dsimp only
      split
      · exact Judge.ensures_throw_bind _ _
      · have htype : s.OfType
            (if union.reactive then .named reactive [case.type] else case.type) := by
          split
          · exact hctx.suits.wrapped (by simp) hcase
          · exact hcase
        refine (hctx.destructure? htype).bind fun pattern hpattern => ?_
        refine (hc.draft _ branch.value (hctx.withPattern? hpattern) hbranch).bind
          fun value hvalue => ?_
        refine ih.bind fun result hresult => ?_
        exact Judge.ensures_pure (List.forall_mem_cons.mpr ⟨hvalue, hresult⟩)

theorem draftBranches_standard {union : UnionView} (hunion : s.OfUnion ctx.registry union)
    {branches : List Source.Branch}
    (hbranches : forall branch, branch ∈ branches -> s.OfExpr branch.value) {taken : List Nat}
    {default : Option Span} :
    Judge.Ensures (c.draftBranches ctx union taken default branches) fun result =>
      forall drafted, drafted ∈ result.branches -> s.OfDraft drafted.value := by
  induction branches generalizing taken default with
  | nil => exact Judge.ensures_pure (List.forall_mem_nil _)
  | cons branch rest ih =>
      rw [List.forall_mem_cons] at hbranches
      rw [draftBranches]
      split
      · dsimp only
        split
        · exact Judge.ensures_throw_bind _ _
        · refine (hc.draft ctx branch.value hctx hbranches.left).bind fun value hvalue => ?_
          refine (ih hbranches.right).bind fun result hresult => ?_
          exact Judge.ensures_pure (List.forall_mem_cons.mpr ⟨hvalue, hresult⟩)
      · refine (draftCases_standard hctx hc hunion hbranches.left).bind fun own hown => ?_
        refine (ih hbranches.right).bind fun result hresult => ?_
        exact Judge.ensures_pure (List.forall_mem_append.mpr ⟨hown, hresult⟩)

theorem draftSwitch_standard {arg : Source.Expr} (harg : s.OfExpr arg)
    {branches : List Source.Branch}
    (hbranches : forall branch, branch ∈ branches -> s.OfExpr branch.value) :
    Judge.Ensures (c.draftSwitch ctx arg branches span) s.OfDraft := by
  refine (switchArg_standard hctx hc harg).bind fun result hresult => ?_
  refine (draftBranches_standard hctx hc hresult.right hbranches).bind fun drafted hdrafted => ?_
  refine (Judge.ensures_any _).bind fun _ _ => ?_
  exact Judge.ensures_pure (.switch hresult.left hdrafted)

theorem switchArgs_standard {args : List Source.Expr}
    (hargs : forall arg, arg ∈ args -> s.OfExpr arg) :
    Judge.Ensures (c.switchArgs ctx args) fun results =>
      forall result, result ∈ results ->
        s.OfTerm result.1 ∧ s.OfUnion ctx.registry result.2 := by
  induction args with
  | nil => exact Judge.ensures_pure (List.forall_mem_nil _)
  | cons arg rest ih =>
      rw [List.forall_mem_cons] at hargs
      refine (switchArg_standard hctx hc hargs.left).bind fun first hfirst => ?_
      refine (ih hargs.right).bind fun others hothers => ?_
      exact Judge.ensures_pure (List.forall_mem_cons.mpr ⟨hfirst, hothers⟩)

theorem draftRow_standard {unions : List UnionView}
    (hunions : forall union, union ∈ unions -> s.OfUnion ctx.registry union)
    {covered : List Coverage.Combination} {branch : Source.MultiBranch}
    (hbranch : s.OfExpr branch.value) {refs : List Source.InlineRef} :
    Judge.Ensures (c.draftRow ctx unions covered branch refs)
      fun result => s.OfDraft result.1.value := by
  unfold draftRow
  dsimp only
  split
  · exact Judge.ensures_throw_bind _ _
  · refine (Judge.ensures_except fun entries hentries => ofTypes_row hctx hunions hentries).bind
      fun entries hentries => ?_
    split
    · exact Judge.ensures_throw_bind _ _
    · refine (Judge.ensures_any _).bind fun _ _ => ?_
      have htuple : s.OfType (.tuple (entries.map fun entry =>
          (entry.map CaseView.type).getD .unit)) := hctx.suits.bareType rfl hentries
      refine (hctx.destructure? htuple).bind fun pattern hpattern => ?_
      refine (hc.draft _ branch.value (hctx.withPattern? hpattern) hbranch).bind
        fun value hvalue => ?_
      exact Judge.ensures_pure hvalue

theorem draftRows_standard {unions : List UnionView}
    (hunions : forall union, union ∈ unions -> s.OfUnion ctx.registry union)
    {branches : List Source.MultiBranch}
    (hbranches : forall branch, branch ∈ branches -> s.OfExpr branch.value)
    {covered : List Coverage.Combination} {default : Option Span} :
    Judge.Ensures (c.draftRows ctx unions covered default branches) fun result =>
      forall drafted, drafted ∈ result.branches -> s.OfDraft drafted.value := by
  induction branches generalizing covered default with
  | nil => exact Judge.ensures_pure (List.forall_mem_nil _)
  | cons branch rest ih =>
      rw [List.forall_mem_cons] at hbranches
      rw [draftRows]
      split
      · dsimp only
        split
        · exact Judge.ensures_throw_bind _ _
        · refine (hc.draft ctx branch.value hctx hbranches.left).bind fun value hvalue => ?_
          refine (ih hbranches.right).bind fun result hresult => ?_
          exact Judge.ensures_pure (List.forall_mem_cons.mpr ⟨hvalue, hresult⟩)
      · refine (draftRow_standard hctx hc hunions hbranches.left).bind fun own hown => ?_
        refine (ih hbranches.right).bind fun result hresult => ?_
        exact Judge.ensures_pure (List.forall_mem_cons.mpr ⟨hown, hresult⟩)

theorem draftMultiSwitch_standard {args : List Source.Expr}
    (hargs : forall arg, arg ∈ args -> s.OfExpr arg) {branches : List Source.MultiBranch}
    (hbranches : forall branch, branch ∈ branches -> s.OfExpr branch.value) :
    Judge.Ensures (c.draftMultiSwitch ctx args branches span) s.OfDraft := by
  refine (switchArgs_standard hctx hc hargs).bind fun results hresults => ?_
  have hunions : forall union, union ∈ results.map Prod.snd -> s.OfUnion ctx.registry union :=
    List.forall_mem_map.mpr fun result hresult => (hresults result hresult).right
  refine (draftRows_standard hctx hc hunions hbranches).bind fun drafted hdrafted => ?_
  refine (Judge.ensures_any _).bind fun _ _ => ?_
  refine Judge.ensures_pure (.multiSwitch ?_ hdrafted)
  exact List.forall_mem_map.mpr fun result hresult => (hresults result hresult).left

theorem settleCondition_standard {condition : Draft} (hcondition : s.OfDraft condition) :
    Judge.Ensures (c.settleCondition ctx condition) fun result => s.OfTerm result.1 := by
  have hbool : s.OfType Core.bool := hctx.suits.literalType (by simp)
  refine (settleTo_standard hc hctx hbool hcondition).attempt.bind fun result hresult => ?_
  cases result with
  | ok term => exact Judge.ensures_pure (hresult term rfl)
  | error error =>
      dsimp only
      split
      · exact Judge.ensures_throw_bind _ _
      · refine (settleTo_standard hc hctx (hctx.suits.wrapped (by simp) hbool)
          hcondition).mapError.bind fun term hterm => ?_
        exact Judge.ensures_pure hterm

omit hctx hc in
theorem ofExpr_elsePart {no : Source.Expr} (hno : s.OfExpr no) {elseIfs : List Source.ElseIf}
    (helseIfs : forall item, item ∈ elseIfs -> s.OfExpr item.condition ∧ s.OfExpr item.yes) :
    s.OfExpr (elsePart no elseIfs) := by
  induction elseIfs with
  | nil => exact hno
  | cons item rest ih =>
      rw [List.forall_mem_cons] at helseIfs
      refine ofExpr_iff.mpr ⟨?_, ?_⟩
      · intro n hn
        cases hn
      · refine List.forall_mem_cons.mpr ⟨helseIfs.left.left, ?_⟩
        refine List.forall_mem_cons.mpr ⟨helseIfs.left.right, ?_⟩
        exact List.forall_mem_singleton.mpr (ih helseIfs.right)

theorem draftConditional_standard {condition yes no : Source.Expr}
    (hcondition : s.OfExpr condition) (hyes : s.OfExpr yes) (hno : s.OfExpr no)
    {elseIfs : List Source.ElseIf}
    (helseIfs : forall item, item ∈ elseIfs -> s.OfExpr item.condition ∧ s.OfExpr item.yes) :
    Judge.Ensures (c.draftConditional ctx condition yes elseIfs no span) s.OfDraft := by
  refine (hc.draft ctx condition hctx hcondition).bind fun draft hdraft => ?_
  refine (settleCondition_standard hctx hc hdraft).bind fun result hresult => ?_
  refine (hc.draft ctx yes hctx hyes).bind fun yes hyes => ?_
  refine (hc.draft ctx _ hctx (ofExpr_elsePart hno helseIfs)).bind fun no hno => ?_
  refine Judge.ensures_pure (.switch hresult ?_)
  exact List.forall_mem_cons.mpr ⟨hyes, List.forall_mem_singleton.mpr hno⟩

/-!
## All expressions
-/

theorem draftStep_standard {expr : Source.Expr} (hexpr : s.OfExpr expr) :
    Judge.Ensures (c.draftStep ctx expr) s.OfDraft := by
  rcases expr with ⟨node, span⟩
  rcases ofExpr_iff.mp hexpr with ⟨hsize, hparts⟩
  cases node with
  | ref ref => exact draftRef_standard hctx
  | call callee arg =>
      refine (hc.draft ctx callee hctx (hparts _ (by simp [Source.ExprNode.parts]))).bind
        fun callee hcallee => ?_
      refine (hc.draft ctx arg hctx (hparts _ (by simp [Source.ExprNode.parts]))).bind
        fun arg harg => ?_
      exact callDraft_standard hc hctx hcallee harg
  | operator op left right =>
      refine (hc.draft ctx op hctx (hparts _ (by simp [Source.ExprNode.parts]))).bind
        fun callee hcallee => ?_
      refine (hc.draft ctx left hctx (hparts _ (by simp [Source.ExprNode.parts]))).bind
        fun left hleft => ?_
      refine (hc.draft ctx right hctx (hparts _ (by simp [Source.ExprNode.parts]))).bind
        fun right hright => ?_
      refine callDraft_standard hc hctx hcallee (.tuple (hsize 2 rfl) ?_)
      exact List.forall_mem_cons.mpr ⟨hleft, List.forall_mem_singleton.mpr hright⟩
  | cast value target =>
      refine (hctx.written c.depth target).bind fun type htype => ?_
      refine (hc.draft ctx value hctx (hparts _ List.mem_cons_self)).bind fun draft hdraft => ?_
      refine (settleTo_standard hc hctx htype hdraft).bind fun term hterm => ?_
      exact Judge.ensures_pure (ofDraft_ofTerm (hterm.retype hterm.type))
  | get base field => exact draftGet_standard hc hctx (hparts _ List.mem_cons_self)
  | lambda f =>
      exact Judge.ensures_pure (.lambda (hparts _ List.mem_cons_self) hctx.locals)
  | tuple items => exact draftTuple_standard hc hctx hexpr
  | bundle fields =>
      refine (draftFields_standard hc hctx (ofExpr_field hparts fun _ h => h)).bind
        fun drafted hdrafted => ?_
      exact Judge.ensures_pure (.bundle hdrafted)
  | update base fields =>
      exact draftUpdate_standard hc hctx (hparts _ List.mem_cons_self)
        (ofExpr_field hparts fun _ h => List.mem_cons_of_mem _ h)
  | array items =>
      refine (draftAll_standard hc hctx hparts).bind fun drafts hdrafts => ?_
      exact Judge.ensures_pure (.array hdrafts.right)
  | block bindings result =>
      refine draftBlock_standard hc hctx ?_ (hparts _ List.mem_cons_self)
      exact List.forall_mem_map.mp (List.forall_mem_cons.mp hparts).right
  | switch arg branches =>
      refine draftSwitch_standard hctx hc (hparts _ List.mem_cons_self) ?_
      exact List.forall_mem_map.mp (List.forall_mem_cons.mp hparts).right
  | multiSwitch args branches =>
      rcases List.forall_mem_append.mp hparts with ⟨hargs, hbranches⟩
      exact draftMultiSwitch_standard hctx hc hargs (List.forall_mem_map.mp hbranches)
  | conditional condition yes elseIfs no =>
      refine draftConditional_standard hctx hc (hparts _ (by simp [Source.ExprNode.parts]))
        (hparts _ (by simp [Source.ExprNode.parts])) (hparts _ (by simp [Source.ExprNode.parts])) ?_
      intro item hitem
      have hmem : forall part, part ∈ [item.condition, item.yes] ->
          part ∈ Source.ExprNode.parts (.conditional condition yes elseIfs no) := by
        intro part hpart
        simp only [Source.ExprNode.parts, List.mem_cons, List.mem_flatMap]
        exact Or.inr (Or.inr (Or.inr ⟨item, hitem, by simpa using hpart⟩))
      exact ⟨hparts _ (hmem _ (by simp)), hparts _ (hmem _ (by simp))⟩
  | int literal =>
      apply Judge.ensures_except
      intro draft hdraft
      unfold draftInteger at hdraft
      split at hdraft
      · cases hdraft
        exact .integer
      · cases hdraft
  | float bits =>
      exact Judge.ensures_pure (ofDraft_ofTerm
        (ofTerm_leaf rfl rfl (hctx.suits.literalType (by simp))))
  | text value =>
      exact Judge.ensures_pure (ofDraft_ofTerm
        (ofTerm_leaf rfl rfl (hctx.suits.literalType (by simp))))
  | char value =>
      exact Judge.ensures_pure (ofDraft_ofTerm
        (ofTerm_leaf rfl rfl (hctx.suits.literalType (by simp))))

end

/-- The checker keeps to every standard, at every depth. -/
theorem ofChecker_checkerAt (s : Standard) (depth : Nat) : s.OfChecker (checkerAt depth) := by
  induction depth with
  | zero =>
      exact ⟨fun _ _ _ _ => Judge.ensures_exhausted, fun _ _ _ _ _ _ _ => ensures_exhausted⟩
  | succ depth ih =>
      constructor
      · exact fun ctx expr hctx hexpr => draftStep_standard hctx ih hexpr
      · exact fun n ctx expected draft hctx hexpected hdraft =>
          settleStep_standard ih hctx hexpected hdraft

end Standard
end TypeChecker
