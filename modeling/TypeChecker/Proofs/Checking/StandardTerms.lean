import TypeChecker.Proofs.Checking.Lifted
import TypeChecker.Proofs.Checking.Settled
import TypeChecker.Proofs.Checking.Standards

/-!
# Settled terms keep to standards

Each rule that settles a draft gives a term that meets a standard, if the draft, the
expected type and the context do, and if the checker for the parts keeps to it.
-/

namespace TypeChecker
namespace Standard

open Inferring Checker

variable {s : Standard} {ctx : Context} {c : Checker} {expected : Option Ty} {span : Span}
  {n : Nat}

def OfExpected (s : Standard) (expected : Option Ty) : Prop :=
  forall t, expected = some t -> s.OfType t

theorem ofExpected_none : s.OfExpected none := by
  intro t ht
  cases ht

theorem ofExpected_some {t : Ty} (ht : s.OfType t) : s.OfExpected (some t) := by
  intro other hother
  cases hother
  exact ht

/-!
## Assigned types
-/

theorem OfInference.substitute {i : Inference} (hi : s.OfInference n i) {t : Ty}
    (ht : s.OfType t) : s.OfType (i.substitute t) :=
  hi.left.substitute ht

theorem ofInference_disabled : s.OfInference 0 .disabled :=
  ⟨Inference.binds_disabled, rfl⟩

theorem ofInference_start (params : List Param) (bounds : Bounds) :
    s.OfInference params.length (.start params bounds) :=
  ⟨Inference.binds_start params bounds, List.length_map _⟩

theorem OfContext.assign (h : s.OfContext ctx) {depth : Nat} {d : Direction} {t given : Ty}
    (ht : s.OfType t) (hgiven : s.OfType given) :
    (assign ctx.toTypeContext depth d t given).Ensures (s.OfInference n) s.OfType := by
  have hclosed :=
    (Assign.assign_closed (Former.Relaxes.refl _) h.types depth).left d t given ht hgiven
  have harity := preserves_assign (Inference.stable_arity n) ctx.toTypeContext depth d t given
  intro i r j hi hrun
  rcases hclosed i r j hi.left hrun with ⟨hbinds, hresult⟩
  exact ⟨⟨hbinds, (harity i r j hi.right hrun).left⟩, hresult⟩

theorem OfContext.fit (h : s.OfContext ctx) {depth : Nat} (hexpected : s.OfExpected expected)
    {term : Term} (hterm : s.OfTerm term) :
    (ctx.fit depth expected term).Ensures (s.OfInference n) s.OfTerm := by
  cases expected with
  | none => exact ensures_pure hterm
  | some t =>
      apply Ensures.bind (h.assign (hexpected t rfl) hterm.type).attempt
      intro result hresult
      cases result with
      | ok type => exact ensures_pure (hterm.retype (hresult type rfl))
      | error e => exact Preserves.bind ensures_state.preserves fun _ => ensures_throw _

theorem requireType_standard (hexpected : s.OfExpected expected) {P : Inference -> Prop} :
    (liftM (requireType expected span) : Inferring ExprError Ty).Ensures P s.OfType :=
  requireType_ensures.mono fun t ht => hexpected t ht

theorem requireCertain_standard {t : Ty} (ht : s.OfType t) :
    (requireCertain t span).Ensures (s.OfInference n) s.OfType := by
  apply Ensures.bind ensures_state
  intro i hi
  split
  · rename_i certain hcertain
    exact ensures_pure (hi.left.certain ht hcertain)
  · exact ensures_throw _

theorem Suits.toInferring {registry : Registry} (hs : s.Suits registry) {t : Ty}
    (ht : s.OfType t) : s.OfType t.toInferring := by
  have hparams : t.everywhere (Former.onParams (fun _ _ => true) s.former) = true := by
    refine Ty.everywhere_mono ?_ ht
    intro f hf
    cases f with
    | param index inferring => rfl
    | _ => exact hf
  exact Ty.everywhere_replace hparams fun index _ _ => hs.bare (.param index true) rfl

theorem ofType_instantiate {t : Ty} {args : List Ty} (ht : s.OfType t) (hargs : s.OfTypes args) :
    s.OfType (t.instantiate args) :=
  Ty.everywhere_instantiate ht hargs

/-!
## Parts
-/

section

variable (hc : s.OfChecker c) (hctx : s.OfContext ctx)

include hc hctx

theorem settleTo_standard {t : Ty} {draft : Draft} (ht : s.OfType t) (hdraft : s.OfDraft draft) :
    Judge.Ensures (c.settleTo ctx t draft) s.OfTerm :=
  (hc.settle 0 ctx _ draft hctx (ofExpected_some ht) hdraft).withoutInference ofInference_disabled

theorem settleAlone_standard {draft : Draft} (hdraft : s.OfDraft draft) :
    Judge.Ensures (c.settleAlone ctx draft) s.OfTerm :=
  (hc.settle 0 ctx _ draft hctx ofExpected_none hdraft).withoutInference ofInference_disabled

theorem check_standard {expr : Source.Expr} (hexpected : s.OfExpected expected)
    (hexpr : s.OfExpr expr) : Judge.Ensures (c.check ctx expected expr) s.OfTerm :=
  (hc.draft ctx expr hctx hexpr).bind fun draft hdraft =>
    (hc.settle 0 ctx _ draft hctx hexpected hdraft).withoutInference ofInference_disabled

theorem settleEach_standard {items : List (Option Ty × Draft)}
    (hitems : forall item, item ∈ items -> s.OfExpected item.1 ∧ s.OfDraft item.2) :
    (c.settleEach ctx items).Ensures (s.OfInference n) fun terms =>
      terms.length = items.length ∧ forall term, term ∈ terms -> s.OfTerm term := by
  induction items with
  | nil => exact ensures_pure ⟨rfl, List.forall_mem_nil _⟩
  | cons item rest ih =>
      rw [List.forall_mem_cons] at hitems
      apply Ensures.bind (hc.settle n ctx item.1 item.2 hctx hitems.left.left hitems.left.right)
      intro term hterm
      apply Ensures.bind (ih hitems.right)
      intro terms hterms
      exact ensures_pure ⟨congrArg Nat.succ hterms.left,
        List.forall_mem_cons.mpr ⟨hterm, hterms.right⟩⟩

theorem settleAllAlone_standard {drafts : List Draft}
    (hdrafts : forall draft, draft ∈ drafts -> s.OfDraft draft) :
    Judge.Ensures (c.settleAllAlone ctx drafts) fun terms =>
      terms.length = drafts.length ∧ forall term, term ∈ terms -> s.OfTerm term := by
  induction drafts with
  | nil => exact Judge.ensures_pure ⟨rfl, List.forall_mem_nil _⟩
  | cons draft rest ih =>
      rw [List.forall_mem_cons] at hdrafts
      refine (settleAlone_standard hc hctx hdrafts.left).bind fun term hterm => ?_
      refine (ih hdrafts.right).bind fun terms hterms => ?_
      exact Judge.ensures_pure ⟨congrArg Nat.succ hterms.left,
        List.forall_mem_cons.mpr ⟨hterm, hterms.right⟩⟩

end

/-!
## Tuples, bundles and arrays
-/

theorem Suits.tupleTerm {registry : Registry} (hs : s.Suits registry) {terms : List Term}
    (hsize : s.size terms.length) (hterms : forall term, term ∈ terms -> s.OfTerm term) :
    s.OfTerm (tupleTerm terms span) := by
  refine ofTerm_iff.mpr ⟨⟨hs.bareType rfl ?_, ?_⟩, hterms⟩
  · exact List.forall_mem_map.mpr fun term hterm => (hterms term hterm).type
  · intro size hn
    cases hn
    exact hsize

section

variable (hc : s.OfChecker c) (hctx : s.OfContext ctx) (hexpected : s.OfExpected expected)

include hc hctx

include hexpected in
theorem settleTuple_standard {items : List Draft} (hsize : s.size items.length)
    (hitems : forall item, item ∈ items -> s.OfDraft item) :
    (c.settleTuple ctx expected items span).Ensures (s.OfInference n) s.OfTerm := by
  unfold settleTuple
  split
  · rename_i required
    dsimp only
    split
    · exact Preserves.bind ensures_state.preserves fun _ => ensures_throw_bind _ _
    · rename_i hlength
      have hlength : required.length = items.length := Decidable.not_not.mp hlength
      have hrequired := (ofType_iff.mp (hexpected _ rfl)).right
      have hpairs : forall item, item ∈ (required.map some).zip items ->
          s.OfExpected item.1 ∧ s.OfDraft item.2 := by
        intro item hitem
        rcases List.mem_map.mp (List.of_mem_zip hitem).left with ⟨t, ht, heq⟩
        rw [<- heq]
        exact ⟨ofExpected_some (hrequired t ht), hitems _ (List.of_mem_zip hitem).right⟩
      apply Ensures.bind (settleEach_standard hc hctx hpairs)
      intro terms hterms
      refine ensures_pure (hctx.suits.tupleTerm ?_ hterms.right)
      rw [hterms.left, List.length_zip, List.length_map, hlength, Nat.min_self]
      exact hsize
  · split
    · exact Preserves.bind ensures_state.preserves fun _ => ensures_throw _
    · apply Ensures.bind (ensures_judge (settleAllAlone_standard hc hctx hitems))
      intro terms hterms
      exact hctx.fit hexpected (hctx.suits.tupleTerm (hterms.left ▸ hsize) hterms.right)

theorem settleFields_standard {declared : List (String × Field Ty)}
    {given : List (Source.Ident × Draft)}
    (hdeclared : forall item, item ∈ declared -> s.OfType item.2.type)
    (hgiven : forall field, field ∈ given -> s.OfDraft field.2) :
    (c.settleFields ctx span declared given).Ensures (s.OfInference n) fun result =>
      result.1.map Prod.fst = declared.map Prod.fst ∧
        forall item, item ∈ result.1 -> s.OfTerm item.2 := by
  induction declared generalizing given with
  | nil => exact ensures_pure ⟨rfl, List.forall_mem_nil _⟩
  | cons first rest ih =>
      rcases first with ⟨name, field⟩
      rw [List.forall_mem_cons] at hdeclared
      rw [settleFields]
      split
      · exact Preserves.bind ensures_state.preserves fun _ => ensures_throw _
      · rename_i draft others htake
        rcases Option.map_eq_some_iff.mp htake with ⟨found, hfound, heq⟩
        cases heq
        have hdraft := hgiven found (List.mem_of_find?_eq_some hfound)
        apply Ensures.bind
          (hc.settle n ctx _ found.2 hctx (ofExpected_some hdeclared.left) hdraft)
        intro term hterm
        apply Ensures.bind (ih hdeclared.right fun field hfield =>
          hgiven field (List.mem_filter.mp hfield).left)
        intro result hresult
        exact ensures_pure ⟨by rw [List.map_cons, List.map_cons, hresult.left],
          List.forall_mem_cons.mpr ⟨hterm, hresult.right⟩⟩

include hexpected in
theorem settleBundle_standard {fields : List (Source.Ident × Draft)}
    (hfields : forall field, field ∈ fields -> s.OfDraft field.2) :
    (c.settleBundle ctx expected fields span).Ensures (s.OfInference n) s.OfTerm := by
  apply Ensures.bind (requireType_standard hexpected)
  intro t ht
  split
  · rename_i declared
    rcases ofType_iff.mp ht with ⟨hformer, htypes⟩
    have hslots : forall item, item ∈ Ty.inSlotOrder declared -> s.OfType item.2.type := by
      intro item hitem
      exact List.forall_mem_map.mp htypes item
        ((Ty.inSlotOrder_perm declared).mem_iff.mp hitem)
    apply Ensures.bind (settleFields_standard hc hctx hslots hfields)
    intro result hresult
    dsimp only
    split
    · exact Preserves.bind ensures_state.preserves fun _ => ensures_throw _
    · have hnames : (result.1.map fun item => (item.1, item.2.type)).map Prod.fst =
          (Ty.inSlotOrder declared).map Prod.fst := by
        rw [List.map_map]
        exact hresult.left
      refine ensures_pure (ofTerm_iff.mpr ⟨⟨?_, ?_⟩, List.forall_mem_map.mpr hresult.right⟩)
      · apply TypeScope.everywhere_bundleOf (hctx.suits.renumbered declared _ hformer hnames)
        exact List.forall_mem_map.mpr fun item hitem => (hresult.right item hitem).type
      · intro size hsize
        cases hsize
        have hlength : (result.1.map Prod.snd).length = declared.length := by
          have hsame := congrArg List.length hresult.left
          rw [List.length_map, List.length_map] at hsame
          rw [List.length_map, hsame, (Ty.inSlotOrder_perm declared).length_eq]
        have hproduct := hctx.suits.product _ hformer
        rw [List.length_map] at hproduct
        exact hlength ▸ hproduct
  · split
    · exact ensures_pure (ofTerm_unit hctx.suits span)
    · exact Preserves.bind ensures_state.preserves fun _ => ensures_throw _

theorem settleArrayAlone_standard {items : List Draft}
    (hitems : forall item, item ∈ items -> s.OfDraft item) :
    Judge.Ensures (c.settleArrayAlone ctx items span) s.OfTerm := by
  cases items with
  | nil => exact Judge.ensures_throw _
  | cons first rest =>
      rw [List.forall_mem_cons] at hitems
      refine (settleAlone_standard hc hctx hitems.left).bind fun head hhead => ?_
      have hrest : forall item, item ∈ rest.map (fun item => (some head.type, item)) ->
          s.OfExpected item.1 ∧ s.OfDraft item.2 :=
        List.forall_mem_map.mpr fun item hitem =>
          ⟨ofExpected_some hhead.type, hitems.right item hitem⟩
      refine ((settleEach_standard hc hctx hrest).withoutInference ofInference_disabled).bind
        fun others hothers => ?_
      exact Judge.ensures_pure (ofTerm_of_parts rfl
        (hctx.suits.wrapped (by simp) hhead.type)
        (List.forall_mem_cons.mpr ⟨hhead, hothers.right⟩))

include hexpected in
theorem settleArray_standard {items : List Draft}
    (hitems : forall item, item ∈ items -> s.OfDraft item) :
    (c.settleArray ctx expected items span).Ensures (s.OfInference n) s.OfTerm := by
  unfold settleArray
  split
  · exact ensures_judge (settleArrayAlone_standard hc hctx hitems)
  · rename_i t
    split
    · rename_i element helement
      have helement : s.OfType element := by
        have ht := hexpected t rfl
        rw [arrayElement_eq helement] at ht
        exact (ofType_iff.mp ht).right element List.mem_cons_self
      have hpairs : forall item, item ∈ items.map (fun item => (some element, item)) ->
          s.OfExpected item.1 ∧ s.OfDraft item.2 :=
        List.forall_mem_map.mpr fun item hitem => ⟨ofExpected_some helement, hitems item hitem⟩
      apply Ensures.bind (settleEach_standard hc hctx hpairs)
      intro terms hterms
      apply Ensures.bind (requireCertain_standard helement)
      intro certain hcertain
      exact ensures_pure (ofTerm_of_parts rfl (hctx.suits.wrapped (by simp) hcertain)
        hterms.right)
    · split
      · apply Ensures.bind (ensures_judge (settleArrayAlone_standard hc hctx hitems))
        intro array harray
        exact hctx.fit hexpected harray
      · exact Preserves.bind ensures_state.preserves fun _ => ensures_throw _

/-!
## Numbers, switches, lambdas and blocks
-/

omit hc hctx in
theorem leaf_of_literalAt {kind : String} {value : Int} {node : Node}
    (h : Number.literalAt? kind value = some (some node)) :
    node.productSize? = none ∧ node.parts = [] := by
  unfold Number.literalAt? at h
  split at h
  · cases h
    exact ⟨rfl, rfl⟩
  · split at h
    · split at h
      · cases h
        exact ⟨rfl, rfl⟩
      · cases h
    · rcases Option.map_eq_some_iff.mp h with ⟨width, _, h⟩
      split at h
      · cases h
        exact ⟨rfl, rfl⟩
      · cases h

omit hc hctx in
include hexpected in
theorem settleInteger_standard {value : Int} :
    (settleInteger ctx expected value span).Ensures (s.OfInference n) s.OfTerm := by
  apply Ensures.bind (requireType_standard hexpected)
  intro t ht
  apply Ensures.bind (requireCertain_standard ht)
  intro certain hcertain
  split
  · rename_i node hnode
    rcases Option.bind_eq_some_iff.mp hnode with ⟨kind, _, hnode⟩
    rcases Option.map_eq_some_iff.mp hnode with ⟨found, hfound, heq⟩
    cases heq
    rcases leaf_of_literalAt hfound with ⟨hsize, hleaf⟩
    exact ensures_pure (ofTerm_leaf hsize hleaf hcertain)
  · exact ensures_throw _
  · exact Preserves.bind ensures_state.preserves fun _ => ensures_throw _

theorem settleBranches_standard {t : Ty} (ht : s.OfType t) {branches : List (CaseBranch Draft)}
    (hbranches : forall branch, branch ∈ branches -> s.OfDraft branch.value) :
    (c.settleBranches ctx t branches).Ensures (s.OfInference n) fun settled =>
      forall branch, branch ∈ settled -> s.OfTerm branch.value := by
  induction branches with
  | nil => exact ensures_pure (List.forall_mem_nil _)
  | cons branch rest ih =>
      rw [List.forall_mem_cons] at hbranches
      apply Ensures.bind (hc.settle n ctx _ _ hctx (ofExpected_some ht) hbranches.left)
      intro value hvalue
      apply Ensures.bind (ih hbranches.right)
      intro more hmore
      exact ensures_pure (List.forall_mem_cons.mpr ⟨hvalue, hmore⟩)

include hexpected in
theorem settleSwitch_standard {arg : Term} (harg : s.OfTerm arg)
    {branches : List (CaseBranch Draft)} {reactive : Bool}
    (hbranches : forall branch, branch ∈ branches -> s.OfDraft branch.value) :
    (c.settleSwitch ctx expected arg branches reactive span).Ensures (s.OfInference n)
      s.OfTerm := by
  apply Ensures.bind (requireType_standard hexpected)
  intro t ht
  apply Ensures.bind (settleBranches_standard hc hctx ht hbranches)
  intro settled hsettled
  apply Ensures.bind (requireCertain_standard ht)
  intro certain hcertain
  refine ensures_pure (ofTerm_of_parts rfl hcertain ?_)
  exact List.forall_mem_cons.mpr ⟨harg, List.forall_mem_map.mpr hsettled⟩

theorem settleRows_standard {t : Ty} (ht : s.OfType t) {branches : List (CasesBranch Draft)}
    (hbranches : forall branch, branch ∈ branches -> s.OfDraft branch.value) :
    (c.settleRows ctx t branches).Ensures (s.OfInference n) fun settled =>
      forall branch, branch ∈ settled -> s.OfTerm branch.value := by
  induction branches with
  | nil => exact ensures_pure (List.forall_mem_nil _)
  | cons branch rest ih =>
      rw [List.forall_mem_cons] at hbranches
      apply Ensures.bind (hc.settle n ctx _ _ hctx (ofExpected_some ht) hbranches.left)
      intro value hvalue
      apply Ensures.bind (ih hbranches.right)
      intro more hmore
      exact ensures_pure (List.forall_mem_cons.mpr ⟨hvalue, hmore⟩)

include hexpected in
theorem settleMultiSwitch_standard {args : List Term}
    (hargs : forall arg, arg ∈ args -> s.OfTerm arg) {branches : List (CasesBranch Draft)}
    (hbranches : forall branch, branch ∈ branches -> s.OfDraft branch.value) :
    (c.settleMultiSwitch ctx expected args branches span).Ensures (s.OfInference n) s.OfTerm := by
  apply Ensures.bind (requireType_standard hexpected)
  intro t ht
  apply Ensures.bind (settleRows_standard hc hctx ht hbranches)
  intro settled hsettled
  apply Ensures.bind (requireCertain_standard ht)
  intro certain hcertain
  refine ensures_pure (ofTerm_of_parts rfl hcertain ?_)
  exact List.forall_mem_append.mpr ⟨hargs, List.forall_mem_map.mpr hsettled⟩

include hexpected in
theorem settleLambda_standard {lambda : Source.Lambda} {locals : Locals}
    (hlambda : s.OfExpr lambda.output) (hlocals : s.OfLocals locals) :
    (c.settleLambda ctx expected lambda locals span).Ensures (s.OfInference n) s.OfTerm := by
  apply Ensures.bind (requireType_standard hexpected)
  intro t ht
  split
  · rename_i input output
    have hparts := (ofType_iff.mp ht).right
    have houtput := hparts output (by simp [Ty.parts])
    apply Ensures.bind (requireCertain_standard (hparts input (by simp [Ty.parts])))
    intro certain hcertain
    apply Ensures.bind (ensures_judge (hctx.destructure hcertain))
    intro pattern hpattern
    have hinner : s.OfContext (bodyContext ctx locals pattern) := hctx.inBody hlocals hpattern
    apply Ensures.bind (ensures_judge (hc.draft _ lambda.output hinner hlambda))
    intro draft hdraft
    apply Ensures.bind (hc.settle n _ _ draft hinner (ofExpected_some houtput) hdraft)
    intro body hbody
    apply Ensures.bind ensures_state
    intro i hi
    split
    · exact ensures_throw _
    · rename_i result hresult
      refine Preserves.bind (ensures_bounded fun _ _ => trivial) fun fits => ?_
      dsimp only
      split
      · exact ensures_throw_bind _ _
      · refine ensures_pure (ofTerm_of_parts rfl ?_ ?_)
        · exact hctx.suits.func hcertain (hi.left.certain houtput hresult)
        · exact List.forall_mem_singleton.mpr hbody
  · exact Preserves.bind ensures_state.preserves fun _ => ensures_throw _

omit hc hctx in
theorem ofTerm_block {bindings : List (BoundValue Term)} {result : Term}
    (hbindings : forall binding, binding ∈ bindings -> s.OfTerm binding.value)
    (hresult : s.OfTerm result) : s.OfTerm (blockTerm bindings result span) :=
  ofTerm_of_parts rfl hresult.type
    (List.forall_mem_cons.mpr ⟨hresult, List.forall_mem_map.mpr hbindings⟩)

include hexpected in
theorem settleBlock_standard {bindings : List (BoundValue Term)} {result : Draft}
    (hbindings : forall binding, binding ∈ bindings ->
      s.OfPattern binding.pattern ∧ s.OfTerm binding.value)
    (hresult : s.OfDraft result) :
    (c.settleBlock ctx expected bindings result span).Ensures (s.OfInference n) s.OfTerm := by
  have hinner := hctx.inBlock fun binding hbinding => (hbindings binding hbinding).left
  apply Ensures.bind (hc.settle n _ expected result hinner hexpected hresult)
  intro term hterm
  exact ensures_pure (ofTerm_block (fun binding hbinding => (hbindings binding hbinding).right)
    hterm)

end

/-!
## Functions
-/

theorem functionRef_leaf {f : Signature} {typeArgs : List Ty} :
    Judge.Ensures (c.functionRef ctx f typeArgs span)
      fun node => node.productSize? = none ∧ node.parts = [] :=
  (Judge.ensures_any _).bind fun _ _ => Judge.ensures_pure ⟨rfl, rfl⟩

theorem Suits.callTerm {registry : Registry} (hs : s.Suits registry) {input output : Ty}
    (hinput : s.OfType input) (houtput : s.OfType output) {callee : Node} {calleeSpan : Span}
    (hcallee : callee.productSize? = none ∧ callee.parts = []) {arg : Term} (harg : s.OfTerm arg) :
    s.OfTerm (callTerm input output callee calleeSpan arg span) := by
  refine ofTerm_of_parts rfl houtput (List.forall_mem_cons.mpr ⟨?_, ?_⟩)
  · exact ofTerm_leaf hcallee.left hcallee.right (hs.func hinput houtput)
  · exact List.forall_mem_singleton.mpr harg

theorem Suits.calledWith {registry : Registry} (hs : s.Suits registry) {i : Inference}
    (hi : i.Binds s.former) {output : List Variance} {k : Nat} {args : List Ty}
    (h : calledWith? i output k = some args) : s.OfTypes args := by
  induction k generalizing args with
  | zero =>
      cases h
      exact ofTypes_nil
  | succ k ih =>
      rw [calledWith?] at h
      rcases Option.bind_eq_some_iff.mp h with ⟨earlier, hearlier, h⟩
      dsimp only at h
      split at h
      · rename_i slot hslot
        cases h
        exact List.forall_mem_append.mpr
          ⟨ih hearlier, List.forall_mem_singleton.mpr (hi k slot hslot)⟩
      · rcases Option.bind_eq_some_iff.mp h with ⟨arg, harg, h⟩
        cases h
        refine List.forall_mem_append.mpr ⟨ih hearlier, List.forall_mem_singleton.mpr ?_⟩
        unfold smallestChoice? at harg
        split at harg
        · cases harg
          exact hs.bareType rfl ofTypes_nil
        · cases harg
          exact hs.bareType rfl ofTypes_nil
        · cases harg

section

variable (hctx : s.OfContext ctx) {f : Signature} (hf : s.OfSignature f)
  {typeArgs : List Ty} (htypeArgs : s.OfTypes typeArgs)

include hctx hf

theorem callInferring_standard (hc : s.OfChecker c) {arg : Draft} (harg : s.OfDraft arg)
    {calleeSpan : Span} : Judge.Ensures (c.callInferring ctx f arg calleeSpan span) s.OfTerm := by
  have hinput := hctx.suits.toInferring hf.left
  refine ((hc.settle _ ctx _ arg hctx (ofExpected_some hinput) harg).runWith
    (ofInference_start f.params f.bounds)).bind fun result hresult => ?_
  dsimp only
  split
  · exact Judge.ensures_throw _
  · rename_i typeArgs htypeArgs
    have htypeArgs := hctx.suits.calledWith hresult.right.left htypeArgs
    refine (Judge.ensures_bounded fun _ _ => trivial).bind fun fits _ => ?_
    split
    · exact Judge.ensures_throw_bind _ _
    · refine functionRef_leaf.bind fun callee hcallee => ?_
      exact Judge.ensures_pure (hctx.suits.callTerm (ofType_instantiate hf.left htypeArgs)
        (ofType_instantiate hf.right htypeArgs) hcallee hresult.left)

include htypeArgs

theorem call_standard (hc : s.OfChecker c) {arg : Draft} (harg : s.OfDraft arg)
    {calleeSpan : Span} :
    (c.call ctx f typeArgs arg calleeSpan span).Ensures (s.OfInference n) s.OfTerm := by
  have hinput := ofType_instantiate hf.left htypeArgs
  unfold call
  split
  · apply Ensures.bind (hc.settle n ctx _ arg hctx (ofExpected_some hinput) harg)
    intro term hterm
    apply Ensures.bind (ensures_judge functionRef_leaf)
    intro callee hcallee
    exact ensures_pure (hctx.suits.callTerm hinput (ofType_instantiate hf.right htypeArgs) hcallee
      hterm)
  · split
    · exact ensures_judge (callInferring_standard hctx hf hc harg)
    · exact ensures_throw _

omit htypeArgs in
theorem referInferring_standard {t : Ty} (ht : s.OfType t) :
    Judge.Ensures (c.referInferring ctx t f span) s.OfTerm := by
  have hfunction := hctx.suits.func hf.left hf.right
  unfold referInferring
  refine (Judge.ensures_bounded fun _ h => h).bind fun outcome houtcome => ?_
  rcases outcome with ⟨result, i⟩
  have hassign : (assign ctx.toTypeContext c.depth .fromTarget f.type.toInferring t).Ensures
      (s.OfInference f.params.length) s.OfType :=
    hctx.assign (hctx.suits.toInferring hfunction) ht
  have hi := (hassign _ _ _ (ofInference_start f.params f.bounds) houtcome).left
  cases result with
  | error e => exact Judge.ensures_throw_bind _ _
  | ok type =>
      dsimp only
      split
      · exact Judge.ensures_throw _
      · rename_i typeArgs htypeArgs
        have htypeArgs := hi.left.bindings htypeArgs
        refine (Judge.ensures_bounded fun _ _ => trivial).bind fun fits _ => ?_
        split
        · exact Judge.ensures_throw_bind _ _
        · refine functionRef_leaf.bind fun node hnode => ?_
          exact Judge.ensures_pure (ofTerm_leaf hnode.left hnode.right
            (ofType_instantiate hfunction htypeArgs))

variable (hexpected : s.OfExpected expected)

include hexpected

theorem referPlainly_standard :
    (c.referPlainly ctx expected f typeArgs span).Ensures (s.OfInference n) s.OfTerm := by
  unfold referPlainly
  split
  · apply Ensures.bind (ensures_judge functionRef_leaf)
    intro node hnode
    have hfunction := hctx.suits.func hf.left hf.right
    exact hctx.fit hexpected (ofTerm_leaf hnode.left hnode.right
      (ofType_instantiate hfunction htypeArgs))
  · split
    · apply Ensures.bind (requireType_standard hexpected)
      intro t ht
      apply Ensures.bind (requireCertain_standard ht)
      intro certain hcertain
      exact ensures_judge (referInferring_standard hctx hf hcertain)
    · exact ensures_throw _

theorem refer_standard (hc : s.OfChecker c) :
    (c.refer ctx expected f typeArgs span).Ensures (s.OfInference n) s.OfTerm := by
  have hunit : s.OfDraft (.ofTerm (.unit span)) := .typed (ofTerm_unit hctx.suits span)
  have hcalled : (c.callOnUnit ctx expected f typeArgs span).Ensures (s.OfInference n)
      s.OfTerm := by
    apply Ensures.bind (call_standard hctx hf htypeArgs hc hunit)
    intro called hcalled
    exact hctx.fit hexpected hcalled
  unfold refer
  dsimp only
  split
  · apply Ensures.bind hcalled.restoring.attempt
    intro result hresult
    cases result with
    | ok term => exact ensures_pure (hresult term rfl)
    | error e => exact referPlainly_standard hctx hf htypeArgs hexpected
  · exact referPlainly_standard hctx hf htypeArgs hexpected

end

section

variable (hctx : s.OfContext ctx) (hexpected : s.OfExpected expected)

theorem choose_standard {candidate : Candidate} (hinference : s.OfInference n candidate.inference)
    (hterm : s.OfTerm candidate.term) :
    candidate.choose.Ensures (s.OfInference n) s.OfTerm :=
  Preserves.bind
    (ensures_modify fun i hi =>
      ⟨hi.left.adopt hinference.left, (i.arity_adopt candidate.inference).trans hi.right⟩)
    fun _ => ensures_pure hterm

include hctx hexpected

theorem settleUndecided_standard {options : List CallOption}
    (hoptions : forall option, option ∈ options -> s.OfTerm option.term) :
    (c.settleUndecided ctx expected options span).Ensures (s.OfInference n) s.OfTerm := by
  refine Ensures.bind (tried_ensures fun option hoption =>
    hctx.fit hexpected (hoptions option hoption)) fun tried htried => ?_
  split
  · exact ensures_throw _
  · rename_i only hone
    rcases htried only (hone ▸ List.mem_cons_self) with ⟨hinference, hterm⟩
    exact choose_standard hinference hterm
  · refine Ensures.bind (ensures_bounded fun _ h => h) fun narrowest hnarrowest => ?_
    cases narrowest with
    | none => exact ensures_throw _
    | some candidate =>
        rcases htried candidate (narrowestFrom_mem hnarrowest) with ⟨hinference, hterm⟩
        exact choose_standard hinference hterm

theorem referOverloaded_standard (hc : s.OfChecker c) {functions : List Signature}
    (hfunctions : s.OfSignatures functions) {typeArgs : List Ty} (htypeArgs : s.OfTypes typeArgs) :
    (c.referOverloaded ctx expected functions typeArgs span).Ensures (s.OfInference n)
      s.OfTerm := by
  unfold referOverloaded
  split
  · exact refer_standard hctx (hfunctions _ List.mem_cons_self) htypeArgs hexpected hc
  · refine Ensures.bind (tried_ensures fun f hf =>
      refer_standard hctx (hfunctions f hf) htypeArgs hexpected hc) fun tried htried => ?_
    split
    · exact Preserves.bind ensures_state.preserves fun _ => ensures_throw _
    · rename_i only hone
      rcases htried only (hone ▸ List.mem_cons_self) with ⟨hinference, hterm⟩
      exact choose_standard hinference hterm
    · exact ensures_throw _

end

/-!
## Boxes and unions
-/

theorem Suits.unionArgs {registry : Registry} (hs : s.Suits registry) (m : Membership)
    {args : List Ty} (hargs : s.OfTypes args) : s.OfTypes (m.unionArgs args) := by
  intro t ht
  rcases Membership.mem_unionArgs ht with harg | ⟨variance, rfl⟩
  · exact hargs t harg
  · unfold Membership.filler
    split
    · exact hs.bareType rfl ofTypes_nil
    · exact hs.bareType rfl ofTypes_nil
    · exact hs.bareType rfl ofTypes_nil

theorem Suits.lift {registry : Registry} (hs : s.Suits registry) {term : Term}
    (hterm : s.OfTerm term) : s.OfTerm (Registry.lift registry term) := by
  unfold Registry.lift
  split
  · rename_i name args htype
    split
    · rename_i m hm
      rcases Option.bind_eq_some_iff.mp hm with ⟨d, hd, hm⟩
      have hargs : s.OfTypes args := by
        have hnamed := hterm.type
        rw [htype] at hnamed
        exact (ofType_iff.mp hnamed).right
      refine ofTerm_of_parts rfl (ofType_iff.mpr ⟨?_, hs.unionArgs m hargs⟩)
        (List.forall_mem_singleton.mpr hterm)
      rw [Ty.former, Membership.length_unionArgs]
      exact hs.lifted name d m hd hm
    · exact hterm
  · exact hterm

theorem OfContext.completeArgs (h : s.OfContext ctx) {name : Symbol} {d : Declaration}
    (hd : Table.get? ctx.registry name = some d) {args : List Ty} (hargs : s.OfTypes args) :
    s.OfTypes (Ty.completeArgs d.defaults d.arity args) :=
  h.types.registry.completeArgs (h.suits.bare .any rfl) hd hargs

section

variable (hc : s.OfChecker c) (hctx : s.OfContext ctx) {value : Draft} (hvalue : s.OfDraft value)
  {name : Symbol} {d : Declaration} {args : List Ty} {exact : Bool}

include hctx in
theorem boxedTerm_standard (hd : Table.get? ctx.registry name = some d)
    (hargs : s.OfTypes args) (hlength : args.length = d.arity) {term : Term}
    (hterm : s.OfTerm term) : s.OfTerm (boxedTerm ctx exact (.named name args) term span) := by
  have hnamed : s.OfType (.named name args) := by
    refine ofType_iff.mpr ⟨?_, hargs⟩
    rw [Ty.former, hlength]
    exact hctx.suits.boxed name d hd
  unfold boxedTerm
  dsimp only
  split
  · exact hterm.retype hnamed
  · exact hctx.suits.lift (hterm.retype hnamed)

include hc hctx hvalue

theorem inject_standard (hargs : s.OfTypes args) :
    (c.inject ctx value name args exact span).Ensures (s.OfInference n) s.OfTerm := by
  unfold inject
  split
  · exact ensures_throw _
  · rename_i d hd
    split
    · apply ensures_except
      intro term hterm
      rcases injectIntoUnion_ok hterm with ⟨found, hfound, rfl⟩
      exact hctx.suits.lift (hvalue.term hfound)
    · exact ensures_throw _
    · rename_i boxed hdefinition
      have hboxed := Declaration.boxed?_eq_some.mpr hdefinition
      have hinner := hctx.types.registry name d hd _ (Declaration.mem_types_of_boxed hboxed)
      refine Preserves.bind (ensures_except fun _ _ => trivial) fun _ => ?_
      split
      · rename_i harity
        rw [Bool.and_eq_true, Nat.ble_eq, Nat.ble_eq] at harity
        have hexpected : s.OfType (boxed.inner.instantiateWith d.defaults args) :=
          Ty.everywhere_instantiateWith hinner
            (fun index t ht => hctx.types.registry name d hd t
              (Declaration.mem_types_of_default ht)) hargs
        apply Ensures.bind (hc.settle n ctx _ value hctx (ofExpected_some hexpected) hvalue)
        intro term hterm
        apply Ensures.bind ensures_state
        intro i hi
        refine Preserves.bind (preserves_judge _) fun _ => ensures_pure ?_
        have hfinal : s.OfTypes (args.map i.substitute) :=
          List.forall_mem_map.mpr fun t ht => hi.substitute (hargs t ht)
        refine boxedTerm_standard hctx hd (hctx.completeArgs hd hfinal) ?_ hterm
        exact Ty.length_completeArgs (by rw [List.length_map]; exact harity.right)
      · split
        · apply ensures_judge
          refine ((hc.settle d.arity ctx _ value hctx
            (ofExpected_some (hctx.suits.toInferring hinner)) hvalue).runWith
            (ofInference_start d.params d.bounds)).bind fun result hresult => ?_
          dsimp only
          split
          · exact Judge.ensures_throw _
          · rename_i inferred hinferred
            refine (Judge.ensures_bounded fun _ _ => trivial).bind fun fits _ => ?_
            split
            · exact Judge.ensures_throw_bind _ _
            · refine (Judge.ensures_any _).bind fun _ _ => Judge.ensures_pure ?_
              exact boxedTerm_standard hctx hd (hresult.right.left.bindings hinferred)
                ((Inference.length_bindings hinferred).trans hresult.right.right) hresult.left
        · exact ensures_throw _

end

/-!
## All drafts
-/

section

variable (hc : s.OfChecker c) (hctx : s.OfContext ctx) (hexpected : s.OfExpected expected)

include hexpected in
theorem resort_standard {i : Inference} (hi : s.OfInference n i) {draft : Draft} {name : Symbol}
    {args : List Ty}
    (h : (expected.bind fun t => resort? ctx i t draft) = some (.box name args)) :
    s.OfTypes args := by
  rcases Option.bind_eq_some_iff.mp h with ⟨t, ht, h⟩
  rcases Option.bind_eq_some_iff.mp h with ⟨⟨name', args'⟩, htarget, h⟩
  have hargs : s.OfTypes args' := by
    have ht := hexpected t ht
    unfold resortTarget? at htarget
    split at htarget
    · cases htarget
      exact (ofType_iff.mp ht).right
    · rcases Option.bind_eq_some_iff.mp htarget with ⟨certain, hcertain, hnamed⟩
      have hcertain := hi.left.certain ht hcertain
      cases certain with
      | named other others =>
          cases hnamed
          exact (ofType_iff.mp hcertain).right
      | _ => cases hnamed
  rcases Option.bind_eq_some_iff.mp h with ⟨d, _, h⟩
  split at h
  · split at h
    · cases h
    · cases h
      exact hargs
  · rcases Option.bind_eq_some_iff.mp h with ⟨term, _, h⟩
    split at h
    · cases h
    · cases h
  · cases h

include hctx hexpected

theorem settleLifted_standard {draft : Draft} (hdraft : s.OfDraft draft) {union : Symbol}
    {error : ExprError} :
    (c.settleLifted ctx expected draft union error).Ensures (s.OfInference n) s.OfTerm := by
  unfold settleLifted
  split
  · exact ensures_throw _
  · rename_i term hterm
    dsimp only
    split
    · exact hctx.fit hexpected (hctx.suits.lift (hdraft.term hterm))
    · exact ensures_throw _

include hc

theorem settleRef_standard {target : RefTarget} {typeArgs : List Ty} (htarget : s.OfTarget target)
    (htypeArgs : s.OfTypes typeArgs) :
    (c.settleRef ctx expected target typeArgs span).Ensures (s.OfInference n) s.OfTerm := by
  cases target with
  | type use =>
      have hunit : s.OfDraft (.ofTerm (.unit span)) := .typed (ofTerm_unit hctx.suits span)
      apply Ensures.bind (inject_standard hc hctx hunit htypeArgs).mapError
      intro boxed hboxed
      exact hctx.fit hexpected hboxed
  | functions f => exact referOverloaded_standard hctx hexpected hc htarget htypeArgs
  | functionsOrLocal f value =>
      apply Ensures.bind (hctx.fit hexpected htarget.right).restoring.attempt
      intro result hresult
      cases result with
      | ok term => exact ensures_pure (hresult term rfl)
      | error e =>
          exact (referOverloaded_standard hctx hexpected hc htarget.left
            ofTypes_nil).restoring.mapError

theorem settleDirectly_standard {draft : Draft} (hdraft : s.OfDraft draft) :
    (c.settleDirectly ctx expected draft).Ensures (s.OfInference n) s.OfTerm := by
  cases hdraft with
  | typed hterm => exact hctx.fit hexpected hterm
  | lambda hlambda hlocals => exact settleLambda_standard hc hctx hexpected hlambda hlocals
  | integer => exact settleInteger_standard hexpected
  | reference htarget htypeArgs =>
      exact settleRef_standard hc hctx hexpected htarget htypeArgs
  | undecided hoptions => exact settleUndecided_standard hctx hexpected hoptions
  | tuple hsize hitems => exact settleTuple_standard hc hctx hexpected hsize hitems
  | bundle hfields => exact settleBundle_standard hc hctx hexpected hfields
  | array hitems => exact settleArray_standard hc hctx hexpected hitems
  | block hbindings hresult => exact settleBlock_standard hc hctx hexpected hbindings hresult
  | switch harg hbranches => exact settleSwitch_standard hc hctx hexpected harg hbranches
  | multiSwitch hargs hbranches =>
      exact settleMultiSwitch_standard hc hctx hexpected hargs hbranches

/-- Settling keeps to a standard, whether a draft fits as it stands, is boxed or is lifted. -/
theorem settleStep_standard {draft : Draft} (hdraft : s.OfDraft draft) :
    (c.settleStep ctx expected draft).Ensures (s.OfInference n) s.OfTerm := by
  apply Ensures.bind ensures_state
  intro i hi
  apply Ensures.bind (settleDirectly_standard hc hctx hexpected hdraft).restoring.attempt
  intro result hresult
  cases result with
  | ok term => exact ensures_pure (hresult term rfl)
  | error error =>
      dsimp only
      split
      · exact ensures_throw_bind _ _
      · split
        · exact ensures_throw _
        · rename_i name args hresort
          exact inject_standard hc hctx hdraft (resort_standard hexpected hi hresort)
        · exact settleLifted_standard hctx hexpected hdraft

end

end Standard
end TypeChecker
