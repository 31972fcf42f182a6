import TypeChecker.Proofs.Checking.Lifted
import TypeChecker.Proofs.Checking.Marks

/-!
# Marks in settled terms

Each rule that settles a draft lets no parameter being inferred get into a binding, nor
into the type of the term other than where it stays open. It does so if the checker for
the parts does.
-/

namespace TypeChecker

/-!
## Assigned types
-/

namespace Checker

open Inferring

variable {ctx : Context} {c : Checker} {expected : Option Ty} {span : Span} {base : Inference}

theorem assign_unmarked {types : TypeContext} (h : types.Brings Former.isUnmarked) {depth : Nat}
    {d : Direction} {t given : Ty} (hgiven : given.Unmarked) :
    (assign types depth d t given).Ensures base.Keeps Ty.Unmarked := by
  have hany : t.everywhere (fun _ => true) = true :=
    Ty.everywhere_iff_formers.mpr fun _ _ => rfl
  have hclosed := (Assign.assign_closed Former.relaxes_unmarked h depth).left d t given hany hgiven
  intro i r j hi hrun
  rcases hclosed i r j hi.binds hrun with ⟨hbinds, hresult⟩
  exact ⟨⟨hbinds, hi.advances.trans (assign_advances hrun)⟩, hresult⟩

theorem fit_unmarked (hctx : ctx.Unmarked) {depth : Nat} {term : Term} (hterm : term.Unmarked) :
    (ctx.fit depth expected term).Ensures base.Keeps Term.Unmarked := by
  cases expected with
  | none => exact ensures_pure hterm
  | some t =>
      apply Ensures.bind (assign_unmarked hctx.types hterm).attempt
      intro result hresult
      cases result with
      | ok type => exact ensures_pure (hresult type rfl)
      | error e => exact Preserves.bind ensures_state.preserves fun _ => ensures_throw _

theorem requireCertain_unmarked {t : Ty} :
    (requireCertain t span).Ensures base.Keeps Ty.Unmarked := by
  apply Ensures.bind ensures_state
  intro i hi
  split
  · rename_i certain hcertain
    exact ensures_pure (hi.binds.certain_unmarked hcertain)
  · exact ensures_throw _

theorem unmarked_instantiate {t : Ty} {args : List Ty} (ht : t.Unmarked)
    (hargs : forall s : Ty, s ∈ args -> s.Unmarked) : (t.instantiate args).Unmarked :=
  Ty.everywhere_instantiate ht hargs

/-!
## Parts
-/

section

variable (hc : c.Confines) (hctx : ctx.Unmarked)

include hc hctx

theorem settle_unmarked {draft : Draft} (hexpected : forall t, expected = some t -> t.Unmarked)
    (hdraft : draft.Unmarked) :
    Judge.Ensures (c.settle ctx expected draft).withoutInference Term.Unmarked := by
  refine Ensures.withoutInference (P := Inference.disabled.Keeps) ?_
    Inference.binds_disabled.keeps
  exact (hc.settle _ ctx expected draft hctx hdraft).mono fun term hterm =>
    hterm.unmarked hexpected

theorem settleTo_unmarked {t : Ty} {draft : Draft} (ht : t.Unmarked) (hdraft : draft.Unmarked) :
    Judge.Ensures (c.settleTo ctx t draft) Term.Unmarked := by
  refine settle_unmarked hc hctx ?_ hdraft
  intro s hs
  cases hs
  exact ht

theorem settleAlone_unmarked {draft : Draft} (hdraft : draft.Unmarked) :
    Judge.Ensures (c.settleAlone ctx draft) Term.Unmarked := by
  refine settle_unmarked hc hctx ?_ hdraft
  intro s hs
  cases hs

theorem settleEach_confined {items : List (Option Ty × Draft)}
    (hitems : forall item, item ∈ items -> Draft.Unmarked item.2) :
    (c.settleEach ctx items).Ensures base.Keeps fun terms =>
      forall term, term ∈ terms -> exists item, item ∈ items ∧
        Confined ctx.registry base item.1 term.type := by
  induction items with
  | nil => exact ensures_pure (List.forall_mem_nil _)
  | cons item rest ih =>
      rw [List.forall_mem_cons] at hitems
      apply Ensures.bind (hc.settle base ctx item.1 item.2 hctx hitems.left)
      intro term hterm
      apply Ensures.bind (ih hitems.right)
      intro terms hterms
      refine ensures_pure (List.forall_mem_cons.mpr ⟨⟨item, List.mem_cons_self, hterm⟩, ?_⟩)
      intro other hother
      rcases hterms other hother with ⟨found, hfound, hconfined⟩
      exact ⟨found, List.mem_cons_of_mem _ hfound, hconfined⟩

theorem settleAllAlone_unmarked {drafts : List Draft}
    (hdrafts : forall draft, draft ∈ drafts -> Draft.Unmarked draft) :
    Judge.Ensures (c.settleAllAlone ctx drafts) fun terms =>
      forall term, term ∈ terms -> term.Unmarked := by
  induction drafts with
  | nil => exact Judge.ensures_pure (List.forall_mem_nil _)
  | cons draft rest ih =>
      rw [List.forall_mem_cons] at hdrafts
      refine (settleAlone_unmarked hc hctx hdrafts.left).bind fun term hterm => ?_
      refine (ih hdrafts.right).bind fun terms hterms => ?_
      exact Judge.ensures_pure (List.forall_mem_cons.mpr ⟨hterm, hterms⟩)

/-!
## Tuples, bundles and arrays
-/

theorem settleTuple_confined {items : List Draft}
    (hitems : forall item, item ∈ items -> Draft.Unmarked item) :
    (c.settleTuple ctx expected items span).Ensures base.Keeps fun term =>
      ConfinedToItems ctx.registry base expected term.type := by
  unfold settleTuple
  split
  · rename_i required
    dsimp only
    split
    · exact Preserves.bind ensures_state.preserves fun _ => ensures_throw_bind _ _
    · have hpairs : forall item, item ∈ (required.map some).zip items ->
          Draft.Unmarked item.2 :=
        fun item hitem => hitems _ (List.of_mem_zip hitem).right
      apply Ensures.bind (settleEach_confined hc hctx hpairs)
      intro terms hterms
      apply ensures_pure
      intro k hmarks
      rcases Ty.exists_part_marks rfl hmarks with ⟨s, hs, hmarks⟩
      rcases List.mem_map.mp hs with ⟨term, hterm, rfl⟩
      rcases hterms term hterm with ⟨item, hitem, hconfined⟩
      rcases List.mem_map.mp (List.of_mem_zip hitem).left with ⟨t, ht, heq⟩
      rw [<- heq] at hconfined
      exact ⟨_, t, rfl, ht, hconfined k hmarks⟩
  · split
    · exact Preserves.bind ensures_state.preserves fun _ => ensures_throw _
    · apply Ensures.bind (ensures_judge (settleAllAlone_unmarked hc hctx hitems))
      intro terms hterms
      refine (fit_unmarked hctx (Ty.unmarked_of_parts rfl ?_)).mono fun term hterm =>
        confinedToItems_of_unmarked hterm
      exact List.forall_mem_map.mpr hterms

theorem settleFields_confined {declared : List (String × Field Ty)}
    {given : List (Source.Ident × Draft)}
    (hgiven : forall field, field ∈ given -> Draft.Unmarked field.2) :
    (c.settleFields ctx span declared given).Ensures base.Keeps fun result =>
      forall item, item ∈ result.1 -> exists field, field ∈ declared ∧
        Confined ctx.registry base (some field.2.type) item.2.type := by
  induction declared generalizing given with
  | nil => exact ensures_pure (List.forall_mem_nil _)
  | cons first rest ih =>
      rcases first with ⟨name, field⟩
      rw [settleFields]
      split
      · exact Preserves.bind ensures_state.preserves fun _ => ensures_throw _
      · rename_i draft others htake
        rcases Option.map_eq_some_iff.mp htake with ⟨found, hfound, heq⟩
        cases heq
        have hdraft := hgiven found (List.mem_of_find?_eq_some hfound)
        apply Ensures.bind (hc.settle base ctx _ found.2 hctx hdraft)
        intro term hterm
        apply Ensures.bind (ih fun field hfield => hgiven field (List.mem_filter.mp hfield).left)
        intro result hresult
        refine ensures_pure (List.forall_mem_cons.mpr ⟨⟨_, List.mem_cons_self, hterm⟩, ?_⟩)
        intro item hitem
        rcases hresult item hitem with ⟨other, hother, hconfined⟩
        exact ⟨other, List.mem_cons_of_mem _ hother, hconfined⟩

omit hc hctx in
theorem exists_marks_of_bundleOf {fields : List (String × Ty)} {k : Nat}
    (h : (Ty.bundleOf fields).marks k = true) :
    exists item, item ∈ fields ∧ item.2.marks k = true := by
  by_contra hnone
  refine Bool.false_ne_true ((Ty.marks_eq_false.mpr ?_).symm.trans h)
  refine TypeScope.everywhere_bundleOf rfl ?_
  intro item hitem
  refine Ty.marks_eq_false.mp (Bool.eq_false_iff.mpr ?_)
  exact fun hmarks => hnone ⟨item, hitem, hmarks⟩

theorem settleBundle_confined {fields : List (Source.Ident × Draft)}
    (hfields : forall field, field ∈ fields -> Draft.Unmarked field.2) :
    (c.settleBundle ctx expected fields span).Ensures base.Keeps fun term =>
      ConfinedToItems ctx.registry base expected term.type := by
  apply Ensures.bind requireType_ensures
  intro t ht
  subst ht
  split
  · rename_i declared
    apply Ensures.bind (settleFields_confined hc hctx hfields)
    intro result hresult
    dsimp only
    split
    · exact Preserves.bind ensures_state.preserves fun _ => ensures_throw _
    · apply ensures_pure
      intro k hmarks
      rcases exists_marks_of_bundleOf hmarks with ⟨typed, htyped, hmarks⟩
      rcases List.mem_map.mp htyped with ⟨item, hitem, rfl⟩
      rcases hresult item hitem with ⟨field, hfield, hconfined⟩
      have hmem := (Ty.inSlotOrder_perm declared).mem_iff.mp hfield
      exact ⟨_, field.2.type, rfl, List.mem_map.mpr ⟨field, hmem, rfl⟩, hconfined k hmarks⟩
  · split
    · exact ensures_pure (confinedToItems_of_unmarked rfl)
    · exact Preserves.bind ensures_state.preserves fun _ => ensures_throw _

theorem settleArrayAlone_unmarked {items : List Draft}
    (hitems : forall item, item ∈ items -> Draft.Unmarked item) :
    Judge.Ensures (c.settleArrayAlone ctx items span) Term.Unmarked := by
  cases items with
  | nil => exact Judge.ensures_throw _
  | cons first rest =>
      rw [List.forall_mem_cons] at hitems
      refine (settleAlone_unmarked hc hctx hitems.left).bind fun head hhead => ?_
      refine (Judge.ensures_any _).bind fun others _ => Judge.ensures_pure ?_
      exact Ty.unmarked_applied hhead _

theorem settleArray_unmarked {items : List Draft}
    (hitems : forall item, item ∈ items -> Draft.Unmarked item) :
    (c.settleArray ctx expected items span).Ensures base.Keeps Term.Unmarked := by
  unfold settleArray
  split
  · exact ensures_judge (settleArrayAlone_unmarked hc hctx hitems)
  · rename_i t
    split
    · rename_i element helement
      have hpairs : forall item, item ∈ items.map (fun item => (some element, item)) ->
          Draft.Unmarked item.2 := List.forall_mem_map.mpr hitems
      apply Preserves.bind (settleEach_confined hc hctx hpairs).preserves
      intro terms
      apply Ensures.bind requireCertain_unmarked
      intro certain hcertain
      exact ensures_pure (Ty.unmarked_applied hcertain _)
    · split
      · apply Ensures.bind (ensures_judge (settleArrayAlone_unmarked hc hctx hitems))
        intro array harray
        exact fit_unmarked hctx harray
      · exact Preserves.bind ensures_state.preserves fun _ => ensures_throw _

/-!
## Numbers, switches, lambdas and blocks
-/

omit hc hctx in
theorem settleInteger_unmarked {value : Int} :
    (settleInteger ctx expected value span).Ensures base.Keeps Term.Unmarked := by
  apply Ensures.bind requireType_ensures
  intro t _
  apply Ensures.bind requireCertain_unmarked
  intro certain hcertain
  split
  · exact ensures_pure hcertain
  · exact ensures_throw _
  · exact Preserves.bind ensures_state.preserves fun _ => ensures_throw _

theorem settleBranches_keeps {t : Ty} {branches : List (CaseBranch Draft)}
    (hbranches : forall branch, branch ∈ branches -> Draft.Unmarked branch.value) :
    (c.settleBranches ctx t branches).Preserves base.Keeps := by
  induction branches with
  | nil => exact ensures_pure trivial
  | cons branch rest ih =>
      rw [List.forall_mem_cons] at hbranches
      apply Preserves.bind (hc.settle base ctx _ _ hctx hbranches.left).preserves
      intro value
      exact Preserves.bind (ih hbranches.right) fun _ => ensures_pure trivial

theorem settleSwitch_unmarked {arg : Term} {branches : List (CaseBranch Draft)} {reactive : Bool}
    (hbranches : forall branch, branch ∈ branches -> Draft.Unmarked branch.value) :
    (c.settleSwitch ctx expected arg branches reactive span).Ensures base.Keeps Term.Unmarked := by
  apply Ensures.bind requireType_ensures
  intro t _
  apply Preserves.bind (settleBranches_keeps hc hctx hbranches)
  intro settled
  exact requireCertain_unmarked.bind fun certain hcertain => ensures_pure hcertain

theorem settleRows_keeps {t : Ty} {branches : List (CasesBranch Draft)}
    (hbranches : forall branch, branch ∈ branches -> Draft.Unmarked branch.value) :
    (c.settleRows ctx t branches).Preserves base.Keeps := by
  induction branches with
  | nil => exact ensures_pure trivial
  | cons branch rest ih =>
      rw [List.forall_mem_cons] at hbranches
      apply Preserves.bind (hc.settle base ctx _ _ hctx hbranches.left).preserves
      intro value
      exact Preserves.bind (ih hbranches.right) fun _ => ensures_pure trivial

theorem settleMultiSwitch_unmarked {args : List Term} {branches : List (CasesBranch Draft)}
    (hbranches : forall branch, branch ∈ branches -> Draft.Unmarked branch.value) :
    (c.settleMultiSwitch ctx expected args branches span).Ensures base.Keeps Term.Unmarked := by
  apply Ensures.bind requireType_ensures
  intro t _
  apply Preserves.bind (settleRows_keeps hc hctx hbranches)
  intro settled
  exact requireCertain_unmarked.bind fun certain hcertain => ensures_pure hcertain

theorem settleLambda_unmarked {lambda : Source.Lambda} {locals : Locals}
    (hlocals : Locals.Hold Former.isUnmarked locals) :
    (c.settleLambda ctx expected lambda locals span).Ensures base.Keeps Term.Unmarked := by
  apply Ensures.bind requireType_ensures
  intro t _
  split
  · rename_i input output
    apply Ensures.bind requireCertain_unmarked
    intro certain hcertain
    apply Ensures.bind (ensures_judge (hctx.types.registry.destructure hcertain))
    intro pattern hpattern
    have hinner := hctx.inBody hlocals hpattern
    apply Ensures.bind (ensures_judge (hc.draft _ lambda.output hinner))
    intro draft hdraft
    apply Preserves.bind (hc.settle base _ _ draft hinner hdraft).preserves
    intro body
    apply Ensures.bind ensures_state
    intro i hi
    split
    · exact ensures_throw _
    · rename_i result hresult
      refine Preserves.bind (ensures_bounded fun _ _ => trivial) fun fits => ?_
      dsimp only
      split
      · exact ensures_throw_bind _ _
      · exact ensures_pure (Ty.unmarked_func hcertain (hi.binds.certain_unmarked hresult))
  · exact Preserves.bind ensures_state.preserves fun _ => ensures_throw _

theorem settleBlock_confined {bindings : List (BoundValue Term)} {result : Draft}
    (hbindings : forall binding, binding ∈ bindings ->
      Locals.Hold Former.isUnmarked binding.pattern.value.bindings)
    (hresult : Draft.Unmarked result) :
    (c.settleBlock ctx expected bindings result span).Ensures base.Keeps fun term =>
      Confined ctx.registry base expected term.type := by
  have hsame : (bindings.foldl (fun inner binding => inner.withPattern binding.pattern)
      ctx).registry = ctx.registry := congrArg TypeContext.registry (toTypeContext_foldl bindings)
  have hsettle := hc.settle base _ expected result (hctx.inBlock hbindings) hresult
  rw [hsame] at hsettle
  exact hsettle.bind fun term hterm => ensures_pure hterm

end

/-!
## Functions
-/

theorem unmarked_calledWith {i : Inference} (hi : i.Binds Former.isUnmarked)
    {output : List Variance} {n : Nat} {args : List Ty}
    (h : calledWith? i output n = some args) : forall t : Ty, t ∈ args -> t.Unmarked := by
  induction n generalizing args with
  | zero =>
      cases h
      exact List.forall_mem_nil _
  | succ n ih =>
      rw [calledWith?] at h
      rcases Option.bind_eq_some_iff.mp h with ⟨earlier, hearlier, h⟩
      dsimp only at h
      split at h
      · rename_i slot hslot
        cases h
        exact List.forall_mem_append.mpr
          ⟨ih hearlier, List.forall_mem_singleton.mpr (hi n slot hslot)⟩
      · rcases Option.bind_eq_some_iff.mp h with ⟨arg, harg, h⟩
        cases h
        refine List.forall_mem_append.mpr ⟨ih hearlier, List.forall_mem_singleton.mpr ?_⟩
        unfold smallestChoice? at harg
        split at harg
        · cases harg
          rfl
        · cases harg
          rfl
        · cases harg

section

variable (hctx : ctx.Unmarked) {f : Signature} (hf : f.input.Unmarked ∧ f.output.Unmarked)
  {typeArgs : List Ty} (htypeArgs : forall t : Ty, t ∈ typeArgs -> t.Unmarked)

include hctx hf

theorem callInferring_unmarked (hc : c.Confines) {arg : Draft} (harg : arg.Unmarked)
    {calleeSpan : Span} :
    Judge.Ensures (c.callInferring ctx f arg calleeSpan span) Term.Unmarked := by
  have hstart := (Inference.binds_start (p := Former.isUnmarked) f.params f.bounds).keeps
  refine ((hc.settle _ ctx _ arg hctx harg).runWith hstart).bind fun result hresult => ?_
  dsimp only
  split
  · exact Judge.ensures_throw _
  · rename_i typeArgs htypeArgs
    have htypeArgs := unmarked_calledWith hresult.right.binds htypeArgs
    refine (Judge.ensures_any _).bind fun fits _ => ?_
    split
    · exact Judge.ensures_throw_bind _ _
    · refine (Judge.ensures_any _).bind fun callee _ => Judge.ensures_pure ?_
      exact unmarked_instantiate hf.right htypeArgs

theorem referInferring_unmarked {t : Ty} (ht : t.Unmarked) :
    Judge.Ensures (c.referInferring ctx t f span) Term.Unmarked := by
  unfold referInferring
  refine (Judge.ensures_bounded fun _ h => h).bind fun outcome houtcome => ?_
  rcases outcome with ⟨result, i⟩
  have hstart := (Inference.binds_start (p := Former.isUnmarked) f.params f.bounds).keeps
  have hi := (assign_unmarked hctx.types ht _ _ _ hstart houtcome).left
  cases result with
  | error e => exact Judge.ensures_throw_bind _ _
  | ok type =>
      dsimp only
      split
      · exact Judge.ensures_throw _
      · rename_i typeArgs htypeArgs
        have htypeArgs := hi.binds.bindings htypeArgs
        refine (Judge.ensures_any _).bind fun fits _ => ?_
        split
        · exact Judge.ensures_throw_bind _ _
        · refine (Judge.ensures_any _).bind fun node _ => Judge.ensures_pure ?_
          exact unmarked_instantiate (Ty.unmarked_func hf.left hf.right) htypeArgs

include htypeArgs

theorem call_unmarked (hc : c.Confines) {arg : Draft} (harg : arg.Unmarked) {calleeSpan : Span} :
    (c.call ctx f typeArgs arg calleeSpan span).Ensures base.Keeps Term.Unmarked := by
  unfold call
  split
  · apply Preserves.bind (hc.settle base ctx _ arg hctx harg).preserves
    intro term
    apply Preserves.bind (preserves_judge _)
    intro callee
    exact ensures_pure (unmarked_instantiate hf.right htypeArgs)
  · split
    · exact ensures_judge (callInferring_unmarked hctx hf hc harg)
    · exact ensures_throw _

theorem referPlainly_unmarked :
    (c.referPlainly ctx expected f typeArgs span).Ensures base.Keeps Term.Unmarked := by
  unfold referPlainly
  split
  · apply Preserves.bind (preserves_judge _)
    intro node
    exact fit_unmarked hctx
      (unmarked_instantiate (Ty.unmarked_func hf.left hf.right) htypeArgs)
  · split
    · apply Ensures.bind requireType_ensures
      intro t _
      apply Ensures.bind requireCertain_unmarked
      intro certain hcertain
      exact ensures_judge (referInferring_unmarked hctx hf hcertain)
    · exact ensures_throw _

theorem refer_unmarked (hc : c.Confines) :
    (c.refer ctx expected f typeArgs span).Ensures base.Keeps Term.Unmarked := by
  have hcalled : (c.callOnUnit ctx expected f typeArgs span).Ensures base.Keeps
      Term.Unmarked := by
    apply Ensures.bind (call_unmarked hctx hf htypeArgs hc (.typed rfl))
    intro called hcalled
    exact fit_unmarked hctx hcalled
  unfold refer
  dsimp only
  split
  · apply Ensures.bind hcalled.restoring.attempt
    intro result hresult
    cases result with
    | ok term => exact ensures_pure (hresult term rfl)
    | error e => exact referPlainly_unmarked hctx hf htypeArgs
  · exact referPlainly_unmarked hctx hf htypeArgs

end

theorem choose_unmarked {candidate : Candidate} (hinference : base.Keeps candidate.inference)
    (hterm : candidate.term.Unmarked) : candidate.choose.Ensures base.Keeps Term.Unmarked :=
  Preserves.bind
    (ensures_modify fun _ hi =>
      ⟨hi.binds.adopt hinference.binds, hi.advances.adopt hinference.advances⟩)
    fun _ => ensures_pure hterm

section

variable (hctx : ctx.Unmarked)

include hctx

theorem settleUndecided_unmarked {options : List CallOption}
    (hoptions : forall option, option ∈ options -> (CallOption.term option).Unmarked) :
    (c.settleUndecided ctx expected options span).Ensures base.Keeps Term.Unmarked := by
  refine Ensures.bind (tried_ensures fun option hoption =>
    fit_unmarked hctx (hoptions option hoption)) fun tried htried => ?_
  split
  · exact ensures_throw _
  · rename_i only hone
    rcases htried only (hone ▸ List.mem_cons_self) with ⟨hinference, hterm⟩
    exact choose_unmarked hinference hterm
  · refine Ensures.bind (ensures_bounded fun _ h => h) fun narrowest hnarrowest => ?_
    cases narrowest with
    | none => exact ensures_throw _
    | some candidate =>
        rcases htried candidate (narrowestFrom_mem hnarrowest) with ⟨hinference, hterm⟩
        exact choose_unmarked hinference hterm

theorem referOverloaded_unmarked (hc : c.Confines) {functions : List Signature}
    (hfunctions : Signature.AllHold Former.isUnmarked functions) {typeArgs : List Ty}
    (htypeArgs : forall t : Ty, t ∈ typeArgs -> t.Unmarked) :
    (c.referOverloaded ctx expected functions typeArgs span).Ensures base.Keeps
      Term.Unmarked := by
  unfold referOverloaded
  split
  · exact refer_unmarked hctx (hfunctions _ List.mem_cons_self) htypeArgs hc
  · refine Ensures.bind (tried_ensures fun f hf =>
      refer_unmarked hctx (hfunctions f hf) htypeArgs hc) fun tried htried => ?_
    split
    · exact Preserves.bind ensures_state.preserves fun _ => ensures_throw _
    · rename_i only hone
      rcases htried only (hone ▸ List.mem_cons_self) with ⟨hinference, hterm⟩
      exact choose_unmarked hinference hterm
    · exact ensures_throw _

end

/-!
## Boxes and unions
-/

theorem exists_marks_of_lift {registry : Registry} {term : Term} {k : Nat}
    (h : (Registry.lift registry term).type.marks k = true) : term.type.marks k = true := by
  unfold Registry.lift at h
  split at h
  · rename_i name args htype
    split at h
    · rcases Ty.exists_part_marks rfl h with ⟨arg, harg, hmarks⟩
      rw [htype]
      rcases Membership.mem_unionArgs harg with hown | ⟨variance, rfl⟩
      · exact Ty.marks_of_part (t := .named name args) hown hmarks
      · unfold Membership.filler at hmarks
        split at hmarks <;> cases hmarks
    · exact h
  · exact h

theorem lift_unmarked {registry : Registry} {term : Term} (h : term.Unmarked) :
    (Registry.lift registry term).Unmarked := by
  refine Ty.unmarked_of_marks fun k hmarks => ?_
  exact h.not_marks (exists_marks_of_lift hmarks)

theorem exists_marks_of_boxedTerm {exact : Bool} {name : Symbol} {args : List Ty} {value : Term}
    {k : Nat} (h : (boxedTerm ctx exact (.named name args) value span).type.marks k = true) :
    exists arg, arg ∈ args ∧ arg.marks k = true := by
  unfold boxedTerm at h
  dsimp only at h
  split at h
  · exact Ty.exists_part_marks rfl h
  · exact Ty.exists_part_marks rfl (exists_marks_of_lift h)

section

variable (hc : c.Confines) (hctx : ctx.Unmarked) {value : Draft} (hvalue : value.Unmarked)
  {name : Symbol} {d : Declaration} {args : List Ty} {exact : Bool}

include hctx in
theorem exists_marks_of_completeArgs (hd : Table.get? ctx.registry name = some d)
    {i : Inference} (hi : i.Binds Former.isUnmarked) {arg : Ty} {k : Nat}
    (harg : arg ∈ Ty.completeArgs d.defaults d.arity (args.map i.substitute))
    (hmarks : arg.marks k = true) :
    i.slot? k = none ∧ exists given, given ∈ args ∧ given.marks k = true := by
  have hstores : ctx.registry.Stores fun f => decide (f ≠ .param k true) := by
    intro name d hd t ht
    exact Ty.marks_eq_false.mp (Ty.Unmarked.marks (hctx.types.registry name d hd t ht) k)
  by_contra hnone
  refine Bool.false_ne_true ((Ty.marks_eq_false.mpr ?_).symm.trans hmarks)
  refine hstores.completeArgs rfl hd (List.forall_mem_map.mpr ?_) arg harg
  intro given hgiven
  refine Ty.marks_eq_false.mp (Bool.eq_false_iff.mpr ?_)
  intro hmarked
  rcases hi.marks_substitute hmarked with ⟨hunbound, hmarked⟩
  exact hnone ⟨hunbound, given, hgiven, hmarked⟩

include hc hctx hvalue

theorem boxInferring_unmarked {inner : Ty} :
    Judge.Ensures (c.boxInferring ctx value name d inner exact span) Term.Unmarked := by
  have hstart := (Inference.binds_start (p := Former.isUnmarked) d.params d.bounds).keeps
  refine ((hc.settle _ ctx _ value hctx hvalue).runWith hstart).bind fun result hresult => ?_
  dsimp only
  split
  · exact Judge.ensures_throw _
  · rename_i inferred hinferred
    refine (Judge.ensures_any _).bind fun fits _ => ?_
    split
    · exact Judge.ensures_throw_bind _ _
    · refine (Judge.ensures_any _).bind fun _ _ => Judge.ensures_pure ?_
      refine Ty.unmarked_of_marks fun k hmarks => ?_
      rcases exists_marks_of_boxedTerm hmarks with ⟨arg, harg, hmarks⟩
      have hbound : arg.Unmarked := hresult.right.binds.bindings hinferred arg harg
      exact hbound.not_marks hmarks

/-- What is marked in a value that was put under a type name is marked in an argument that
was given, and has no binding. -/
theorem inject_confined :
    (c.inject ctx value name args exact span).Ensures base.Keeps fun term =>
      forall k, term.type.marks k = true ->
        base.slot? k = none ∧ exists arg, arg ∈ args ∧ arg.marks k = true := by
  have hclosed : forall term : Term, term.Unmarked -> forall k, term.type.marks k = true ->
      base.slot? k = none ∧ exists arg, arg ∈ args ∧ arg.marks k = true := by
    intro term hterm k hmarks
    exact (hterm.not_marks hmarks).elim
  unfold inject
  split
  · exact ensures_throw _
  · rename_i d hd
    split
    · apply ensures_except
      intro term hterm
      rcases injectIntoUnion_ok hterm with ⟨found, hfound, rfl⟩
      exact hclosed _ (lift_unmarked (hvalue.term hfound))
    · exact ensures_throw _
    · refine Preserves.bind (ensures_except fun _ _ => trivial) fun _ => ?_
      split
      · apply Preserves.bind (hc.settle base ctx _ value hctx hvalue).preserves
        intro term
        apply Ensures.bind ensures_state
        intro i hi
        refine Preserves.bind (preserves_judge _) fun _ => ensures_pure ?_
        intro k hmarks
        rcases exists_marks_of_boxedTerm hmarks with ⟨arg, harg, hmarks⟩
        rcases exists_marks_of_completeArgs hctx hd hi.binds harg hmarks with ⟨hunbound, hgiven⟩
        exact ⟨hi.unbound hunbound, hgiven⟩
      · split
        · exact (ensures_judge (boxInferring_unmarked hc hctx hvalue)).mono hclosed
        · exact ensures_throw _

theorem inject_unmarked (hargs : forall t : Ty, t ∈ args -> t.Unmarked) :
    (c.inject ctx value name args exact span).Ensures base.Keeps Term.Unmarked := by
  refine (inject_confined hc hctx hvalue).mono fun term hterm =>
    Ty.unmarked_of_marks fun k hmarks => ?_
  rcases hterm k hmarks with ⟨_, arg, harg, hmarks⟩
  exact (hargs arg harg).not_marks hmarks

end

/-!
## All drafts
-/

section

variable (hc : c.Confines) (hctx : ctx.Unmarked)

include hctx

theorem settleLifted_unmarked {draft : Draft} (hdraft : draft.Unmarked) {union : Symbol}
    {error : ExprError} :
    (c.settleLifted ctx expected draft union error).Ensures base.Keeps Term.Unmarked := by
  unfold settleLifted
  split
  · exact ensures_throw _
  · rename_i term hterm
    dsimp only
    split
    · exact fit_unmarked hctx (lift_unmarked (hdraft.term hterm))
    · exact ensures_throw _

include hc

theorem settleRef_unmarked {target : RefTarget} {typeArgs : List Ty} (htarget : target.Unmarked)
    (htypeArgs : forall t : Ty, t ∈ typeArgs -> t.Unmarked) :
    (c.settleRef ctx expected target typeArgs span).Ensures base.Keeps Term.Unmarked := by
  cases target with
  | type use =>
      apply Ensures.bind (inject_unmarked hc hctx (.typed rfl) htypeArgs).mapError
      intro boxed hboxed
      exact fit_unmarked hctx hboxed
  | functions f => exact referOverloaded_unmarked hctx hc htarget htypeArgs
  | functionsOrLocal f value =>
      apply Ensures.bind (fit_unmarked hctx htarget.right).restoring.attempt
      intro result hresult
      cases result with
      | ok term => exact ensures_pure (hresult term rfl)
      | error e =>
          exact (referOverloaded_unmarked hctx hc htarget.left
            (List.forall_mem_nil _)).restoring.mapError

theorem settleDirectly_confinedToItems {draft : Draft} (hdraft : draft.Unmarked)
    (hblock : forall bindings result, draft.value ≠ .block bindings result) :
    (c.settleDirectly ctx expected draft).Ensures base.Keeps fun term =>
      ConfinedToItems ctx.registry base expected term.type := by
  have hclosed : forall term : Term, term.Unmarked ->
      ConfinedToItems ctx.registry base expected term.type :=
    fun term hterm => confinedToItems_of_unmarked hterm
  cases hdraft with
  | typed hterm => exact (fit_unmarked hctx hterm).mono hclosed
  | lambda hlocals => exact (settleLambda_unmarked hc hctx hlocals).mono hclosed
  | integer => exact settleInteger_unmarked.mono hclosed
  | reference htarget htypeArgs =>
      exact (settleRef_unmarked hc hctx htarget htypeArgs).mono hclosed
  | undecided hoptions => exact (settleUndecided_unmarked hctx hoptions).mono hclosed
  | tuple hitems => exact settleTuple_confined hc hctx hitems
  | bundle hfields => exact settleBundle_confined hc hctx hfields
  | array hitems => exact (settleArray_unmarked hc hctx hitems).mono hclosed
  | block _ _ => exact absurd rfl (hblock _ _)
  | switch hbranches => exact (settleSwitch_unmarked hc hctx hbranches).mono hclosed
  | multiSwitch hbranches => exact (settleMultiSwitch_unmarked hc hctx hbranches).mono hclosed

theorem settleDirectly_confined {draft : Draft} (hdraft : draft.Unmarked) :
    (c.settleDirectly ctx expected draft).Ensures base.Keeps fun term =>
      Confined ctx.registry base expected term.type := by
  by_cases hblock : exists bindings result, draft.value = .block bindings result
  · rcases hblock with ⟨bindings, result, hvalue⟩
    cases hdraft with
    | block hbindings hresult => exact settleBlock_confined hc hctx hbindings hresult
    | _ => cases hvalue
  · refine (settleDirectly_confinedToItems hc hctx hdraft ?_).mono fun term hterm =>
      hterm.confined
    exact fun bindings result hvalue => hblock ⟨bindings, result, hvalue⟩

omit hc hctx in
theorem resort_confined {i : Inference} (hi : base.Keeps i) {t : Ty} {draft : Draft}
    {name : Symbol} {args : List Ty} (h : resort? ctx i t draft = some (.box name args))
    {arg : Ty} (harg : arg ∈ args) {k : Nat} (hmarks : arg.marks k = true) :
    BoxArg ctx.registry arg t := by
  rcases resort_fills h with ⟨htarget, d, boxed, hd, hboxed, hguarded, hhidden⟩
  unfold resortTarget? at htarget
  split at htarget
  · cases htarget
    exact .box hd hboxed hguarded hhidden harg
  · rcases Option.bind_eq_some_iff.mp htarget with ⟨certain, hcertain, hnamed⟩
    have hclosed := hi.binds.certain_unmarked hcertain
    cases certain with
    | named other others =>
        cases hnamed
        have harg : arg.Unmarked := (Ty.everywhere_iff.mp hclosed).right arg harg
        exact (harg.not_marks hmarks).elim
    | _ => cases hnamed

/-- Whether a draft fits as it stands, is boxed or is lifted: what is marked in the type of
the term stays open. -/
theorem settleStep_confined {draft : Draft} (hdraft : draft.Unmarked) :
    (c.settleStep ctx expected draft).Ensures base.Keeps fun term =>
      Confined ctx.registry base expected term.type := by
  apply Ensures.bind ensures_state
  intro i hi
  apply Ensures.bind (settleDirectly_confined hc hctx hdraft).restoring.attempt
  intro result hresult
  cases result with
  | ok term => exact ensures_pure (hresult term rfl)
  | error error =>
      dsimp only
      split
      · exact ensures_throw_bind _ _
      · split
        · exact ensures_throw _
        · rename_i name args hresort
          rcases Option.bind_eq_some_iff.mp hresort with ⟨t, rfl, hresort⟩
          refine (inject_confined hc hctx hdraft).mono fun term hterm k hmarks => ?_
          rcases hterm k hmarks with ⟨hunbound, arg, harg, hmarks⟩
          exact ⟨hunbound, t, arg, rfl, resort_confined hi hresort harg hmarks, hmarks⟩
        · exact (settleLifted_unmarked hctx hdraft).mono fun term hterm =>
            (confinedToItems_of_unmarked hterm).confined

end

end Checker
end TypeChecker
