import TypeChecker.Checking.Settle

/-!
# Settling does not look at locals

Names are looked up when an expression is drafted. A draft keeps what its names mean: a
lambda keeps the locals of the place where it was written, and every other draft has no
names left to look up. So a draft may be settled at any other place, and comes out as it
would have where it was written.
-/

namespace TypeChecker

def Context.elsewhere (ctx : Context) (locals : Locals) : Context :=
  { ctx with locals := locals }

namespace Context

variable {ctx : Context} {locals : Locals}

theorem toTypeContext_elsewhere :
    (ctx.elsewhere locals).toTypeContext = ctx.toTypeContext := rfl

theorem fit_elsewhere (depth : Nat) (expected : Option Ty) (term : Term) :
    (ctx.elsewhere locals).fit depth expected term = ctx.fit depth expected term := rfl

theorem fits_elsewhere (depth : Nat) (expected given : Ty) :
    (ctx.elsewhere locals).fits depth expected given = ctx.fits depth expected given := rfl

theorem requireArgs_elsewhere (depth : Nat) (span : Span) (params : List Param)
    (defaults : TypeMap) (bounds : Bounds) (args : List Ty) :
    (ctx.elsewhere locals).requireArgs depth span params defaults bounds args =
      ctx.requireArgs depth span params defaults bounds args := rfl

theorem fields_elsewhere (input : Ty) (declared : Table String (Field Ty)) (bound : List String)
    (names : List (Source.Ident × Source.Ident)) :
    Destructure.fields (ctx.elsewhere locals) input declared bound names =
      Destructure.fields ctx input declared bound names := by
  induction names generalizing bound with
  | nil => rfl
  | cons item rest ih =>
      rcases item with ⟨field, name⟩
      simp only [Destructure.fields, ih, toTypeContext_elsewhere]

theorem destructure_elsewhere (depth : Nat) (pattern : Source.Pattern) (input : Ty) :
    (ctx.elsewhere locals).destructure depth pattern input =
      ctx.destructure depth pattern input := by
  unfold destructure bindWhole bindTuple bindBundle
  simp only [fields_elsewhere, toTypeContext_elsewhere]

theorem exists_foldl_withPattern (bindings : List (BoundValue Term)) (ctx : Context) :
    exists locals, bindings.foldl (fun inner binding => inner.withPattern binding.pattern) ctx =
      ctx.elsewhere locals := by
  induction bindings generalizing ctx with
  | nil => exact ⟨ctx.locals, rfl⟩
  | cons binding rest ih =>
      rcases ih (ctx.withPattern binding.pattern) with ⟨locals, hlocals⟩
      exact ⟨locals, hlocals⟩

end Context

namespace Checker

def SettlesAnywhere (c : Checker) : Prop :=
  forall (ctx : Context) (locals : Locals) (expected : Option Ty) (draft : Draft),
    c.settle (ctx.elsewhere locals) expected draft = c.settle ctx expected draft

variable {c : Checker} {ctx : Context} {locals : Locals} {expected : Option Ty} {span : Span}

/-!
## Drafts that are settled without their parts
-/

theorem settleInteger_elsewhere (value : Int) :
    settleInteger (ctx.elsewhere locals) expected value span =
      settleInteger ctx expected value span := by
  unfold settleInteger
  simp only [Context.toTypeContext_elsewhere]

theorem bodyContext_elsewhere (captured : Locals) (pattern : BoundPattern) :
    bodyContext (ctx.elsewhere locals) captured pattern = bodyContext ctx captured pattern := rfl

/-- The body of a lambda sees the locals of the place where it was written. -/
theorem settleLambda_elsewhere (lambda : Source.Lambda) (captured : Locals) :
    c.settleLambda (ctx.elsewhere locals) expected lambda captured span =
      c.settleLambda ctx expected lambda captured span := by
  unfold settleLambda settleLambdaAt
  simp only [Context.destructure_elsewhere, bodyContext_elsewhere, Context.toTypeContext_elsewhere]

theorem narrowestAt_elsewhere (depth index : Nat) (result : Ty) (position : Nat)
    (all : List Candidate) :
    Candidate.narrowestAt (ctx.elsewhere locals) depth index result position all =
      Candidate.narrowestAt ctx depth index result position all := by
  induction all generalizing position with
  | nil => rfl
  | cons other rest ih =>
      simp only [Candidate.narrowestAt, Candidate.narrower, Context.fits_elsewhere, ih]

theorem narrowestFrom_elsewhere (depth : Nat) (all : List Candidate) (index : Nat)
    (rest : List Candidate) :
    Candidate.narrowestFrom (ctx.elsewhere locals) depth all index rest =
      Candidate.narrowestFrom ctx depth all index rest := by
  induction rest generalizing index with
  | nil => rfl
  | cons candidate rest ih => simp only [Candidate.narrowestFrom, narrowestAt_elsewhere, ih]

theorem settleUndecided_elsewhere (options : List CallOption) :
    c.settleUndecided (ctx.elsewhere locals) expected options span =
      c.settleUndecided ctx expected options span := by
  unfold settleUndecided Candidate.narrowest?
  simp only [Context.fit_elsewhere, narrowestFrom_elsewhere]

/-!
## Drafts that are settled by their parts
-/

section

variable (hc : c.SettlesAnywhere)

include hc

theorem settleEach_elsewhere (items : List (Option Ty × Draft)) :
    c.settleEach (ctx.elsewhere locals) items = c.settleEach ctx items := by
  induction items with
  | nil => rfl
  | cons item rest ih =>
      rcases item with ⟨expected, draft⟩
      rw [settleEach, settleEach, hc ctx locals, ih]

theorem settleAlone_elsewhere (draft : Draft) :
    c.settleAlone (ctx.elsewhere locals) draft = c.settleAlone ctx draft := by
  rw [settleAlone, settleAlone, hc ctx locals]

theorem settleAllAlone_elsewhere (drafts : List Draft) :
    c.settleAllAlone (ctx.elsewhere locals) drafts = c.settleAllAlone ctx drafts := by
  induction drafts with
  | nil => rfl
  | cons draft rest ih =>
      rw [settleAllAlone, settleAllAlone, settleAlone_elsewhere hc, ih]

theorem settleTuple_elsewhere (items : List Draft) :
    c.settleTuple (ctx.elsewhere locals) expected items span =
      c.settleTuple ctx expected items span := by
  unfold settleTuple
  simp only [settleEach_elsewhere hc, settleAllAlone_elsewhere hc, Context.fit_elsewhere,
    Context.toTypeContext_elsewhere]

theorem settleFields_elsewhere (declared : List (String × Field Ty))
    (given : List (Source.Ident × Draft)) :
    c.settleFields (ctx.elsewhere locals) span declared given =
      c.settleFields ctx span declared given := by
  induction declared generalizing given with
  | nil => rfl
  | cons item rest ih =>
      rcases item with ⟨name, field⟩
      simp only [settleFields, hc ctx locals, ih, Context.toTypeContext_elsewhere]

theorem settleBundle_elsewhere (fields : List (Source.Ident × Draft)) :
    c.settleBundle (ctx.elsewhere locals) expected fields span =
      c.settleBundle ctx expected fields span := by
  unfold settleBundle settleBundleAt
  simp only [settleFields_elsewhere hc, Context.toTypeContext_elsewhere]

theorem settleArray_elsewhere (items : List Draft) :
    c.settleArray (ctx.elsewhere locals) expected items span =
      c.settleArray ctx expected items span := by
  unfold settleArray settleArrayAlone
  simp only [settleEach_elsewhere hc, settleAlone_elsewhere hc, Context.fit_elsewhere,
    Context.toTypeContext_elsewhere]

theorem settleBlock_elsewhere (bindings : List (BoundValue Term)) (result : Draft) :
    c.settleBlock (ctx.elsewhere locals) expected bindings result span =
      c.settleBlock ctx expected bindings result span := by
  rcases Context.exists_foldl_withPattern bindings (ctx.elsewhere locals) with ⟨there, hthere⟩
  rcases Context.exists_foldl_withPattern bindings ctx with ⟨here, hhere⟩
  unfold settleBlock
  simp only [hthere, hhere, hc _ _ expected result]

theorem settleBranches_elsewhere (t : Ty) (branches : List (CaseBranch Draft)) :
    c.settleBranches (ctx.elsewhere locals) t branches = c.settleBranches ctx t branches := by
  induction branches with
  | nil => rfl
  | cons branch rest ih => rw [settleBranches, settleBranches, hc ctx locals, ih]

theorem settleSwitch_elsewhere (arg : Term) (branches : List (CaseBranch Draft))
    (reactive : Bool) :
    c.settleSwitch (ctx.elsewhere locals) expected arg branches reactive span =
      c.settleSwitch ctx expected arg branches reactive span := by
  unfold settleSwitch
  simp only [settleBranches_elsewhere hc]

theorem settleRows_elsewhere (t : Ty) (branches : List (CasesBranch Draft)) :
    c.settleRows (ctx.elsewhere locals) t branches = c.settleRows ctx t branches := by
  induction branches with
  | nil => rfl
  | cons branch rest ih => rw [settleRows, settleRows, hc ctx locals, ih]

theorem settleMultiSwitch_elsewhere (args : List Term) (branches : List (CasesBranch Draft)) :
    c.settleMultiSwitch (ctx.elsewhere locals) expected args branches span =
      c.settleMultiSwitch ctx expected args branches span := by
  unfold settleMultiSwitch
  simp only [settleRows_elsewhere hc]

/-!
## Boxes and functions
-/

theorem inject_elsewhere (value : Draft) (name : Symbol) (args : List Ty) (exact : Bool) :
    c.inject (ctx.elsewhere locals) value name args exact span =
      c.inject ctx value name args exact span := by
  unfold inject boxWithArgs boxInferring
  simp only [hc ctx locals, Context.requireArgs_elsewhere, Context.fits_elsewhere,
    Context.toTypeContext_elsewhere]
  rfl

theorem call_elsewhere (f : Signature) (typeArgs : List Ty) (arg : Draft) (calleeSpan : Span) :
    c.call (ctx.elsewhere locals) f typeArgs arg calleeSpan span =
      c.call ctx f typeArgs arg calleeSpan span := by
  unfold call callWithArgs callInferring functionRef
  simp only [hc ctx locals, Context.requireArgs_elsewhere, Context.fits_elsewhere,
    Context.toTypeContext_elsewhere]

theorem refer_elsewhere (f : Signature) (typeArgs : List Ty) :
    c.refer (ctx.elsewhere locals) expected f typeArgs span =
      c.refer ctx expected f typeArgs span := by
  unfold refer callOnUnit referPlainly referWithArgs referInferring functionRef
  simp only [call_elsewhere hc, Context.fit_elsewhere, Context.requireArgs_elsewhere,
    Context.fits_elsewhere, Context.toTypeContext_elsewhere]

theorem referOverloaded_elsewhere (functions : List Signature) (typeArgs : List Ty) :
    c.referOverloaded (ctx.elsewhere locals) expected functions typeArgs span =
      c.referOverloaded ctx expected functions typeArgs span := by
  unfold referOverloaded
  simp only [refer_elsewhere hc, Context.toTypeContext_elsewhere]

theorem settleRef_elsewhere (target : RefTarget) (typeArgs : List Ty) :
    c.settleRef (ctx.elsewhere locals) expected target typeArgs span =
      c.settleRef ctx expected target typeArgs span := by
  unfold settleRef typeAsValue
  simp only [inject_elsewhere hc, referOverloaded_elsewhere hc, Context.fit_elsewhere]

/-!
## Any draft
-/

theorem settleDirectly_elsewhere (draft : Draft) :
    c.settleDirectly (ctx.elsewhere locals) expected draft =
      c.settleDirectly ctx expected draft := by
  unfold settleDirectly
  split
  · exact Context.fit_elsewhere c.depth expected _
  · exact settleLambda_elsewhere _ _
  · exact settleInteger_elsewhere _
  · exact settleRef_elsewhere hc _ _
  · exact settleUndecided_elsewhere _
  · exact settleTuple_elsewhere hc _
  · exact settleBundle_elsewhere hc _
  · exact settleArray_elsewhere hc _
  · exact settleBlock_elsewhere hc _ _
  · exact settleSwitch_elsewhere hc _ _ _
  · exact settleMultiSwitch_elsewhere hc _ _

theorem settleStep_elsewhere (draft : Draft) :
    c.settleStep (ctx.elsewhere locals) expected draft = c.settleStep ctx expected draft := by
  unfold settleStep
  rw [settleDirectly_elsewhere hc]
  simp only [inject_elsewhere hc]
  rfl

end

end Checker

theorem settleDraft_anywhere (depth : Nat) : (checkerAt depth).SettlesAnywhere := by
  induction depth with
  | zero => exact fun _ _ _ _ => rfl
  | succ depth ih => exact fun ctx locals expected draft => Checker.settleStep_elsewhere ih draft

/-- A draft settles alike at two places that differ in their locals, with the same term or
the same error and the same inference afterwards. In particular the value of a branch
settles outside the branch as it would below its pattern. -/
theorem settling_ignores_locals (depth : Nat) (ctx : Context) (expected : Option Ty)
    (draft : Draft) (i : Inference) :
    (forall here there : Locals,
      (settleDraft depth { ctx with locals := here } expected draft).outcome i =
        (settleDraft depth { ctx with locals := there } expected draft).outcome i) ∧
    forall pattern : Option BoundPattern,
      (settleDraft depth (ctx.withPattern? pattern) expected draft).outcome i =
        (settleDraft depth ctx expected draft).outcome i := by
  have hanywhere : forall (ctx : Context) (locals : Locals),
      settleDraft depth (ctx.elsewhere locals) expected draft =
        settleDraft depth ctx expected draft :=
    fun ctx locals => settleDraft_anywhere depth ctx locals expected draft
  constructor
  · intro here there
    exact congrArg (fun run => run.outcome i)
      ((hanywhere ctx here).trans (hanywhere ctx there).symm)
  · intro pattern
    cases pattern with
    | none => rfl
    | some pattern => exact congrArg (fun run => run.outcome i) (hanywhere ctx _)

end TypeChecker
