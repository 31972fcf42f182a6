import TypeChecker.Proofs.Checking.StandardDrafts
import TypeChecker.Proofs.Program.Progress

/-!
# Bodies of checked modules

The body of a function, the value of a constant and an effect are checked against
signatures that were read from written types. Where the registry keeps to a standard, and
so do the types that are read against it, every checked body keeps to the standard too.
What can be said of a checked body may depend on the expression it was written as.
-/

namespace TypeChecker

/-!
## Signatures in scope
-/

namespace Scope.Collected

variable {F : Signature -> Prop} {C : ConstantSignature -> Prop} {registry : Registry}
  {limits : Limits} {depth : Nat} {c : Collected}

/-- All signatures in scope satisfy the given conditions, and constants are listed under
their symbols. -/
structure Holds (F : Signature -> Prop) (C : ConstantSignature -> Prop) (c : Collected) :
    Prop where
  functions : forall f, f ∈ c.scope.functions -> F f
  constants : forall item, item ∈ c.scope.constants -> item.2.symbol = item.1 ∧ C item.2

theorem Holds.report (h : c.Holds F C) (error : SignatureError) : (c.report error).Holds F C :=
  ⟨h.functions, h.constants⟩

theorem Holds.addFunction (h : c.Holds F C) {f : Signature} (hf : F f) :
    (c.addFunction f).Holds F C := by
  unfold Collected.addFunction
  split
  · refine ⟨?_, h.constants⟩
    exact List.forall_mem_append.mpr ⟨h.functions, List.forall_mem_singleton.mpr hf⟩
  · split
    · exact h.report _
    · exact h

theorem Holds.addConstant (h : c.Holds F C) {constant : ConstantSignature}
    (hconstant : C constant) :
    (c.addConstant constant).Holds F C := by
  refine ⟨h.functions, ?_⟩
  intro item hitem
  rcases Table.mem_put hitem with rfl | hitem
  · exact ⟨rfl, hconstant⟩
  · exact h.constants item hitem

/-- What holds of every signature that is read holds of all signatures in scope. -/
theorem holds_collect
    (hF : forall module index decl,
      Judge.Ensures (readFunction registry limits depth module index decl) F)
    (hC : forall module decl, Judge.Ensures (readConstant registry limits depth module decl) C)
    {module : Source.Module} {imported : List Source.Module}
    (h : collect registry limits depth module imported = some c) : c.Holds F C := by
  have hkept : Kept registry limits depth (Holds F C) :=
    { report := fun error hc => hc.report error
      addFunction := fun hread hc => hc.addFunction (hF _ _ _ _ hread)
      addConstant := fun hread hc => hc.addConstant (hC _ _ _ hread) }
  exact hkept.collect h ⟨List.forall_mem_nil _, List.forall_mem_nil _⟩

end Scope.Collected

namespace Standard

variable {s : Standard} {registry : Registry} {limits : Limits} {depth : Nat}

/-- What a registry brings into checked code meets a standard, and so does every type that
is read against it. -/
structure OfRegistry (s : Standard) (limits : Limits) (registry : Registry) : Prop where
  suits : s.Suits registry
  stores : registry.Stores s.former
  written : forall ctx : TypeContext, ctx.registry = registry -> forall depth expr,
    Judge.Ensures (ctx.resolve limits depth expr) s.OfType

structure OfBounds (s : Standard) (bounds : Bounds) : Prop where
  lower : forall item, item ∈ bounds.lower -> s.OfType item.2
  upper : forall item, item ∈ bounds.upper -> s.OfType item.2

theorem ofBounds_empty : s.OfBounds {} :=
  ⟨List.forall_mem_nil _, List.forall_mem_nil _⟩

def OfFunction (s : Standard) (f : Signature) : Prop := s.OfSignature f ∧ s.OfBounds f.bounds

section

variable (h : s.OfRegistry limits registry)

include h

theorem readBounds_standard {ctx : TypeContext} (hctx : ctx.registry = registry)
    {params : List Source.ParamDecl} {index : Nat} {bounds : Bounds} (hbounds : s.OfBounds bounds) :
    Judge.Ensures (Scope.readBounds ctx limits depth index bounds params) s.OfBounds := by
  induction params generalizing index bounds with
  | nil => exact Judge.ensures_pure hbounds
  | cons param rest ih =>
      rw [Scope.readBounds]
      split
      · exact ih hbounds
      · rename_i side expr _
        refine (h.written ctx hctx depth expr).bind fun t ht => ?_
        have hput : forall map : TypeMap, (forall item, item ∈ map -> s.OfType item.2) ->
            forall item, item ∈ Table.put index t map -> s.OfType item.2 := by
          intro map hmap item hitem
          rcases Table.mem_put hitem with rfl | hitem
          · exact ht
          · exact hmap item hitem
        dsimp only
        split
        · exact Judge.ensures_throw_bind _ _
        · cases side with
          | above => exact ih { hbounds with lower := hput _ hbounds.lower }
          | below => exact ih { hbounds with upper := hput _ hbounds.upper }

theorem readFunction_standard {module : String} {index : Nat} {decl : Source.FunctionDecl} :
    Judge.Ensures (Scope.readFunction registry limits depth module index decl) s.OfFunction := by
  unfold Scope.readFunction
  dsimp only
  split
  · exact Judge.ensures_throw_bind _ _
  · refine (Judge.ensures_any _).bind fun params _ => ?_
    refine (readBounds_standard h rfl ofBounds_empty).mapError.bind fun bounds hbounds => ?_
    refine (h.written _ rfl depth decl.input).mapError.bind fun input hinput => ?_
    refine (h.written _ rfl depth decl.output).mapError.bind fun output houtput => ?_
    exact Judge.ensures_pure ⟨⟨hinput, houtput⟩, hbounds⟩

theorem readConstant_standard {module : String} {decl : Source.ConstantDecl} :
    Judge.Ensures (Scope.readConstant registry limits depth module decl)
      fun constant => s.OfType constant.type := by
  unfold Scope.readConstant
  dsimp only
  split
  · exact Judge.ensures_throw_bind _ _
  · refine (h.written _ rfl depth decl.type).mapError.bind fun type htype => ?_
    exact Judge.ensures_pure htype

end

/-!
## Bodies

The standard of a body may depend on the expression it is written as, so that it can speak
of what is written there.
-/

theorem OfRegistry.context {b : BodyContext} (h : s.OfRegistry b.limits b.registry)
    (hfunctions : forall f, f ∈ b.scope.functions -> s.OfFunction f)
    (hconstants : forall item, item ∈ b.scope.constants -> s.OfType item.2.type)
    (params : List Param) {bounds : Bounds} (hbounds : s.OfBounds bounds) :
    s.OfContext (b.context params bounds) where
  suits := h.suits
  types := by
    refine ⟨h.stores, List.forall_mem_append.mpr ⟨?_, ?_⟩⟩
    · exact List.forall_mem_map.mpr hbounds.lower
    · exact List.forall_mem_map.mpr hbounds.upper
  written depth expr := (h.written _ rfl depth expr).mapError
  functions f hf := (hfunctions f hf).left
  constants := hconstants
  locals := List.forall_mem_nil _

section

variable {standard : Source.Expr -> Standard} {b : BodyContext}
  (h : forall expr, (standard expr).OfRegistry b.limits b.registry)
  (hfunctions : forall expr f, f ∈ b.scope.functions -> (standard expr).OfFunction f)
  (hconstants : forall expr item, item ∈ b.scope.constants -> (standard expr).OfType item.2.type)
  (hwritten : forall expr, (standard expr).OfExpr expr)

include h hfunctions hconstants hwritten

theorem checkFunction_standard {f : Signature} (hf : f ∈ b.scope.functions)
    {decl : Source.FunctionDecl} :
    Judge.Ensures (b.checkFunction decl f) fun checked => checked.signature = f ∧
      forall term, checked.body = .written term -> exists lambda, decl.body = .written lambda ∧
        (standard lambda.output).OfTerm term := by
  unfold BodyContext.checkFunction
  split
  · refine Judge.ensures_pure ⟨rfl, ?_⟩
    intro term hterm
    cases hterm
  · rename_i lambda hlambda
    have hf := hfunctions lambda.output f hf
    have hctx := (h lambda.output).context (hfunctions _) (hconstants _) f.params hf.right
    have htype := (h lambda.output).suits.func hf.left.left hf.left.right
    refine (settleTo_standard (ofChecker_checkerAt _ b.depth) hctx htype
      (.lambda (hwritten lambda.output) hctx.locals)).bind fun term hterm => ?_
    refine Judge.ensures_pure ⟨rfl, ?_⟩
    intro body hbody
    cases hbody
    exact ⟨lambda, hlambda, hterm⟩

theorem checkConstant_standard {constant : ConstantSignature}
    (hconstant : forall expr, (standard expr).OfType constant.type)
    {decl : Source.ConstantDecl} :
    Judge.Ensures (b.checkConstant decl constant) fun checked => checked.signature = constant ∧
      forall term, checked.value = .written term -> exists expr, decl.value = .written expr ∧
        (standard expr).OfTerm term := by
  unfold BodyContext.checkConstant
  split
  · refine Judge.ensures_pure ⟨rfl, ?_⟩
    intro term hterm
    cases hterm
  · rename_i expr hexpr
    have hctx := (h expr).context (hfunctions _) (hconstants _) [] ofBounds_empty
    refine (check_standard (ofChecker_checkerAt _ b.depth) hctx
      (ofExpected_some (hconstant expr)) (hwritten expr)).bind fun term hterm => ?_
    refine Judge.ensures_pure ⟨rfl, ?_⟩
    intro value hvalue
    cases hvalue
    exact ⟨expr, hexpr, hterm⟩

theorem checkEffect_standard (expr : Source.Expr) :
    Judge.Ensures (b.checkEffect expr) (standard expr).OfTerm := by
  have hctx := (h expr).context (hfunctions _) (hconstants _) [] ofBounds_empty
  have htype : (standard expr).OfType (Core.effectOf .unit) :=
    hctx.suits.wrapped (by simp) (hctx.suits.bareType rfl ofTypes_nil)
  exact check_standard (ofChecker_checkerAt _ b.depth) hctx (ofExpected_some htype)
    (hwritten expr)

end

end Standard

/-!
## Modules
-/

theorem BodyContext.mem_checkEach {α β : Type} {check : α -> Judge ExprError β}
    {items : List α} {accepted : List β} {problems : List Problem}
    (h : checkEach check items = some (accepted, problems)) {checked : β}
    (hchecked : checked ∈ accepted) :
    exists item, item ∈ items ∧ (check item).outcome = some (.ok checked) := by
  induction items generalizing accepted problems with
  | nil =>
      cases h
      cases hchecked
  | cons item rest ih =>
      rcases Option.bind_eq_some_iff.mp h with ⟨outcome, houtcome, h⟩
      have hlater : forall {others more}, checkEach check rest = some (others, more) ->
          checked ∈ others ->
            exists later, later ∈ item :: rest ∧ (check later).outcome = some (.ok checked) := by
        intro others more hrest hmem
        rcases ih hrest hmem with ⟨later, hlater, hrun⟩
        exact ⟨later, List.mem_cons_of_mem _ hlater, hrun⟩
      cases outcome with
      | ok first =>
          rcases Option.bind_eq_some_iff.mp h with ⟨⟨others, more⟩, hrest, h⟩
          cases h
          rcases List.mem_cons.mp hchecked with rfl | hmem
          · exact ⟨item, List.mem_cons_self, houtcome⟩
          · exact hlater hrest hmem
      | error error =>
          rcases Option.bind_eq_some_iff.mp h with ⟨⟨others, more⟩, hrest, h⟩
          cases h
          exact hlater hrest hchecked

theorem Scope.mem_of_mem_numberFrom {earlier : List String} {decls : List Source.FunctionDecl}
    {item : Nat × Source.FunctionDecl} (h : item ∈ numberFrom earlier decls) :
    item.2 ∈ decls := by
  induction decls generalizing earlier with
  | nil => cases h
  | cons decl rest ih =>
      rcases List.mem_cons.mp h with rfl | hlater
      · exact List.mem_cons_self
      · exact List.mem_cons_of_mem _ (ih hlater)

theorem Scope.own?_eq_some {scope : Scope} {name : String} {index : Nat} {f : Signature}
    (h : scope.own? name index = some f) : f ∈ scope.functions ∧ f.symbol.name = name := by
  have hmem := List.mem_filter.mp (List.mem_of_find?_eq_some h)
  exact ⟨hmem.left, eq_of_beq hmem.right⟩

/-- Every body of a checked module stands in a relation to the expression it was written
as, in the declaration of its name. -/
structure CheckedModule.Follows (R : Source.Expr -> Term -> Prop) (written : Source.Module)
    (checked : CheckedModule) : Prop where
  functions : forall f, f ∈ checked.functions -> forall body, f.body = .written body ->
    exists decl lambda, decl ∈ written.functions ∧ f.signature.symbol.name = decl.name.name ∧
      decl.body = .written lambda ∧ R lambda.output body
  constants : forall c, c ∈ checked.constants -> forall value, c.value = .written value ->
    exists decl expr, decl ∈ written.constants ∧ c.signature.symbol.name = decl.name.name ∧
      decl.value = .written expr ∧ R expr value
  effects : forall effect, effect ∈ checked.effects ->
    exists expr, expr ∈ written.effects ∧ R expr effect

theorem CheckedModule.Follows.mono {R R' : Source.Expr -> Term -> Prop} {written : Source.Module}
    {checked : CheckedModule} (h : checked.Follows R written)
    (himp : forall expr term, R expr term -> R' expr term) : checked.Follows R' written := by
  constructor
  · intro f hf body hbody
    rcases h.functions f hf body hbody with ⟨decl, lambda, hdecl, hname, hlambda, hR⟩
    exact ⟨decl, lambda, hdecl, hname, hlambda, himp _ _ hR⟩
  · intro c hc value hvalue
    rcases h.constants c hc value hvalue with ⟨decl, expr, hdecl, hname, hexpr, hR⟩
    exact ⟨decl, expr, hdecl, hname, hexpr, himp _ _ hR⟩
  · intro effect heffect
    rcases h.effects effect heffect with ⟨expr, hexpr, hR⟩
    exact ⟨expr, hexpr, himp _ _ hR⟩

namespace Program

variable {limits : Limits} {depth : Nat} {modules : List Source.Module}

theorem checkModule_follows {standard : Source.Expr -> Standard} {registry : Registry}
    (h : forall expr, (standard expr).OfRegistry limits registry)
    (hwritten : forall expr, (standard expr).OfExpr expr) {m : Source.Module}
    {imported : List Source.Module} {checked : CheckedModule} {problems : List Problem}
    (hcheck : checkModule registry limits depth m imported = some (checked, problems)) :
    checked.Follows (fun expr => (standard expr).OfTerm) m := by
  rcases Option.bind_eq_some_iff.mp hcheck with ⟨collected, hcollected, hcheck⟩
  rcases Option.bind_eq_some_iff.mp hcheck with ⟨⟨functions, inFunctions⟩, hfunctions, hcheck⟩
  rcases Option.bind_eq_some_iff.mp hcheck with ⟨⟨constants, inConstants⟩, hconstants, hcheck⟩
  rcases Option.bind_eq_some_iff.mp hcheck with ⟨⟨effects, inEffects⟩, heffects, hcheck⟩
  cases hcheck
  have hscope : forall expr, collected.Holds (standard expr).OfFunction
      fun constant => (standard expr).OfType constant.type := fun expr =>
    Scope.Collected.holds_collect (fun _ _ _ => Standard.readFunction_standard (h expr))
      (fun _ _ => Standard.readConstant_standard (h expr)) hcollected
  have hsigned : forall expr f, f ∈ collected.scope.functions -> (standard expr).OfFunction f :=
    fun expr => (hscope expr).functions
  have htyped : forall expr item, item ∈ collected.scope.constants ->
      (standard expr).OfType item.2.type :=
    fun expr item hitem => ((hscope expr).constants item hitem).right
  let b : BodyContext := { registry, scope := collected.scope, limits, depth }
  constructor
  · intro f hf body hbody
    rcases BodyContext.mem_checkEach hfunctions hf with ⟨⟨decl, signature⟩, hitem, hrun⟩
    rcases List.mem_filterMap.mp hitem with ⟨numbered, hnumbered, hown⟩
    rcases Option.map_eq_some_iff.mp hown with ⟨own, hown, hpair⟩
    cases hpair
    rcases Scope.own?_eq_some hown with ⟨hmem, hname⟩
    rcases Standard.checkFunction_standard (b := b) h hsigned htyped hwritten hmem f hrun with
      ⟨hsignature, hterm⟩
    rcases hterm body hbody with ⟨lambda, hlambda, hterm⟩
    exact ⟨_, lambda, Scope.mem_of_mem_numberFrom hnumbered, hsignature ▸ hname, hlambda, hterm⟩
  · intro c hc value hvalue
    rcases BodyContext.mem_checkEach hconstants hc with ⟨⟨decl, signature⟩, hitem, hrun⟩
    rcases List.mem_filterMap.mp hitem with ⟨own, hdecl, hown⟩
    rcases Option.map_eq_some_iff.mp hown with ⟨found, hfound, hpair⟩
    cases hpair
    have hmem := Table.mem_of_get? hfound
    rcases Standard.checkConstant_standard (b := b) h hsigned htyped hwritten
      (fun expr => htyped expr _ hmem) c hrun with ⟨hsignature, hterm⟩
    rcases hterm value hvalue with ⟨expr, hexpr, hterm⟩
    refine ⟨decl, expr, hdecl, ?_, hexpr, hterm⟩
    rw [hsignature, ((hscope expr).constants _ hmem).left]
  · intro effect heffect
    rcases BodyContext.mem_checkEach heffects heffect with ⟨expr, hexpr, hrun⟩
    exact ⟨expr, hexpr,
      Standard.checkEffect_standard (b := b) h hsigned htyped hwritten expr effect hrun⟩

def Follows (R : Source.Expr -> Term -> Prop) (modules : List Source.Module)
    (checked : Table String CheckedModule) : Prop :=
  forall item, item ∈ checked -> exists written, Accepts modules written ∧
    written.name = item.1 ∧ item.2.Follows R written

theorem step_follows {R : Source.Expr -> Term -> Prop} {s : Setting}
    (hs : s.intake.Describes modules)
    (hmodule : forall {m imported checked problems},
      checkModule s.registration.registry s.limits s.depth m imported = some (checked, problems) ->
        checked.Follows R m)
    {p later : Progress} {id : Nat} (hstep : Progress.step s p id = some later)
    (hp : Follows R modules p.modules) : Follows R modules later.modules := by
  unfold Progress.step at hstep
  split at hstep
  · cases hstep
    exact hp
  · rename_i m hm
    dsimp only at hstep
    split at hstep
    · cases hstep
      exact hp
    · rcases Option.bind_eq_some_iff.mp hstep with ⟨⟨checked, problems⟩, hchecked, hstep⟩
      cases hstep
      unfold Progress.finish
      dsimp only
      split
      · exact hp
      · intro item hitem
        rcases Table.mem_put hitem with rfl | hitem
        · exact ⟨m, (hs.mem m).mp (List.mem_of_getElem? hm),
            (checkModule_spec hchecked).left.symm, hmodule hchecked⟩
        · exact hp item hitem

/-- What the check of any module gives holds of all modules of a verdict. -/
theorem check_follows {R : Source.Expr -> Term -> Prop} {v : Verdict}
    (hmodule : forall r, Registration.ofModules limits depth (Core.module :: modules) = some r ->
      forall {m imported checked problems},
        checkModule r.registry limits depth m imported = some (checked, problems) ->
          checked.Follows R m)
    (h : check limits depth modules = some v) : Follows R modules v.modules := by
  unfold check at h
  dsimp only at h
  cases horder : (Intake.ofModules modules).graph.order with
  | error path =>
      rw [horder] at h
      cases h
      exact List.forall_mem_nil _
  | ok order =>
      rw [horder] at h
      rcases Option.bind_eq_some_iff.mp h with ⟨r, hregistered, h⟩
      rcases Option.bind_eq_some_iff.mp h with ⟨p, hrun, h⟩
      cases h
      refine bounded_foldlM_keeps (P := fun p : Progress => Follows R modules p.modules) ?_ hrun
        (List.forall_mem_nil _)
      intro p id later hstep
      refine step_follows (Intake.describes_ofModules modules) ?_ hstep
      exact hmodule r hregistered

end Program
end TypeChecker
