import TypeChecker.Proofs.Checking.LiftedOrder
import TypeChecker.Proofs.Checking.MarkedDrafts
import TypeChecker.Proofs.Program.Bodies
import TypeChecker.Proofs.Registry.CoreTypes

/-!
# Types in checked code are declared

Over a registry that was made without problems, all names in the types of checked code are
declared: those of literals are core types, those of cases and unions belong together, and
written types are read against the registry. The types that are bound while type arguments
are inferred have no parameters being inferred either, so that they fit themselves.
-/

namespace TypeChecker

/-- A registry of the core types and others that was made without problems. -/
def Registry.DeclaredWithCore (registry : Registry) : Prop :=
  exists limits depth modules r,
    Registration.ofModules limits depth (Core.module :: modules) = some r ∧ r.problems = [] ∧
      r.registry = registry

namespace Registry.DeclaredWithCore

variable {registry : Registry} (h : registry.DeclaredWithCore)

include h

theorem declared : registry.Declared := by
  rcases h with ⟨limits, depth, modules, r, hr, hproblems, hregistry⟩
  exact ⟨limits, depth, Core.module :: modules, r, hr, hproblems, hregistry⟩

theorem contains_core {name : String}
    (hname : name ∈ ["Float", "String", "Char", "Bool"] ++ ["Array", "Reactive", "Effect"]) :
    Table.contains registry (Symbol.core name) = true := by
  rcases h with ⟨limits, depth, modules, r, hr, hproblems, rfl⟩
  have hlisted : (["Float", "String", "Char", "Bool"] ++ ["Array", "Reactive", "Effect"]).all
      (fun name => Core.entries.any fun entry => entry.symbol = Symbol.core name) = true := by
    decide +kernel
  rcases List.any_eq_true.mp (List.all_eq_true.mp hlisted name hname) with ⟨entry, hentry, hcore⟩
  rcases (Collection.ofModules_cons_extends Core.module modules).entries with ⟨added, hadded, _⟩
  have hmem : entry ∈ (Collection.ofModules (Core.module :: modules)).entries := by
    rw [hadded]
    exact List.mem_append_left added hentry
  rcases Registration.registers_listed hr hproblems hmem with ⟨d, hd⟩
  rw [<- of_decide_eq_true hcore, Table.contains, hd]
  rfl

end Registry.DeclaredWithCore

theorem Registry.Declared.contains_union {registry : Registry} (h : registry.Declared)
    {name : Symbol} {d : Declaration} {m : Membership} (hd : Table.get? registry name = some d)
    (hm : d.memberOf = some m) : Table.contains registry m.union = true := by
  rcases h with ⟨limits, depth, modules, r, hr, hproblems, rfl⟩
  rcases Registration.builds_of_mem hr (Table.mem_of_get? hd) with
    ⟨k, entry, written, built, hat, hname, hbuild, hwritten⟩
  have hmember : Entry.membership? (Collection.ofModules modules).entries entry = some m := by
    rw [<- (Entry.build_fields hbuild).right.left, <- hm, hwritten]
    rfl
  rcases Entry.membership?_eq_some hmember with ⟨owner, union, _, hunion, rfl⟩
  rcases Registration.registers_listed hr hproblems (List.mem_of_getElem? hunion) with ⟨u, hu⟩
  rw [Table.contains, hu]
  rfl

/-!
## The standard of known names
-/

def Former.isNamed (registry : Registry) : Former -> Bool :=
  onParams (fun _ _ => true) (isKnown registry)

theorem Former.isNamed_of_isKnown {registry : Registry} {f : Former}
    (h : f.isKnown registry = true) : f.isNamed registry = true := by
  cases f with
  | param index inferring => rfl
  | _ => exact h

theorem Former.isNamed_of_isOver {registry : Registry} (f : Former)
    (h : f.isOver registry = true) : f.isNamed registry = true :=
  isNamed_of_isKnown (Bool.and_eq_true_iff.mp h).left

theorem Former.isUnmarked_of_isOver {registry : Registry} (f : Former)
    (h : f.isOver registry = true) : f.isUnmarked = true := by
  cases f with
  | param index inferring => exact (Bool.and_eq_true_iff.mp h).left
  | _ => rfl

theorem Former.isKnown_of_isNamed {registry : Registry} {f : Former}
    (hnamed : f.isNamed registry = true) (hunmarked : f.isUnmarked = true) :
    f.isKnown registry = true := by
  cases f with
  | param index inferring => exact hunmarked
  | _ => exact hnamed

theorem Ty.isNamed_of_isOverWith {registry : Registry} {n : Nat} {t : Ty}
    (h : t.isOverWith registry n = true) : t.everywhere (Former.isNamed registry) = true := by
  apply Ty.everywhere_mono _ h
  intro f hf
  cases f with
  | param index inferring => rfl
  | _ => exact Former.isNamed_of_isOver _ hf

namespace Standard

def named (registry : Registry) : Standard where
  former := Former.isNamed registry
  size _ := True

variable {registry : Registry} (h : registry.DeclaredWithCore)

include h

theorem named_suits : (named registry).Suits registry where
  bare f hf := by
    cases f with
    | named name given => cases hf
    | bundle fields => cases hf
    | _ => rfl
  literal name hname := h.contains_core (List.mem_append_left _ hname)
  wrapper name hname := h.contains_core (List.mem_append_right _ hname)
  boxed name d hd := by
    show Table.contains registry name = true
    rw [Table.contains, hd]
    rfl
  lifted name d m hd hm := h.declared.contains_union hd hm
  selected name d cases case args hd hcases hcase _ := by
    rcases h.declared.joins hd hcases hcase with ⟨c, m, hjoins⟩
    show Table.contains registry case.name = true
    rw [Table.contains, hjoins.registered]
    rfl
  renumbered declared typed _ _ := TypeScope.isPlain_bundleOf typed
  product _ _ := trivial

theorem named_ofRegistry (limits : Limits) : (named registry).OfRegistry limits registry where
  suits := named_suits h
  stores name d hd t ht :=
    Ty.everywhere_mono (fun _ => Former.isNamed_of_isKnown)
      (h.declared.lawful.known name d hd t ht)
  written ctx hctx depth expr t ht := by
    rcases TypeContext.resolve_ok ht with ⟨read, hread, rfl⟩
    have hwithin : (ctx.scope limits).Within registry := by
      intro name range hrange
      rcases Option.map_eq_some_iff.mp hrange with ⟨d, hd, _⟩
      rw [Table.contains, <- hctx, hd]
      rfl
    have hknown := TypeScope.isKnown_read hwithin hread
    rw [hctx]
    exact Ty.everywhere_mono (fun _ => Former.isNamed_of_isKnown)
      (h.declared.lawful.known.complete rfl (fun _ _ _ => rfl) hknown)

end Standard

/-!
## Bindings
-/

/-- A context without bounds over such a registry, where all names in scope have types over
it. -/
structure Context.IsOver (ctx : Context) : Prop where
  registry : ctx.registry.DeclaredWithCore
  bounds : ctx.bounds = {}
  names : ctx.Offers (Former.isOver ctx.registry)

namespace Context

variable {ctx : Context}

theorem Offers.mono {p q : Former -> Bool} (hmono : forall f, p f = true -> q f = true)
    (h : ctx.Offers p) : ctx.Offers q where
  functions f hf :=
    ⟨Ty.everywhere_mono hmono (h.functions f hf).left,
      Ty.everywhere_mono hmono (h.functions f hf).right⟩
  constants item hitem := Ty.everywhere_mono hmono (h.constants item hitem)
  locals item hitem := Ty.everywhere_mono hmono (h.locals item hitem)

theorem boundTypes_of_empty (h : ctx.bounds = {}) : ctx.boundTypes = [] := by
  rw [TypeContext.boundTypes, h]
  rfl

namespace IsOver

variable (h : ctx.IsOver)

include h

theorem ofContext : (Standard.named ctx.registry).OfContext ctx where
  suits := Standard.named_suits h.registry
  types := by
    constructor
    · exact (Standard.named_ofRegistry h.registry ctx.limits).stores
    · rw [boundTypes_of_empty h.bounds]
      exact List.forall_mem_nil _
  written depth expr :=
    ((Standard.named_ofRegistry h.registry ctx.limits).written _ rfl depth expr).mapError
  functions := (h.names.mono Former.isNamed_of_isOver).functions
  constants := (h.names.mono Former.isNamed_of_isOver).constants
  locals := (h.names.mono Former.isNamed_of_isOver).locals

theorem unmarked : ctx.Unmarked where
  types := by
    constructor
    · intro name d hd t ht
      have hknown := h.registry.declared.lawful.known name d hd t ht
      exact Ty.unmarked_iff.mpr (Ty.hasInferring_eq_false hknown)
    · rw [boundTypes_of_empty h.bounds]
      exact List.forall_mem_nil _
  names := h.names.mono Former.isUnmarked_of_isOver

/-- Settling the draft of an expression binds parameters to types whose names are declared
and which have no parameters being inferred. -/
theorem binds_known {m depth : Nat} {expr : Source.Expr} {draft : Draft}
    (hdraft : (draftExpr m ctx expr).outcome = some (.ok draft)) {expected : Ty}
    (hexpected : expected.everywhere (Former.isNamed ctx.registry) = true) {i j : Inference}
    (hi : i.Binds (Former.isKnown ctx.registry)) {term : Term}
    (hrun : (settleDraft depth ctx (some expected) draft).outcome i = some (.ok term, j)) :
    j.Binds (Former.isKnown ctx.registry) := by
  have hnamed : j.Binds (Former.isNamed ctx.registry) := by
    have hstandard := Standard.ofChecker_checkerAt (Standard.named ctx.registry)
    have hofDraft := (hstandard m).draft ctx expr h.ofContext (fun _ _ _ _ => trivial) draft hdraft
    have hsettle := (hstandard depth).settle i.arity ctx (some expected) draft h.ofContext
      (Standard.ofExpected_some hexpected) hofDraft
    have hbinds : i.Binds (Former.isNamed ctx.registry) := fun k slot hslot =>
      Ty.everywhere_mono (fun _ => Former.isNamed_of_isKnown) (hi k slot hslot)
    exact (hsettle i _ j ⟨hbinds, rfl⟩ hrun).left.left
  have hunmarked : j.Binds Former.isUnmarked := by
    have hofDraft := (confines_checkerAt m).draft ctx expr h.unmarked draft hdraft
    have hsettle := (confines_checkerAt depth).settle i ctx (some expected) draft h.unmarked
      hofDraft
    have hbinds : i.Binds Former.isUnmarked := fun k slot hslot =>
      Ty.unmarked_iff.mpr (Ty.hasInferring_eq_false (hi k slot hslot))
    exact (hsettle i _ j hbinds.keeps hrun).left.binds
  intro k slot hslot
  refine Ty.everywhere_mono ?_ (Ty.everywhere_and.mpr ⟨hnamed k slot hslot, hunmarked k slot hslot⟩)
  intro f hf
  rcases Bool.and_eq_true_iff.mp hf with ⟨hfnamed, hfunmarked⟩
  exact Former.isKnown_of_isNamed hfnamed hfunmarked

end IsOver
end Context

end TypeChecker
