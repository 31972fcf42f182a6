import TypeChecker.Proofs.Assign.Likeness
import TypeChecker.Proofs.Program.Offers

/-!
# Overloads in scope

A candidate enters a scope unless an earlier one of its name is already there that it
clashes with. Clashing is an equivalence, so of the module's own signatures a candidate
is left out exactly if any earlier one clashes with it, in scope or not.
-/

namespace TypeChecker

/-!
## Rivals
-/

namespace Signature

/-- Overloads of one name that could not be told apart. -/
structure Rivals (existing added : Signature) : Prop where
  name : existing.symbol.name = added.symbol.name
  clashes : existing.clashes added = true

def IsOrdered (s : Signature) : Prop := s.type.everywhere Former.isOrdered = true

def clash (module : String) (s : Signature) : Problem :=
  .signature { value := .overloadClash s.symbol.name module, span := s.span }

variable {a b c : Signature}

theorem clashes_iff (ha : a.IsOrdered) (hb : b.IsOrdered) :
    a.clashes b = true ↔ a.arity = b.arity ∧ a.type.bare = b.type.bare := by
  rw [clashes, Bool.and_eq_true, beq_iff_eq, Ty.alike_iff ha hb]

theorem Rivals.symm (ha : a.IsOrdered) (hb : b.IsOrdered) (h : a.Rivals b) : b.Rivals a := by
  rcases (clashes_iff ha hb).mp h.clashes with ⟨harity, htype⟩
  exact ⟨h.name.symm, (clashes_iff hb ha).mpr ⟨harity.symm, htype.symm⟩⟩

theorem Rivals.trans (ha : a.IsOrdered) (hb : b.IsOrdered) (hc : c.IsOrdered)
    (hab : a.Rivals b) (hbc : b.Rivals c) : a.Rivals c := by
  rcases (clashes_iff ha hb).mp hab.clashes with ⟨harity, htype⟩
  rcases (clashes_iff hb hc).mp hbc.clashes with ⟨harity', htype'⟩
  exact ⟨hab.name.trans hbc.name,
    (clashes_iff ha hc).mpr ⟨harity.trans harity', htype.trans htype'⟩⟩

end Signature

theorem Registry.Orderly.ordered {registry : Registry} (h : registry.Orderly) :
    registry.Stores Former.isOrdered :=
  fun name d hd t ht => Ty.everywhere_mono (fun _ => Former.isOrdered_of_isPlain)
    (h.plain name d hd t ht)

theorem TypeContext.resolve_isOrdered {ctx : TypeContext} {limits : Limits} {depth : Nat}
    (hstores : ctx.registry.Stores Former.isOrdered) (expr : Source.TypeExpr) :
    Judge.Ensures (ctx.resolve limits depth expr) fun t =>
      t.everywhere Former.isOrdered = true := by
  intro t ht
  rcases resolve_ok ht with ⟨written, hread, rfl⟩
  have hplain := TypeScope.everywhere_read (TypeScope.reads_isPlain _) rfl rfl (fun _ => rfl) hread
  refine hstores.complete rfl (fun _ _ _ => rfl) (Ty.everywhere_mono ?_ hplain)
  exact fun _ => Former.isOrdered_of_isPlain

namespace Scope

variable {registry : Registry} {limits : Limits} {depth : Nat}

theorem readFunction_isOrdered (hstores : registry.Stores Former.isOrdered) {module : String}
    {index : Nat} {decl : Source.FunctionDecl} :
    Judge.Ensures (readFunction registry limits depth module index decl) Signature.IsOrdered := by
  unfold readFunction
  dsimp only
  split
  · exact Judge.ensures_throw_bind _ _
  · refine (Judge.ensures_any _).bind fun params _ => ?_
    refine (Judge.ensures_any _).bind fun bounds _ => ?_
    refine (TypeContext.resolve_isOrdered hstores decl.input).mapError.bind fun input hinput => ?_
    refine (TypeContext.resolve_isOrdered hstores decl.output).mapError.bind
      fun output houtput => ?_
    refine Judge.ensures_pure (Ty.everywhere_iff.mpr ⟨rfl, ?_⟩)
    exact List.forall_mem_cons.mpr ⟨hinput, List.forall_mem_singleton.mpr houtput⟩

theorem isOrdered_of_mem_signatures (hstores : registry.Stores Former.isOrdered)
    {m : Source.Module} {s : Signature} (h : s ∈ signatures registry limits depth m) :
    s.IsOrdered := by
  rcases mem_signatures.mp h with ⟨place, hs⟩
  rcases signatureAt_eq_some.mp hs with ⟨decl, _, hread⟩
  exact readFunction_isOrdered hstores _ hread

theorem isOrdered_of_mem_candidates (hstores : registry.Stores Former.isOrdered)
    {module : Source.Module} {imported : List Source.Module} {s : Signature}
    (h : s ∈ candidates registry limits depth module imported) : s.IsOrdered := by
  rcases mem_candidates.mp h with hown | ⟨m, _, hpublic⟩
  · exact isOrdered_of_mem_signatures hstores hown
  · exact isOrdered_of_mem_signatures hstores (mem_publicSignatures.mp hpublic).left

/-!
## Adding one signature after another
-/

namespace Collected

variable {c : Collected} {s : Signature} {module : String}

/-- A signature is added unless it has a rival, and a rival of an own one is reported. -/
theorem addFunction_spec (c : Collected) (s : Signature) :
    ((forall t, t ∈ c.scope.functions -> ¬ t.Rivals s) ∧
      c.addFunction s =
        { c with scope := { c.scope with functions := c.scope.functions ++ [s] } }) ∨
    exists t, t ∈ c.scope.functions ∧ t.Rivals s ∧
      c.addFunction s =
        if s.symbol.module = c.scope.module then c.report
          { value := .overloadClash s.symbol.name t.symbol.module, span := s.span }
        else c := by
  unfold addFunction
  split
  · rename_i hnone
    refine Or.inl ⟨?_, rfl⟩
    intro t ht hrivals
    have hoverload : t ∈ c.scope.overloads s.symbol.name :=
      List.mem_filter.mpr ⟨ht, beq_iff_eq.mpr hrivals.name⟩
    exact List.find?_eq_none.mp hnone t hoverload hrivals.clashes
  · rename_i t hfound
    have hmem := List.mem_filter.mp (List.mem_of_find?_eq_some hfound)
    have hclashes := List.find?_some hfound
    exact Or.inr ⟨t, hmem.left, ⟨beq_iff_eq.mp hmem.right, hclashes⟩, rfl⟩

theorem functions_addFunction (c : Collected) (s : Signature) :
    ((forall t, t ∈ c.scope.functions -> ¬ t.Rivals s) ∧
      (c.addFunction s).scope.functions = c.scope.functions ++ [s]) ∨
    (exists t, t ∈ c.scope.functions ∧ t.Rivals s) ∧
      (c.addFunction s).scope = c.scope := by
  rcases addFunction_spec c s with ⟨hfree, hadd⟩ | ⟨t, ht, hrivals, hadd⟩
  · exact Or.inl ⟨hfree, by rw [hadd]⟩
  · refine Or.inr ⟨⟨t, ht, hrivals⟩, ?_⟩
    rw [hadd]
    split
    · rfl
    · rfl

theorem admitting_append_singleton (added : List Signature) (s : Signature) :
    admitting module (added ++ [s]) = (admitting module added).addFunction s := by
  rw [admitting, List.foldl_append]
  rfl

theorem module_admitting (added : List Signature) :
    (admitting module added).scope.module = module :=
  module_foldl_addFunction added _

theorem functions_foldl_addFunction (added : List Signature) (c : Collected) :
    exists more, more.Sublist added ∧
      (added.foldl addFunction c).scope.functions = c.scope.functions ++ more := by
  induction added generalizing c with
  | nil => exact ⟨[], .slnil, (List.append_nil _).symm⟩
  | cons s added ih =>
      rcases ih (c.addFunction s) with ⟨more, hmore, hfunctions⟩
      rw [List.foldl_cons, hfunctions]
      rcases functions_addFunction c s with ⟨_, hadd⟩ | ⟨_, hkeep⟩
      · exact ⟨s :: more, hmore.cons_cons s, by rw [hadd, List.append_assoc, List.singleton_append]⟩
      · exact ⟨more, hmore.cons s, by rw [hkeep]⟩

theorem functions_admitting_append (module : String) (before after : List Signature) :
    exists more, more.Sublist after ∧
      (admitting module (before ++ after)).scope.functions =
        (admitting module before).scope.functions ++ more := by
  rw [admitting, List.foldl_append]
  exact functions_foldl_addFunction after _

theorem functions_sublist (added : List Signature) :
    (admitting module added).scope.functions.Sublist added := by
  rcases functions_foldl_addFunction added { scope := { module := module } } with
    ⟨more, hmore, hfunctions⟩
  rw [admitting, hfunctions]
  exact hmore

theorem functions_free (added : List Signature) :
    (admitting module added).scope.functions.Pairwise fun a b => ¬ a.Rivals b := by
  induction added using List.reverseRecOn with
  | nil => exact .nil
  | append_singleton added s ih =>
      rw [admitting_append_singleton]
      rcases functions_addFunction (admitting module added) s with ⟨hfree, hadd⟩ | ⟨_, hkeep⟩
      · rw [hadd, List.pairwise_append]
        refine ⟨ih, List.pairwise_singleton _ _, ?_⟩
        intro t ht x hx
        rw [List.mem_singleton.mp hx]
        exact hfree t ht
      · rw [hkeep]
        exact ih

theorem mem_functions_or_rival {added : List Signature} {t : Signature} (ht : t ∈ added) :
    t ∈ (admitting module added).scope.functions ∨
      exists x, x ∈ (admitting module added).scope.functions ∧ x.Rivals t := by
  induction added using List.reverseRecOn with
  | nil => cases ht
  | append_singleton added s ih =>
      rcases functions_admitting_append module added [s] with ⟨more, _, hgrows⟩
      rcases List.mem_append.mp ht with hold | hnew
      · rw [hgrows]
        rcases ih hold with hmem | ⟨x, hx, hrivals⟩
        · exact Or.inl (List.mem_append_left _ hmem)
        · exact Or.inr ⟨x, List.mem_append_left _ hx, hrivals⟩
      · rw [List.mem_singleton.mp hnew, admitting_append_singleton]
        rcases functions_addFunction (admitting module added) s with
          ⟨_, hadd⟩ | ⟨hrival, hkeep⟩
        · rw [hadd]
          exact Or.inl (List.mem_append_right _ List.mem_cons_self)
        · rw [hkeep]
          exact Or.inr hrival

section

variable {before after : List Signature}

theorem mem_functions_before (hdistinct : (before ++ after).Pairwise Distinct) {t : Signature} :
    t ∈ (admitting module before).scope.functions ↔
      t ∈ (admitting module (before ++ after)).scope.functions ∧ t ∈ before := by
  rcases functions_admitting_append module before after with ⟨more, hmore, hgrows⟩
  rw [hgrows]
  constructor
  · exact fun ht => ⟨List.mem_append_left _ ht, (functions_sublist before).subset ht⟩
  · rintro ⟨ht, hbefore⟩
    rcases List.mem_append.mp ht with hold | hnew
    · exact hold
    · have hapart := (List.pairwise_append.mp hdistinct).right.right t hbefore t (hmore.subset hnew)
      exact absurd rfl hapart

/-- A candidate is in scope unless it has a rival there that was added before. -/
theorem not_mem_functions_iff (hdistinct : (before ++ s :: after).Pairwise Distinct) :
    s ∉ (admitting module (before ++ s :: after)).scope.functions ↔
      exists t, t ∈ (admitting module before).scope.functions ∧ t.Rivals s := by
  have hs : s ∉ (admitting module before).scope.functions := by
    intro hmem
    have hapart := (List.pairwise_append.mp hdistinct).right.right s
      ((functions_sublist before).subset hmem) s List.mem_cons_self
    exact absurd rfl hapart
  rw [List.append_cons] at hdistinct ⊢
  have hmem : s ∈ (admitting module (before ++ [s] ++ after)).scope.functions ↔
      s ∈ (admitting module (before ++ [s])).scope.functions := by
    rw [mem_functions_before hdistinct, and_iff_left (List.mem_append_right _ List.mem_cons_self)]
  rw [hmem, admitting_append_singleton]
  rcases functions_addFunction (admitting module before) s with ⟨hfree, hadd⟩ | ⟨hrival, hkeep⟩
  · rw [hadd]
    constructor
    · exact fun hnot => absurd (List.mem_append_right _ List.mem_cons_self) hnot
    · rintro ⟨t, ht, hrivals⟩
      exact absurd hrivals (hfree t ht)
  · rw [hkeep]
    exact ⟨fun _ => hrival, fun _ => hs⟩

end

end Collected

/-!
## Looking up own overloads
-/

theorem own?_eq (scope : Scope) (name : String) (index : Nat) :
    scope.own? name index = scope.functions.find? fun t =>
      decide ((t.symbol, t.index) = (⟨scope.module, name⟩, index)) := by
  rw [own?, overloads, List.find?_filter]
  congr 1
  funext t
  rw [Bool.eq_iff_iff]
  rcases hsymbol : t.symbol with ⟨module, shown⟩
  simp only [Bool.and_eq_true, beq_iff_eq, decide_eq_true_eq, Prod.mk.injEq, Symbol.mk.injEq]
  constructor
  · rintro ⟨hname, hmodule, hindex⟩
    exact ⟨⟨hmodule, hname⟩, hindex⟩
  · rintro ⟨⟨hmodule, hname⟩, hindex⟩
    exact ⟨hname, hmodule, hindex⟩

theorem own?_eq_some_iff {scope : Scope} (hdistinct : scope.functions.Pairwise Distinct)
    {name : String} {index : Nat} {s : Signature} :
    scope.own? name index = some s ↔
      s ∈ scope.functions ∧ (s.symbol, s.index) = (⟨scope.module, name⟩, index) := by
  have hsound : forall t, scope.own? name index = some t ->
      t ∈ scope.functions ∧ (t.symbol, t.index) = (⟨scope.module, name⟩, index) := by
    intro t ht
    rw [own?_eq] at ht
    have hkey := List.find?_some ht
    exact ⟨List.mem_of_find?_eq_some ht, of_decide_eq_true hkey⟩
  constructor
  · exact hsound s
  · rintro ⟨hs, hkey⟩
    cases hfound : scope.own? name index with
    | none =>
        rw [own?_eq, List.find?_eq_none] at hfound
        exact absurd (decide_eq_true hkey) (hfound s hs)
    | some t =>
        rcases hsound t hfound with ⟨ht, hkey'⟩
        rw [eq_of_not_distinct hdistinct ht hs (hkey'.trans hkey.symm)]

/-!
## Clashes that are reported
-/

namespace Collected

variable {module : String}

/-- Candidates of the module itself that did not come into scope. -/
def missing (scope : Scope) (added : List Signature) : List Signature :=
  added.filter fun s =>
    s.symbol.module == scope.module && (scope.own? s.symbol.name s.index).isNone

theorem missing_append (scope : Scope) (added more : List Signature) :
    missing scope (added ++ more) = missing scope added ++ missing scope more :=
  List.filter_append _ _

theorem missing_addFunction {c : Collected} {s : Signature} {added : List Signature}
    (hdistinct : forall t, t ∈ added -> Distinct t s) :
    missing (c.addFunction s).scope added = missing c.scope added := by
  rcases functions_addFunction c s with ⟨_, hadd⟩ | ⟨_, hkeep⟩
  · refine List.filter_congr fun t ht => ?_
    rw [module_addFunction]
    by_cases hmodule : t.symbol.module = c.scope.module
    · have hsymbol : t.symbol = ⟨c.scope.module, t.symbol.name⟩ := by rw [<- hmodule]
      have hother : (s.symbol, s.index) ≠ (⟨c.scope.module, t.symbol.name⟩, t.index) := by
        rw [<- hsymbol]
        exact (hdistinct t ht).symm
      rw [own?_eq, own?_eq, module_addFunction, hadd, List.find?_append, List.find?_singleton,
        decide_eq_false hother, if_neg Bool.false_ne_true, Option.or_none]
    · rw [beq_false_of_ne hmodule, Bool.false_and, Bool.false_and]
  · rw [hkeep]

theorem missing_singleton_of_mem {scope : Scope} {s : Signature} (hs : s ∈ scope.functions) :
    missing scope [s] = [] := by
  refine List.filter_eq_nil_iff.mpr ?_
  intro t ht hmissing
  rw [List.mem_singleton.mp ht, Bool.and_eq_true, beq_iff_eq, Option.isNone_iff_eq_none, own?_eq,
    List.find?_eq_none] at hmissing
  rw [<- hmissing.left] at hmissing
  exact hmissing.right s hs (decide_eq_true rfl)

theorem missing_singleton_of_distinct {scope : Scope} {s : Signature}
    (hmodule : s.symbol.module = scope.module)
    (hs : forall t, t ∈ scope.functions -> Distinct t s) : missing scope [s] = [s] := by
  refine List.filter_eq_self.mpr ?_
  intro t ht
  rw [List.mem_singleton.mp ht, Bool.and_eq_true, beq_iff_eq, Option.isNone_iff_eq_none, own?_eq,
    List.find?_eq_none]
  refine ⟨hmodule, ?_⟩
  intro x hx hsame
  rw [<- hmodule] at hsame
  exact hs x hx (of_decide_eq_true hsame)

theorem missing_singleton_of_module {scope : Scope} {s : Signature}
    (hmodule : s.symbol.module ≠ scope.module) : missing scope [s] = [] := by
  refine List.filter_eq_nil_iff.mpr ?_
  intro t ht hmissing
  rw [List.mem_singleton.mp ht, Bool.and_eq_true, beq_iff_eq] at hmissing
  exact hmodule hmissing.left

theorem problems_addFunction {c : Collected} {s : Signature}
    (hs : forall t, t ∈ c.scope.functions -> Distinct t s)
    (hown : s.symbol.module = c.scope.module ->
      forall t, t ∈ c.scope.functions -> t.symbol.module = c.scope.module) :
    (c.addFunction s).problems =
      c.problems ++ (missing (c.addFunction s).scope [s]).map (Signature.clash c.scope.module) := by
  rcases addFunction_spec c s with ⟨_, hadd⟩ | ⟨t, ht, _, hadd⟩
  · rw [hadd, missing_singleton_of_mem (List.mem_append_right _ List.mem_cons_self),
      List.map_nil, List.append_nil]
  · by_cases hmodule : s.symbol.module = c.scope.module
    · rw [if_pos hmodule, hown hmodule t ht] at hadd
      have hmissing : missing (c.addFunction s).scope [s] = [s] := by
        rw [hadd]
        exact missing_singleton_of_distinct hmodule hs
      rw [hmissing, hadd]
      rfl
    · rw [if_neg hmodule] at hadd
      rw [hadd, missing_singleton_of_module hmodule, List.map_nil, List.append_nil]

theorem problems_admitting {added : List Signature} (hdistinct : added.Pairwise Distinct)
    (hfirst : added.Pairwise fun a b => b.symbol.module = module -> a.symbol.module = module) :
    (admitting module added).problems =
      (missing (admitting module added).scope added).map (Signature.clash module) := by
  -- from the end: adding `s` decides whether `s` is missing, and nothing about the others
  induction added using List.reverseRecOn with
  | nil => rfl
  | append_singleton added s ih =>
      rcases List.pairwise_append.mp hdistinct with ⟨hbefore, _, hnew⟩
      rcases List.pairwise_append.mp hfirst with ⟨hfirst, _, hown⟩
      have hs : forall t, t ∈ added -> Distinct t s := fun t ht => hnew t ht s List.mem_cons_self
      have hmem : forall t, t ∈ (admitting module added).scope.functions -> t ∈ added :=
        fun t ht => (functions_sublist added).subset ht
      have hlast := problems_addFunction (fun t ht => hs t (hmem t ht)) (by
        rw [module_admitting]
        exact fun hmodule t ht => hown t (hmem t ht) s List.mem_cons_self hmodule)
      rw [module_admitting] at hlast
      rw [admitting_append_singleton, hlast, ih hbefore hfirst, <- missing_addFunction hs,
        <- List.map_append, <- missing_append]

end Collected

/-!
## The overloads of a collected scope
-/

open Collected (admitting)

section

variable (registry : Registry) (limits : Limits) (depth : Nat)

/-- The scope of a module holds the right overloads, and the right clashes are reported. -/
structure HoldsOverloads (module : Source.Module) (imported : List Source.Module)
    (c : Collected) : Prop where
  /-- No two overloads of a name are of one declaration. -/
  distinct : forall name,
    ((c.scope.overloads name).map fun s => (s.symbol.module, s.index)).Nodup
  /-- No two overloads of a name have the same arity and types that are alike. -/
  apart : forall name, (c.scope.overloads name).Pairwise fun a b =>
    a.clashes b = false ∧ b.clashes a = false
  /-- The overloads the module declares come before those it imports. -/
  ownFirst : forall name, (c.scope.overloads name).Pairwise fun a b =>
    b.symbol.module = module.name -> a.symbol.module = module.name
  /-- A valid signature of the module is missing exactly if an earlier one clashes with it. -/
  own : forall place s, signatureAt registry limits depth module place = some s ->
    (s ∉ c.scope.functions ↔ exists earlier t, earlier < place ∧
      signatureAt registry limits depth module earlier = some t ∧ t.Rivals s)
  /-- One clash is reported for each valid signature of the module that is missing. -/
  reported : c.problems.filter Problem.isOverloadClash =
    ((signatures registry limits depth module).filter fun s =>
      (c.scope.own? s.symbol.name s.index).isNone).map (Signature.clash module.name)
  /-- A valid public signature of an imported module is missing exactly if one in scope
  clashes with it that is of the module, of a module imported before, or of an earlier place. -/
  offered : forall i other place s, imported[i]? = some other ->
    signatureAt registry limits depth other place = some s -> s.isPublic = true ->
      (s ∉ c.scope.functions ↔ exists t, t ∈ c.scope.functions ∧ t.Rivals s ∧
        ((exists m, m ∈ module :: imported.take i ∧ t.symbol.module = m.name) ∨
          exists earlier, earlier < place ∧
            signatureAt registry limits depth other earlier = some t))
  /-- No private declaration of an imported module is in scope. -/
  hidden : forall m place decl, m ∈ imported -> m.functions[place]? = some decl ->
    decl.isPublic = false -> forall s, s ∈ c.scope.functions ->
      (s.symbol, s.index) ≠ (⟨m.name, decl.name.name⟩, countBefore m place decl.name.name)
  /-- Every overload is read from the declaration that its index gives among those of its
  name, and that one is of the module itself or public. -/
  indexed : forall s, s ∈ c.scope.functions -> exists m decl, m ∈ module :: imported ∧
    (m.functions.filter fun d => d.name.name == s.symbol.name)[s.index]? = some decl ∧
      (readFunction registry limits depth m.name s.index decl).outcome = some (.ok s) ∧
        (m = module ∨ decl.isPublic = true)
  /-- An own overload is found by name and index exactly if it is in scope and read from the
  declaration they give. -/
  found : forall name index s, c.scope.own? name index = some s ↔
    s ∈ c.scope.functions ∧ exists decl,
      (module.functions.filter fun d => d.name.name == name)[index]? = some decl ∧
        (readFunction registry limits depth module.name index decl).outcome = some (.ok s)

end

section

variable {module : Source.Module} {imported : List Source.Module} {c : Collected}

theorem functions_collect (h : collect registry limits depth module imported = some c) :
    c.scope.functions = (admitting module.name
      (candidates registry limits depth module imported)).scope.functions := by
  rw [<- outline_collect h]
  rfl

theorem module_collect (h : collect registry limits depth module imported = some c) :
    c.scope.module = module.name := by
  show c.outline.scope.module = module.name
  rw [outline_collect h, Collected.module_admitting]

theorem mem_candidates_of_collect (h : collect registry limits depth module imported = some c)
    {s : Signature} (hs : s ∈ c.scope.functions) :
    s ∈ candidates registry limits depth module imported := by
  rw [functions_collect h] at hs
  exact (Collected.functions_sublist _).subset hs

theorem overloads_apart (h : collect registry limits depth module imported = some c)
    (hstores : registry.Stores Former.isOrdered) (name : String) :
    (c.scope.overloads name).Pairwise fun a b => a.clashes b = false ∧ b.clashes a = false := by
  have hfree : c.scope.functions.Pairwise fun a b => ¬ a.Rivals b := by
    rw [functions_collect h]
    exact Collected.functions_free _
  refine (hfree.filter _).imp_of_mem ?_
  intro a b ha hb hrivals
  rcases List.mem_filter.mp ha with ⟨ha, hname⟩
  rcases List.mem_filter.mp hb with ⟨hb, hname'⟩
  have hname : a.symbol.name = b.symbol.name := by
    rw [beq_iff_eq.mp hname, beq_iff_eq.mp hname']
  have haOrdered := isOrdered_of_mem_candidates hstores (mem_candidates_of_collect h ha)
  have hbOrdered := isOrdered_of_mem_candidates hstores (mem_candidates_of_collect h hb)
  constructor
  · exact Bool.eq_false_iff.mpr fun hclashes => hrivals ⟨hname, hclashes⟩
  · refine Bool.eq_false_iff.mpr fun hclashes => hrivals ?_
    exact Signature.Rivals.symm hbOrdered haOrdered ⟨hname.symm, hclashes⟩

theorem exists_declaration (h : collect registry limits depth module imported = some c)
    {s : Signature} (hs : s ∈ c.scope.functions) :
    exists m decl, m ∈ module :: imported ∧
      (m.functions.filter fun d => d.name.name == s.symbol.name)[s.index]? = some decl ∧
        (readFunction registry limits depth m.name s.index decl).outcome = some (.ok s) ∧
          (m = module ∨ decl.isPublic = true) := by
  rcases exists_signatureAt (mem_candidates_of_collect h hs) with ⟨m, place, hm, hplace, hvisible⟩
  rcases signatureAt_eq_some.mp hplace with ⟨decl, hdecl, hread⟩
  have htaken := readFunction_takenFrom _ hread
  rw [htaken.isPublic] at hvisible
  rw [<- htaken.index] at hread
  refine ⟨m, decl, hm, ?_, hread, hvisible⟩
  rw [htaken.symbol, htaken.index]
  exact getElem?_filter_countBefore hdecl

variable (hnames : ((module :: imported).map Source.Module.name).Nodup)
  (h : collect registry limits depth module imported = some c)

include hnames h

theorem functions_distinct : c.scope.functions.Pairwise Distinct := by
  rw [functions_collect h]
  exact (candidates_distinct hnames).sublist (Collected.functions_sublist _)

theorem overloads_distinct (name : String) :
    ((c.scope.overloads name).map fun s => (s.symbol.module, s.index)).Nodup := by
  refine List.pairwise_map.mpr (((functions_distinct hnames h).filter _).imp_of_mem ?_)
  intro a b ha hb hdistinct hsame
  rw [Prod.mk.injEq] at hsame
  have hname : a.symbol.name = b.symbol.name := by
    rw [beq_iff_eq.mp (List.mem_filter.mp ha).right, beq_iff_eq.mp (List.mem_filter.mp hb).right]
  exact not_distinct hsame.left hname hsame.right hdistinct

theorem overloads_own_first (name : String) :
    (c.scope.overloads name).Pairwise fun a b =>
      b.symbol.module = module.name -> a.symbol.module = module.name := by
  rw [overloads, functions_collect h]
  exact ((candidates_own_first hnames).sublist (Collected.functions_sublist _)).filter _

theorem own_missing_iff (hstores : registry.Stores Former.isOrdered) {place : Nat} {s : Signature}
    (hs : signatureAt registry limits depth module place = some s) :
    s ∉ c.scope.functions ↔ exists earlier t, earlier < place ∧
      signatureAt registry limits depth module earlier = some t ∧ t.Rivals s := by
  rcases signatures_split hs with ⟨after, hsplit⟩
  have hcandidates : (candidates registry limits depth module imported).Pairwise Distinct :=
    candidates_distinct hnames
  rw [functions_collect h]
  rw [candidates, hsplit, List.append_assoc, List.cons_append] at hcandidates ⊢
  rw [Collected.not_mem_functions_iff hcandidates]
  have hordered : forall t, t ∈ signatures registry limits depth module -> t.IsOrdered :=
    fun t ht => isOrdered_of_mem_signatures hstores ht
  constructor
  · rintro ⟨t, ht, hrivals⟩
    have hbefore := (Collected.functions_sublist _).subset ht
    rcases mem_filterMap_range.mp hbefore with ⟨earlier, hlt, hearlier⟩
    exact ⟨earlier, t, hlt, hearlier, hrivals⟩
  · rintro ⟨earlier, t, hlt, hearlier, hrivals⟩
    rcases Collected.mem_functions_or_rival (mem_filterMap_range.mpr ⟨earlier, hlt, hearlier⟩)
      with hin | ⟨x, hx, hbetween⟩
    · exact ⟨t, hin, hrivals⟩
    · -- `t` was left out for `x`, and clashing is transitive
      have hbefore := (Collected.functions_sublist _).subset hx
      rcases mem_filterMap_range.mp hbefore with ⟨_, _, hplace⟩
      refine ⟨x, hx, Signature.Rivals.trans (hordered x (mem_signatures.mpr ⟨_, hplace⟩))
        (hordered t (mem_signatures.mpr ⟨_, hearlier⟩))
        (hordered s (mem_signatures.mpr ⟨_, hs⟩)) hbetween hrivals⟩

theorem missing_candidates :
    Collected.missing c.scope (candidates registry limits depth module imported) =
      (signatures registry limits depth module).filter fun s =>
        (c.scope.own? s.symbol.name s.index).isNone := by
  have hother : Collected.missing c.scope
      (imported.flatMap (publicSignatures registry limits depth)) = [] := by
    refine List.filter_eq_nil_iff.mpr fun s hs hmissing => ?_
    rcases List.mem_flatMap.mp hs with ⟨m, hm, hs⟩
    rw [Bool.and_eq_true, beq_iff_eq, module_collect h] at hmissing
    exact module_ne_of_imported hnames hm hs hmissing.left
  rw [candidates, Collected.missing_append, hother, List.append_nil]
  refine List.filter_congr fun s hs => ?_
  rw [module_of_mem_signatures hs, module_collect h, beq_self_eq_true, Bool.true_and]

theorem clashes_reported : c.problems.filter Problem.isOverloadClash =
    ((signatures registry limits depth module).filter fun s =>
      (c.scope.own? s.symbol.name s.index).isNone).map (Signature.clash module.name) := by
  have hproblems : c.outline.problems = (Collected.missing c.outline.scope
      (candidates registry limits depth module imported)).map (Signature.clash module.name) := by
    rw [outline_collect h]
    exact Collected.problems_admitting (candidates_distinct hnames) (candidates_own_first hnames)
  rw [<- missing_candidates hnames h]
  exact hproblems

theorem hidden_of_private {m : Source.Module} {place : Nat} {decl : Source.FunctionDecl}
    (hm : m ∈ imported) (hdecl : m.functions[place]? = some decl) (hprivate : decl.isPublic = false)
    {s : Signature} (hs : s ∈ c.scope.functions) :
    (s.symbol, s.index) ≠ (⟨m.name, decl.name.name⟩, countBefore m place decl.name.name) := by
  intro hsame
  rw [Prod.mk.injEq] at hsame
  rcases exists_signatureAt (mem_candidates_of_collect h hs) with
    ⟨m', place', hm', hplace, hvisible⟩
  rcases signatureAt_eq_some.mp hplace with ⟨decl', hdecl', hread⟩
  have htaken := readFunction_takenFrom _ hread
  have hsymbol := htaken.symbol.symm.trans hsame.left
  have hindex := htaken.index.symm.trans hsame.right
  rw [Symbol.mk.injEq] at hsymbol
  cases eq_of_name_eq hnames hm' (List.mem_cons_of_mem _ hm) hsymbol.left
  rw [hsymbol.right] at hindex
  cases place_eq hdecl' hdecl hsymbol.right hindex
  cases hdecl.symm.trans hdecl'
  rcases hvisible with rfl | hpublic
  · rw [List.map_cons, List.nodup_cons] at hnames
    exact hnames.left (List.mem_map_of_mem hm)
  · rw [htaken.isPublic, hprivate] at hpublic
    cases hpublic

theorem own?_iff_declaration {name : String} {index : Nat} {s : Signature} :
    c.scope.own? name index = some s ↔
      s ∈ c.scope.functions ∧ exists decl,
        (module.functions.filter fun d => d.name.name == name)[index]? = some decl ∧
          (readFunction registry limits depth module.name index decl).outcome = some (.ok s) := by
  rw [own?_eq_some_iff (functions_distinct hnames h), module_collect h, Prod.mk.injEq]
  constructor
  · rintro ⟨hs, hsymbol, hindex⟩
    refine ⟨hs, ?_⟩
    rcases exists_declaration h hs with ⟨m, decl, hm, hdecl, hread, _⟩
    have hmodule := (readFunction_takenFrom _ hread).symbol
    rw [hsymbol, Symbol.mk.injEq] at hmodule
    cases eq_of_name_eq hnames hm List.mem_cons_self hmodule.left.symm
    rw [hsymbol, hindex] at hdecl
    rw [hindex] at hread
    exact ⟨decl, hdecl, hread⟩
  · rintro ⟨hs, decl, hdecl, hread⟩
    have htaken := readFunction_takenFrom _ hread
    have hname := (List.mem_filter.mp (List.mem_of_getElem? hdecl)).right
    rw [beq_iff_eq] at hname
    exact ⟨hs, hname ▸ htaken.symbol, htaken.index⟩

/-- Of what is in scope, the candidates before a place of an imported module are those of the
module, of the modules imported before, and of earlier places. -/
theorem mem_before_iff {i place : Nat} {other : Source.Module} {t : Signature}
    (ht : t ∈ c.scope.functions) :
    t ∈ candidates registry limits depth module (imported.take i) ++
        ((List.range place).filterMap (signatureAt registry limits depth other)).filter
          Signature.isPublic ↔
      (exists m, m ∈ module :: imported.take i ∧ t.symbol.module = m.name) ∨
        exists earlier, earlier < place ∧
          signatureAt registry limits depth other earlier = some t := by
  have hcandidate := mem_candidates_of_collect h ht
  rw [List.mem_append, List.mem_filter, mem_filterMap_range]
  constructor
  · rintro (hbefore | ⟨hearlier, _⟩)
    · rcases exists_signatureAt hbefore with ⟨m, place, hm, hplace, _⟩
      exact Or.inl ⟨m, hm, module_of_mem_signatures (mem_signatures.mpr ⟨place, hplace⟩)⟩
    · exact Or.inr hearlier
  · rintro (⟨m, hm, hmodule⟩ | ⟨earlier, hlt, hearlier⟩)
    · rcases exists_signatureAt hcandidate with ⟨m', place, hm', hplace, hvisible⟩
      have hmem := mem_signatures.mpr ⟨place, hplace⟩
      have hsame : m' = m := by
        refine eq_of_name_eq hnames hm' ?_ ?_
        · exact List.mem_cons.mpr ((List.mem_cons.mp hm).imp_right List.mem_of_mem_take)
        · rw [<- module_of_mem_signatures hmem, hmodule]
      cases hsame
      refine Or.inl (mem_candidates.mpr ?_)
      rcases hvisible with rfl | hpublic
      · exact Or.inl hmem
      · rcases List.mem_cons.mp hm with rfl | hm
        · exact Or.inl hmem
        · exact Or.inr ⟨_, hm, mem_publicSignatures.mpr ⟨hmem, hpublic⟩⟩
    · have hmem := mem_signatures.mpr ⟨earlier, hearlier⟩
      rcases mem_candidates.mp hcandidate with hown | ⟨m, _, hpublic⟩
      · exact Or.inl (mem_candidates.mpr (Or.inl hown))
      · exact Or.inr ⟨⟨earlier, hlt, hearlier⟩, (mem_publicSignatures.mp hpublic).right⟩

theorem offered_missing_iff {i place : Nat} {other : Source.Module} {s : Signature}
    (hother : imported[i]? = some other)
    (hs : signatureAt registry limits depth other place = some s) (hpublic : s.isPublic = true) :
    s ∉ c.scope.functions ↔ exists t, t ∈ c.scope.functions ∧ t.Rivals s ∧
      ((exists m, m ∈ module :: imported.take i ∧ t.symbol.module = m.name) ∨
        exists earlier, earlier < place ∧
          signatureAt registry limits depth other earlier = some t) := by
  have hdistinct : (candidates registry limits depth module imported).Pairwise Distinct :=
    candidates_distinct hnames
  have hfunctions := functions_collect h
  rcases candidates_split hother hs hpublic with ⟨after, hsplit⟩
  rw [hsplit] at hdistinct hfunctions
  rw [hfunctions, Collected.not_mem_functions_iff hdistinct, <- hfunctions]
  refine exists_congr fun t => ?_
  rw [Collected.mem_functions_before hdistinct, <- hfunctions]
  constructor
  · rintro ⟨⟨ht, hbefore⟩, hrivals⟩
    exact ⟨ht, hrivals, (mem_before_iff hnames h ht).mp hbefore⟩
  · rintro ⟨ht, hrivals, hbefore⟩
    exact ⟨⟨ht, (mem_before_iff hnames h ht).mpr hbefore⟩, hrivals⟩

end

/-- Where the types of a registry list the fields of bundles in order, as all types do that
are read, the scope of a module holds the right overloads. -/
theorem scope_holds_overloads {registry : Registry} {limits : Limits} {depth : Nat}
    {module : Source.Module} {imported : List Source.Module} {c : Collected}
    (hstores : registry.Stores Former.isOrdered)
    (hnames : ((module :: imported).map Source.Module.name).Nodup)
    (h : collect registry limits depth module imported = some c) :
    HoldsOverloads registry limits depth module imported c where
  distinct := overloads_distinct hnames h
  apart := overloads_apart h hstores
  ownFirst := overloads_own_first hnames h
  own _ _ hs := own_missing_iff hnames h hstores hs
  reported := clashes_reported hnames h
  offered _ _ _ _ hother hs hpublic := offered_missing_iff hnames h hother hs hpublic
  hidden _ _ _ hm hdecl hprivate _ hs := hidden_of_private hnames h hm hdecl hprivate hs
  indexed _ hs := exists_declaration h hs
  found _ _ _ := own?_iff_declaration hnames h

def overloadDecl (isPublic : Bool) (input output : Source.TypeNode) : Source.FunctionDecl where
  name := { name := "f" }
  isPublic := isPublic
  input := { value := input }
  output := { value := output }
  body := .native "f"

def numberFields (names : List String) : Source.TypeNode :=
  .bundle (names.map fun name => ({ name := name }, { value := .ref { name := "Num" } [] }))

def crowdedModule : Source.Module where
  name := "Main"
  types := [.native { name := { name := "Num" } }]
  functions := [
    overloadDecl true (.tuple []) (.tuple []),
    overloadDecl false (.tuple []) (.tuple []),
    overloadDecl false (numberFields ["x", "y"]) (.tuple []),
    overloadDecl true (numberFields ["y", "x"]) (.tuple [])]

def importedModule : Source.Module where
  name := "Lib"
  functions := [
    overloadDecl true (.tuple []) (.tuple []),
    overloadDecl false (.ref { name := "any" } []) (.tuple []),
    overloadDecl true (.ref { name := "any" } []) (.ref { name := "any" } [])]

theorem crowded_scope_holds_overloads :
    exists r c, Registration.ofModules {} 8 [crowdedModule, importedModule] = some r ∧
      collect r.registry {} 8 crowdedModule [importedModule] = some c ∧
      (c.scope.overloads "f").map (fun s => (s.symbol.module, s.index)) =
        [("Main", 0), ("Main", 2), ("Lib", 2)] ∧
      c.problems.length = 2 ∧
      HoldsOverloads r.registry {} 8 crowdedModule [importedModule] c := by
  have hrun : ((Registration.ofModules {} 8 [crowdedModule, importedModule]).bind fun r =>
      (collect r.registry {} 8 crowdedModule [importedModule]).map fun c =>
        ((c.scope.overloads "f").map (fun s => (s.symbol.module, s.index)), c.problems.length)) =
      some ([("Main", 0), ("Main", 2), ("Lib", 2)], 2) := by decide +kernel
  rcases Option.bind_eq_some_iff.mp hrun with ⟨r, hr, hcollect⟩
  rcases Option.map_eq_some_iff.mp hcollect with ⟨c, hc, hshown⟩
  rw [Prod.mk.injEq] at hshown
  exact ⟨r, c, hr, hc, hshown.left, hshown.right,
    scope_holds_overloads (Registration.orderly hr).ordered (by decide) hc⟩

end Scope
end TypeChecker
