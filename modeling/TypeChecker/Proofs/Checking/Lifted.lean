import TypeChecker.Checking.Branching
import TypeChecker.Proofs.Registry.Registered

/-!
# Lifted values select their case

A union lists its cases, and every case knows its place there and which parameters of
the union its own stand for. The two accounts agree. So a value of a case type that is
lifted into its union is found again by the branch for the case, at the type it had.
-/

namespace TypeChecker

/-!
## Unions and their cases
-/

namespace Entry

variable {entries : List Entry} {limits : Limits}

theorem findIdx?_casesOf (hdistinct : (entries.map Entry.symbol).Nodup) {entry : Entry}
    (hentry : entry ∈ entries) {owner : Owner} (howner : entry.owner = some owner) :
    exists place, ((casesOf entries owner.index).findIdx? fun c => c.name = entry.symbol) =
        some place ∧
      (casesOf entries owner.index)[place]? =
        some { name := entry.symbol, params := owner.mapping } := by
  have hmem : { name := entry.symbol, params := owner.mapping } ∈ casesOf entries owner.index :=
    mem_casesOf.mpr ⟨entry, owner, hentry, howner, rfl, rfl⟩
  cases hplace : (casesOf entries owner.index).findIdx? fun c => c.name = entry.symbol with
  | none =>
      have hnone := List.findIdx?_eq_none_iff.mp hplace _ hmem
      simp at hnone
  | some place =>
      refine ⟨place, rfl, ?_⟩
      rcases List.findIdx?_eq_some_iff_getElem.mp hplace with ⟨hlt, hname, _⟩
      rw [List.getElem?_eq_getElem hlt]
      rcases mem_casesOf.mp (List.getElem_mem hlt) with ⟨other, owner', hother, howner', _, hcase⟩
      rw [hcase] at hname ⊢
      -- Names tell entries apart, so the case found is the one looked for.
      cases List.inj_on_of_nodup_map hdistinct hother hentry (of_decide_eq_true hname)
      cases howner.symm.trans howner'
      rfl

theorem membership?_eq_some {entry : Entry} {m : Membership}
    (h : membership? entries entry = some m) :
    exists owner union, entry.owner = some owner ∧ entries[owner.index]? = some union ∧
      m = { union := union.symbol
            arity := union.params.length
            variance := union.params.map Param.variance
            index :=
              ((casesOf entries owner.index).findIdx? fun c => c.name = entry.symbol).getD 0
            params := owner.mapping } := by
  unfold membership? at h
  split at h
  · cases h
  · rename_i owner howner
    rcases Option.map_eq_some_iff.mp h with ⟨union, hunion, hm⟩
    exact ⟨owner, union, howner, hunion, hm.symm⟩

end Entry

theorem Declaration.cases?_complete (registry : Registry) (d : Declaration) :
    (d.complete registry).cases? = d.cases? := by
  unfold complete cases?
  cases d.definition <;> rfl

/-- What a registered case and its registered union know of each other. -/
structure Membership.Agrees (m : Membership) (c : Symbol) (case union : Declaration) : Prop where
  listed : exists cases, union.cases? = some cases ∧
    (cases.findIdx? fun other => other.name = c) = some m.index ∧
    cases[m.index]? = some { name := c, params := m.params }
  arity : m.arity = union.arity
  variance : m.variance = union.params.map Param.variance
  length : m.params.length = case.arity
  distinct : m.params.Nodup
  within : forall index, index ∈ m.params -> index < union.arity

namespace Registration

variable {limits : Limits} {depth : Nat} {modules : List Source.Module} {r : Registration}
  {c : Symbol} {d u : Declaration} {m : Membership}

theorem built_at (hr : ofModules limits depth modules = some r) {name : Symbol}
    (hd : Table.get? r.registry name = some d) {k : Nat} {entry : Entry}
    (hat : (Collection.ofModules modules).entries[k]? = some entry)
    (hname : entry.symbol = name) :
    exists (written : Declaration) (built : Registry),
      Entry.build (Collection.ofModules modules).entries limits k entry = .ok written ∧
        d = written.complete built := by
  rcases builds_of_mem hr (Table.mem_of_get? hd) with
    ⟨k', entry', written, built, hat', hname', hbuild, hwritten⟩
  have hsame : k' = k := by
    apply (List.getElem?_inj ?_ (Collection.wellListed_ofModules modules).distinct).mp
    · rw [List.getElem?_map, List.getElem?_map, hat, hat', Option.map_some, Option.map_some, hname,
        hname']
    · rw [List.length_map]
      exact (List.getElem?_eq_some_iff.mp hat').choose
  subst hsame
  cases hat.symm.trans hat'
  exact ⟨written, built, hbuild, hwritten⟩

theorem member_agrees (hr : ofModules limits depth modules = some r)
    (hc : Table.get? r.registry c = some d) (hm : d.memberOf = some m)
    (hu : Table.get? r.registry m.union = some u) : m.Agrees c d u := by
  have hlisted := Collection.wellListed_ofModules modules
  rcases builds_of_mem hr (Table.mem_of_get? hc) with
    ⟨_, entry, written, _, hat, rfl, hbuild, rfl⟩
  have hentry := List.mem_of_getElem? hat
  rcases Entry.build_fields hbuild with ⟨hparams, hmember, _⟩
  rcases Entry.membership?_eq_some (hmember.symm.trans hm) with
    ⟨owner, union, howner, hunion, rfl⟩
  rcases hlisted.owned entry hentry owner howner with ⟨_, hunion', hisUnion, _, hmapping⟩
  cases hunion.symm.trans hunion'
  rcases built_at hr hu hunion rfl with ⟨writtenUnion, built, hbuildUnion, rfl⟩
  rcases Entry.build_fields hbuildUnion with ⟨hunionParams, _, hcases⟩
  rcases Entry.findIdx?_casesOf hlisted.distinct hentry howner with ⟨place, hplace, hcase⟩
  have hread := hlisted.read entry hentry
  rcases Collection.mapping_ok (Param.read_names hread)
    (Collection.mapParams_ok (Param.read_length hread) hmapping) with ⟨hlen, hnodup, hwithin⟩
  have hunionArity : (writtenUnion.complete built).arity = union.params.length :=
    congrArg List.length hunionParams
  constructor
  · refine ⟨Entry.casesOf (Collection.ofModules modules).entries owner.index, ?_, ?_, ?_⟩
    · rw [Declaration.cases?_complete]
      exact Declaration.cases?_eq_some.mpr (hcases hisUnion)
    · rw [hplace]
      rfl
    · rw [hplace]
      exact hcase
  · exact hunionArity.symm
  · exact congrArg (List.map Param.variance) hunionParams.symm
  · exact hlen.trans (congrArg List.length hparams.symm)
  · exact hnodup
  · intro index hindex
    rw [hunionArity]
    exact hwithin index hindex

theorem union_ne_reactive (hr : ofModules limits depth (Core.module :: modules) = some r)
    (hc : Table.get? r.registry c = some d) (hm : d.memberOf = some m) : m.union ≠ reactive := by
  have hlisted := Collection.wellListed_ofModules (Core.module :: modules)
  rcases builds_of_mem hr (Table.mem_of_get? hc) with
    ⟨_, entry, written, _, hat, _, hbuild, rfl⟩
  rcases Entry.build_fields hbuild with ⟨_, hmember, _⟩
  rcases Entry.membership?_eq_some (hmember.symm.trans hm) with
    ⟨owner, union, howner, hunion, rfl⟩
  rcases hlisted.owned entry (List.mem_of_getElem? hat) owner howner with
    ⟨_, hunion', hisUnion, _⟩
  cases hunion.symm.trans hunion'
  have hcore : (Collection.ofModules [Core.module]).entries.any
      (fun entry => entry.symbol = reactive && !entry.isUnion) = true := by decide +kernel
  rcases List.any_eq_true.mp hcore with ⟨wrapper, hwrapper, hboth⟩
  rw [Bool.and_eq_true, decide_eq_true_eq, Bool.not_eq_true'] at hboth
  rcases (Collection.ofModules_cons_extends Core.module modules).entries with ⟨added, hadded, _⟩
  have hmem : wrapper ∈ (Collection.ofModules (Core.module :: modules)).entries := by
    rw [hadded]
    exact List.mem_append_left added hwrapper
  intro hreactive
  have hsame := hlisted.eq_of_symbol_eq hmem (List.mem_of_getElem? hunion)
    (hboth.left.trans hreactive.symm)
  rw [hsame, hisUnion] at hboth
  cases hboth.right

end Registration

/-!
## Arguments there and back
-/

namespace Membership

variable {α : Type}

theorem getElem?_foldl_set_of_not_mem {pairs : List (Nat × α)} {k : Nat}
    (h : k ∉ pairs.map Prod.fst) (xs : List α) :
    (pairs.foldl (fun result pair => result.set pair.1 pair.2) xs)[k]? = xs[k]? := by
  induction pairs generalizing xs with
  | nil => rfl
  | cons pair pairs ih =>
      rw [List.map_cons, List.mem_cons, not_or] at h
      rw [List.foldl_cons, ih h.right, List.getElem?_set_ne (Ne.symm h.left)]

theorem getElem?_foldl_set {pairs : List (Nat × α)} (hkeys : (pairs.map Prod.fst).Nodup)
    {k : Nat} {a : α} (h : (k, a) ∈ pairs) {xs : List α} (hk : k < xs.length) :
    (pairs.foldl (fun result pair => result.set pair.1 pair.2) xs)[k]? = some a := by
  induction pairs generalizing xs with
  | nil => cases h
  | cons pair pairs ih =>
      rw [List.map_cons, List.nodup_cons] at hkeys
      rw [List.foldl_cons]
      rcases List.mem_cons.mp h with rfl | h
      · rw [getElem?_foldl_set_of_not_mem hkeys.left, List.getElem?_set_self hk]
      · exact ih hkeys.right h (by rw [List.length_set]; exact hk)

theorem length_foldl_set (pairs : List (Nat × α)) (xs : List α) :
    (pairs.foldl (fun result pair => result.set pair.1 pair.2) xs).length = xs.length := by
  induction pairs generalizing xs with
  | nil => rfl
  | cons pair pairs ih => rw [List.foldl_cons, ih, List.length_set]

theorem mem_foldl_set {pairs : List (Nat × α)} {xs : List α} {a : α}
    (h : a ∈ pairs.foldl (fun result pair => result.set pair.1 pair.2) xs) :
    a ∈ xs ∨ a ∈ pairs.map Prod.snd := by
  induction pairs generalizing xs with
  | nil => exact Or.inl h
  | cons pair pairs ih =>
      rcases ih h with hset | hlater
      · rcases List.mem_or_eq_of_mem_set hset with hold | rfl
        · exact Or.inl hold
        · exact Or.inr List.mem_cons_self
      · exact Or.inr (List.mem_cons_of_mem _ hlater)

theorem mem_unionArgs {m : Membership} {args : List Ty} {t : Ty} (h : t ∈ m.unionArgs args) :
    t ∈ args ∨ exists variance, t = filler variance := by
  rcases mem_foldl_set h with hfiller | harg
  · rcases List.mem_map.mp hfiller with ⟨index, _, rfl⟩
    exact Or.inr ⟨_, rfl⟩
  · rcases List.mem_map.mp harg with ⟨pair, hpair, rfl⟩
    exact Or.inl (List.of_mem_zip hpair).right

theorem length_unionArgs (m : Membership) (args : List Ty) :
    (m.unionArgs args).length = m.arity := by
  unfold unionArgs
  rw [length_foldl_set, List.length_map, List.length_range]

/-- The arguments of a case are read off those of its union again. -/
theorem filterMap_unionArgs {m : Membership} (hdistinct : m.params.Nodup)
    (hwithin : forall index, index ∈ m.params -> index < m.arity) {args : List Ty}
    (hlen : m.params.length = args.length) :
    m.params.filterMap (fun index => (m.unionArgs args)[index]?) = args := by
  have hkeys : ((m.params.zip args).map Prod.fst).Nodup := by
    rw [List.map_fst_zip (Nat.le_of_eq hlen)]
    exact hdistinct
  have hread : m.params.map (fun index => (m.unionArgs args)[index]?) = args.map some := by
    apply List.ext_getElem
    · rw [List.length_map, List.length_map, hlen]
    · intro n hleft hright
      rw [List.length_map] at hleft hright
      rw [List.getElem_map, List.getElem_map]
      have hmem : (m.params[n], args[n]) ∈ m.params.zip args := by
        have hn : n < (m.params.zip args).length := by
          rw [List.length_zip, hlen, Nat.min_self]
          exact hright
        have hzip := List.getElem_mem hn
        rw [List.getElem_zip] at hzip
        exact hzip
      refine getElem?_foldl_set hkeys hmem ?_
      rw [List.length_map, List.length_range]
      exact hwithin _ (List.getElem_mem hleft)
  have hsplit := List.filterMap_map (f := fun index => (m.unionArgs args)[index]?) (g := id)
    (l := m.params)
  rw [Function.id_comp, hread] at hsplit
  rw [<- hsplit]
  simp

end Membership

/-!
## Selection
-/

theorem find?_zipIdx {α : Type} {p : α -> Bool} {xs : List α} {place : Nat} {x : α}
    (hplace : xs.findIdx? p = some place) (hx : xs[place]? = some x) :
    xs.zipIdx.find? (fun item => p item.1) = some (x, place) := by
  rcases List.findIdx?_eq_some_iff_getElem.mp hplace with ⟨hlt, hp, hbefore⟩
  cases (List.getElem?_eq_getElem hlt).symm.trans hx
  apply List.find?_eq_some_iff_getElem.mpr
  refine ⟨hp, place, by simpa using hlt, by simp, ?_⟩
  intro earlier hearlier
  simpa using hbefore earlier hearlier

theorem Context.unionBehind_of_cases {ctx : Context} {name : Symbol} {u : Declaration}
    {cases : List Case} {cross : Bool} {args : List Ty}
    (hplain : (if cross then (Ty.named name args).reactiveArg? else none) = none)
    (hu : Table.get? ctx.registry name = some u) (hcases : u.cases? = some cases) (depth : Nat) :
    ctx.unionBehind (depth + 1) cross (.named name args) =
      some (some { name := name, args := args, cases := cases }) := by
  rw [unionBehind, hplain]
  simp only [hu, Option.map_some, Declaration.cases?_eq_some.mp hcases]
  rfl

theorem Context.unionBehind_union {ctx : Context} {name : Symbol} {u : Declaration}
    {cases : List Case} (hname : name ≠ reactive) (hu : Table.get? ctx.registry name = some u)
    (hcases : u.cases? = some cases) (depth : Nat) (cross : Bool) (args : List Ty) :
    ctx.unionBehind (depth + 1) cross (.named name args) =
      some (some { name := name, args := args, cases := cases }) := by
  refine unionBehind_of_cases ?_ hu hcases depth
  cases cross with
  | false => rfl
  | true =>
      rw [if_pos rfl]
      unfold Ty.reactiveArg?
      split
      · rename_i heq
        cases heq
        exact if_neg hname
      · rfl

theorem Context.caseOf_symbol {ctx : Context} {view : UnionView} {c : Symbol} {params : List Nat}
    {place : Nat} (hc : Table.contains ctx.registry c = true)
    (hplace : (view.cases.findIdx? fun other => other.name = c) = some place)
    (hcase : view.cases[place]? = some { name := c, params := params }) {ref : Source.InlineRef}
    (htypeArgs : ref.typeArgs = []) (hsymbol : ctx.caseSymbol ref.name = c) :
    ctx.caseOf view ref =
      .ok { index := place
            type := .named c (params.filterMap fun index => view.args[index]?) } := by
  have hfound : view.cases.zipIdx.find? (fun item => item.1.name == c) =
      some ({ name := c, params := params }, place) := find?_zipIdx hplace hcase
  rw [caseOf, htypeArgs, hsymbol, caseNamed, hc, hfound]
  rfl

theorem Context.caseOf_eq {ctx : Context} {view : UnionView} {c : Symbol} {params : List Nat}
    {place : Nat} (hc : Table.contains ctx.registry c = true)
    (hplace : (view.cases.findIdx? fun other => other.name = c) = some place)
    (hcase : view.cases[place]? = some { name := c, params := params }) {ref : Source.InlineRef}
    (htypeArgs : ref.typeArgs = []) (hmodule : ref.name.module = some c.module)
    (hname : ref.name.name = c.name) :
    ctx.caseOf view ref =
      .ok { index := place
            type := .named c (params.filterMap fun index => view.args[index]?) } := by
  apply caseOf_symbol hc hplace hcase htypeArgs
  simp [caseSymbol, hmodule, hname]

/-- A value that is lifted into its union selects the branch for its case, with the
place the union gives the case and the type the value had. -/
theorem lifted_value_selects_case {limits : Limits} {bound : Nat} {modules : List Source.Module}
    {r : Registration}
    (hr : Registration.ofModules limits bound (Core.module :: modules) = some r) {c : Symbol}
    {d u : Declaration} {m : Membership} (hc : Table.get? r.registry c = some d)
    (hm : d.memberOf = some m) (hu : Table.get? r.registry m.union = some u) :
    (exists cases, u.cases? = some cases ∧
        cases[m.index]? = some { name := c, params := m.params }) ∧
      m.arity = u.arity ∧ m.variance = u.params.map Param.variance ∧ m.params.Nodup ∧
      (forall index, index ∈ m.params -> index < u.arity) ∧
      forall (ctx : Context) (term : Term) (args : List Ty), ctx.registry = r.registry ->
        term.type = .named c args -> args.length = d.arity ->
        exists unionArgs,
          Registry.lift r.registry term =
              { type := .named m.union unionArgs, node := .sum term m.index, span := term.span } ∧
            unionArgs.length = u.arity ∧
            forall (depth : Nat) (cross : Bool) (ref : Source.InlineRef), ref.typeArgs = [] ->
              ref.name.module = some c.module -> ref.name.name = c.name ->
              exists view,
                ctx.unionBehind (depth + 1) cross (.named m.union unionArgs) = some (some view) ∧
                  ctx.caseOf view ref = .ok { index := m.index, type := .named c args } := by
  have hagrees := Registration.member_agrees hr hc hm hu
  rcases hagrees.listed with ⟨cases, hcases, hplace, hcase⟩
  refine ⟨⟨cases, hcases, hcase⟩, hagrees.arity, hagrees.variance, hagrees.distinct,
    hagrees.within, ?_⟩
  intro ctx term args hregistry htype hargs
  refine ⟨m.unionArgs args, ?_, ?_, ?_⟩
  · simp only [Registry.lift, htype, hc, Option.bind_some, hm]
  · rw [<- hagrees.arity]
    exact Membership.length_unionArgs m args
  intro depth cross ref htypeArgs hmodule hname
  have hne := Registration.union_ne_reactive hr hc hm
  refine ⟨_, Context.unionBehind_union hne (hregistry ▸ hu) hcases depth cross _, ?_⟩
  have hcontains : Table.contains ctx.registry c = true := by
    rw [Table.contains, hregistry, hc]
    rfl
  rw [Context.caseOf_eq hcontains hplace hcase htypeArgs hmodule hname]
  have hback := Membership.filterMap_unionArgs hagrees.distinct
    (fun index hindex => hagrees.arity ▸ hagrees.within index hindex)
    (hagrees.length.trans hargs.symm)
  rw [hback]

def eitherModules : List Source.Module :=
  let param := fun name : String => ({ name := { name := name } } : Source.ParamDecl)
  [{ name := "Main"
     types := [
      .union { name := { name := "Either" }, params := [param "A", param "B"] } [
        .boxed { name := { name := "Neither" } } {},
        .native { name := { name := "Both" }, params := [param "B", param "A"] }]] }]

def eitherRegistration : Registration :=
  (Registration.ofModules {} 8 (Core.module :: eitherModules)).getD {}

/-- A value of the second case, `Both[Int, String]`, is lifted into `Either` and selects
the second branch, at its own type. -/
theorem both_selects_second_case :
    let both : Symbol := ⟨"Main", "Both"⟩
    let either : Symbol := ⟨"Main", "Either"⟩
    let ctx : Context :=
      { module := "Main", registry := eitherRegistration.registry, scope := { module := "Main" } }
    let term : Term := { type := .named both [Ty.core "Int", Ty.core "String"], node := .unit }
    exists unionArgs view, unionArgs.length = 2 ∧
      (Registry.lift eitherRegistration.registry term).type = .named either unionArgs ∧
      ctx.unionBehind 1 true (.named either unionArgs) = some (some view) ∧
      ctx.caseOf view { name := { module := some "Main", name := "Both" } } =
        .ok { index := 1, type := term.type } := by
  intro both either ctx term
  have heval : (Registration.ofModules {} 8 (Core.module :: eitherModules)).map
        (fun r => r.problems.isEmpty) = some true ∧
      ((Table.get? eitherRegistration.registry both).bind fun d =>
        d.memberOf.map fun m => (d.arity, m.union, m.index)) = some (2, either, 1) ∧
      (Table.get? eitherRegistration.registry either).map Declaration.arity = some 2 := by
    decide +kernel
  rcases heval with ⟨hclean, hcase, hunion⟩
  have hregistered : Registration.ofModules {} 8 (Core.module :: eitherModules) =
      some eitherRegistration := (Registration.registered_of_clean hclean).left
  rcases Option.bind_eq_some_iff.mp hcase with ⟨d, hd, hmember⟩
  rcases Option.map_eq_some_iff.mp hmember with ⟨m, hm, hinfo⟩
  rcases Option.map_eq_some_iff.mp hunion with ⟨u, hu, huarity⟩
  simp only [Prod.mk.injEq] at hinfo
  rcases hinfo with ⟨hdarity, hunionName, hindex⟩
  rw [<- hunionName] at hu
  rcases lifted_value_selects_case hregistered hd hm hu with ⟨_, _, _, _, _, hselects⟩
  rcases hselects ctx term [Ty.core "Int", Ty.core "String"] rfl rfl hdarity.symm with
    ⟨unionArgs, hlift, hlen, hview⟩
  rcases hview 0 true { name := { module := some "Main", name := "Both" } } rfl rfl rfl with
    ⟨view, hbehind, hcaseOf⟩
  rw [hindex] at hcaseOf
  rw [hunionName] at hlift hbehind
  exact ⟨unionArgs, view, hlen.trans huarity, by rw [hlift], hbehind, hcaseOf⟩

end TypeChecker
