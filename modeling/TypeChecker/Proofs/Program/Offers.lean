import Mathlib.Data.List.Nodup
import Mathlib.Data.List.Pairwise
import TypeChecker.Proofs.Ensures
import TypeChecker.Proofs.Program.Progress

/-!
# The signatures a module is offered

The functions of a scope are drawn from a list of candidates: the valid signatures of the
module's own declarations, then the public ones of each imported module. Collecting is
adding the candidates one after another. Candidates differ in their symbols or in their
positions among the declarations of one name.
-/

namespace TypeChecker

def Problem.isOverloadClash : Problem -> Bool
  | .signature { value := .overloadClash _ _, .. } => true
  | _ => false

namespace Scope

section

variable (registry : Registry) (limits : Limits) (depth : Nat)

def signature? (module : String) (item : Nat × Source.FunctionDecl) : Option Signature :=
  match (readFunction registry limits depth module item.1 item.2).outcome with
  | some (.ok s) => some s
  | _ => none

def countBefore (m : Source.Module) (place : Nat) (name : String) : Nat :=
  (m.functions.take place).countP fun decl => decl.name.name == name

def signatureAt (m : Source.Module) (place : Nat) : Option Signature :=
  m.functions[place]?.bind fun decl =>
    signature? registry limits depth m.name (countBefore m place decl.name.name, decl)

def signatures (m : Source.Module) : List Signature :=
  (List.range m.functions.length).filterMap (signatureAt registry limits depth m)

def publicSignatures (m : Source.Module) : List Signature :=
  (signatures registry limits depth m).filter Signature.isPublic

def candidates (module : Source.Module) (imported : List Source.Module) : List Signature :=
  signatures registry limits depth module ++
    imported.flatMap (publicSignatures registry limits depth)

end

variable {registry : Registry} {limits : Limits} {depth : Nat}

/-!
## Reading a signature
-/

/-- What a signature takes over from its declaration. -/
structure TakenFrom (module : String) (index : Nat) (decl : Source.FunctionDecl)
    (s : Signature) : Prop where
  symbol : s.symbol = ⟨module, decl.name.name⟩
  index : s.index = index
  isPublic : s.isPublic = decl.isPublic

theorem readFunction_takenFrom {module : String} {index : Nat} {decl : Source.FunctionDecl} :
    Judge.Ensures (readFunction registry limits depth module index decl)
      (TakenFrom module index decl) := by
  unfold readFunction
  dsimp only
  split
  · exact Judge.ensures_throw_bind _ _
  · refine (Judge.ensures_any _).bind fun params _ => ?_
    refine (Judge.ensures_any _).bind fun bounds _ => ?_
    refine (Judge.ensures_any _).bind fun input _ => ?_
    refine (Judge.ensures_any _).bind fun output _ => ?_
    exact Judge.ensures_pure ⟨rfl, rfl, rfl⟩

theorem mapError_badType_error {α : Type} {x : Judge TypeError α} {e : SignatureError}
    (h : (x.mapError badType).outcome = some (.error e)) :
    (Problem.signature e).isOverloadClash = false := by
  rcases Option.map_eq_some_iff.mp h with ⟨result, _, hresult⟩
  rcases except_mapError_error.mp hresult with ⟨error, _, rfl⟩
  rfl

theorem paramError_isOverloadClash (name : String) (error : DeclError) :
    (Problem.signature (paramError name error)).isOverloadClash = false := by
  fun_cases paramError name error <;> rfl

theorem readFunction_error {module : String} {index : Nat} {decl : Source.FunctionDecl}
    {e : SignatureError}
    (h : (readFunction registry limits depth module index decl).outcome = some (.error e)) :
    (Problem.signature e).isOverloadClash = false := by
  unfold readFunction at h
  dsimp only at h
  split at h
  · cases h
    rfl
  · rcases judge_bind_error.mp h with h | ⟨params, _, h⟩
    · rcases except_mapError_error.mp (Option.some.inj h) with ⟨error, _, rfl⟩
      exact paramError_isOverloadClash _ error
    · rcases judge_bind_error.mp h with h | ⟨bounds, _, h⟩
      · exact mapError_badType_error h
      · rcases judge_bind_error.mp h with h | ⟨input, _, h⟩
        · exact mapError_badType_error h
        · rcases judge_bind_error.mp h with h | ⟨output, _, h⟩
          · exact mapError_badType_error h
          · cases h

theorem readConstant_error {module : String} {decl : Source.ConstantDecl} {e : SignatureError}
    (h : (readConstant registry limits depth module decl).outcome = some (.error e)) :
    (Problem.signature e).isOverloadClash = false := by
  unfold readConstant at h
  dsimp only at h
  split at h
  · cases h
    rfl
  · rcases judge_bind_error.mp h with h | ⟨type, _, h⟩
    · exact mapError_badType_error h
    · cases h

theorem signature?_eq_some {module : String} {item : Nat × Source.FunctionDecl} {s : Signature} :
    signature? registry limits depth module item = some s ↔
      (readFunction registry limits depth module item.1 item.2).outcome = some (.ok s) := by
  unfold signature?
  split
  · rename_i t ht
    rw [ht, Option.some.injEq, Option.some.injEq, Except.ok.injEq]
  · rename_i hnone
    constructor
    · intro h
      cases h
    · exact fun h => absurd h (hnone s)

theorem signatureAt_eq_some {m : Source.Module} {place : Nat} {s : Signature} :
    signatureAt registry limits depth m place = some s ↔
      exists decl, m.functions[place]? = some decl ∧
        (readFunction registry limits depth m.name (countBefore m place decl.name.name)
          decl).outcome = some (.ok s) := by
  rw [signatureAt, Option.bind_eq_some_iff]
  simp only [signature?_eq_some]

/-!
## Positions among the declarations of a name
-/

theorem countBefore_lt {m : Source.Module} {j k : Nat} {decl : Source.FunctionDecl}
    (hdecl : m.functions[j]? = some decl) (hjk : j < k) :
    countBefore m j decl.name.name < countBefore m k decl.name.name := by
  have hprefix : m.functions.take j ++ [decl] = (m.functions.take k).take (j + 1) := by
    rw [List.take_take, Nat.min_eq_left hjk, List.take_add_one, hdecl]
    rfl
  calc countBefore m j decl.name.name
      < ((m.functions.take k).take (j + 1)).countP fun d => d.name.name == decl.name.name := by
        rw [<- hprefix, List.countP_append, List.countP_singleton, if_pos (beq_self_eq_true _)]
        exact Nat.lt_succ_self _
    _ ≤ countBefore m k decl.name.name := (List.take_sublist _ _).countP_le

theorem place_eq {m : Source.Module} {j k : Nat} {decl decl' : Source.FunctionDecl}
    (hdecl : m.functions[j]? = some decl) (hdecl' : m.functions[k]? = some decl')
    (hname : decl.name.name = decl'.name.name)
    (hcount : countBefore m j decl'.name.name = countBefore m k decl'.name.name) : j = k := by
  rcases Nat.lt_trichotomy j k with hlt | heq | hgt
  · have hless := countBefore_lt hdecl hlt
    rw [hname, hcount] at hless
    exact absurd hless (Nat.lt_irrefl _)
  · exact heq
  · have hless := countBefore_lt hdecl' hgt
    rw [hcount] at hless
    exact absurd hless (Nat.lt_irrefl _)

theorem getElem?_filter_countBefore {m : Source.Module} {place : Nat}
    {decl : Source.FunctionDecl} (hdecl : m.functions[place]? = some decl) :
    (m.functions.filter fun d => d.name.name == decl.name.name)[countBefore m place
      decl.name.name]? = some decl := by
  have htake : m.functions.take place ++ [decl] = m.functions.take (place + 1) := by
    rw [List.take_add_one, hdecl]
    rfl
  have hsplit : m.functions = m.functions.take place ++ decl :: m.functions.drop (place + 1) := by
    rw [List.append_cons, htake, List.take_append_drop]
  rw [countBefore, List.countP_eq_length_filter]
  nth_rewrite 1 [hsplit]
  rw [List.filter_append, List.filter_cons, beq_self_eq_true, if_pos rfl,
    List.getElem?_append_right (Nat.le_refl _), Nat.sub_self, List.getElem?_cons_zero]

/-- Functions are numbered by how many of their name come before. -/
theorem getElem?_numberFrom (earlier : List String) (decls : List Source.FunctionDecl)
    (place : Nat) :
    (numberFrom earlier decls)[place]? = decls[place]?.map fun decl =>
      (earlier.count decl.name.name +
        (decls.take place).countP (fun d => d.name.name == decl.name.name), decl) := by
  induction decls generalizing earlier place with
  | nil => rfl
  | cons first rest ih =>
      cases place with
      | zero => rfl
      | succ place =>
          rw [numberFrom, List.getElem?_cons_succ, ih, List.getElem?_cons_succ]
          congr 1
          funext decl
          rw [List.count_cons, List.take_succ_cons, List.countP_cons]
          congr 1
          omega

theorem signatures_eq (m : Source.Module) :
    signatures registry limits depth m =
      (numbered m).filterMap (signature? registry limits depth m.name) := by
  have hmaps : (List.range m.functions.length).map (signatureAt registry limits depth m) =
      (numbered m).map (signature? registry limits depth m.name) := by
    refine List.ext_getElem? fun place => ?_
    rw [List.getElem?_map, List.getElem?_map, numbered, getElem?_numberFrom]
    rcases Nat.lt_or_ge place m.functions.length with hplace | hplace
    · rw [List.getElem?_range hplace, List.getElem?_eq_getElem hplace]
      simp [signatureAt, countBefore, List.getElem?_eq_getElem hplace]
    · rw [List.getElem?_eq_none hplace, List.getElem?_eq_none (by simpa using hplace)]
      rfl
  have hfilter := congrArg (List.filterMap id) hmaps
  rwa [List.filterMap_map, List.filterMap_map] at hfilter

/-!
## Candidates
-/

theorem mem_signatures {m : Source.Module} {s : Signature} :
    s ∈ signatures registry limits depth m ↔
      exists place, signatureAt registry limits depth m place = some s := by
  rw [signatures, List.mem_filterMap]
  constructor
  · rintro ⟨place, _, hs⟩
    exact ⟨place, hs⟩
  · rintro ⟨place, hs⟩
    rcases signatureAt_eq_some.mp hs with ⟨decl, hdecl, _⟩
    exact ⟨place, List.mem_range.mpr (List.getElem?_eq_some_iff.mp hdecl).1, hs⟩

theorem signatures_split {m : Source.Module} {place : Nat} {s : Signature}
    (hs : signatureAt registry limits depth m place = some s) :
    exists after, signatures registry limits depth m =
      (List.range place).filterMap (signatureAt registry limits depth m) ++ s :: after := by
  rcases signatureAt_eq_some.mp hs with ⟨decl, hdecl, _⟩
  have hplace := (List.getElem?_eq_some_iff.mp hdecl).1
  rcases Nat.exists_eq_add_of_lt hplace with ⟨rest, hrest⟩
  refine ⟨((List.range rest).map (place + 1 + ·)).filterMap
    (signatureAt registry limits depth m), ?_⟩
  rw [signatures, hrest, Nat.add_right_comm, List.range_add, List.range_succ,
    List.filterMap_append, List.filterMap_append, List.filterMap_cons, hs, List.append_assoc]
  rfl

theorem mem_filterMap_range {m : Source.Module} {place : Nat} {t : Signature} :
    t ∈ (List.range place).filterMap (signatureAt registry limits depth m) ↔
      exists earlier, earlier < place ∧ signatureAt registry limits depth m earlier = some t := by
  simp only [List.mem_filterMap, List.mem_range]

theorem module_of_mem_signatures {m : Source.Module} {s : Signature}
    (h : s ∈ signatures registry limits depth m) : s.symbol.module = m.name := by
  rcases mem_signatures.mp h with ⟨place, hs⟩
  rcases signatureAt_eq_some.mp hs with ⟨decl, _, hread⟩
  rw [(readFunction_takenFrom _ hread).symbol]

theorem index_lt_of_place_lt {m : Source.Module} {j k : Nat} {a b : Signature}
    (ha : signatureAt registry limits depth m j = some a)
    (hb : signatureAt registry limits depth m k = some b) (hjk : j < k)
    (hname : a.symbol.name = b.symbol.name) : a.index < b.index := by
  rcases signatureAt_eq_some.mp ha with ⟨decl, hdecl, hread⟩
  rcases signatureAt_eq_some.mp hb with ⟨decl', _, hread'⟩
  have htaken := readFunction_takenFrom _ hread
  have htaken' := readFunction_takenFrom _ hread'
  have hsame : decl.name.name = decl'.name.name := by
    simpa [htaken.symbol, htaken'.symbol] using hname
  rw [htaken.index, htaken'.index, <- hsame]
  exact countBefore_lt hdecl hjk

def Distinct (a b : Signature) : Prop :=
  (a.symbol, a.index) ≠ (b.symbol, b.index)

theorem distinct_of_module {a b : Signature} (h : a.symbol.module ≠ b.symbol.module) :
    Distinct a b :=
  fun hsame => h (congrArg (Symbol.module ∘ Prod.fst) hsame)

theorem not_distinct {a b : Signature} (hmodule : a.symbol.module = b.symbol.module)
    (hname : a.symbol.name = b.symbol.name) (hindex : a.index = b.index) : ¬ Distinct a b := by
  rcases a with ⟨⟨_, _⟩, _, _, _, _, _, _, _, _⟩
  rcases b with ⟨⟨_, _⟩, _, _, _, _, _, _, _, _⟩
  cases hmodule
  cases hname
  cases hindex
  exact fun hdistinct => hdistinct rfl

theorem eq_of_not_distinct {known : List Signature} (h : known.Pairwise Distinct)
    {a b : Signature} (ha : a ∈ known) (hb : b ∈ known)
    (hsame : (a.symbol, a.index) = (b.symbol, b.index)) : a = b :=
  List.inj_on_of_nodup_map (f := fun s : Signature => (s.symbol, s.index))
    (List.pairwise_map.mpr h) ha hb hsame

theorem signatures_distinct (m : Source.Module) :
    (signatures registry limits depth m).Pairwise Distinct := by
  rw [signatures, List.pairwise_filterMap]
  refine List.pairwise_lt_range.imp fun {j k} hjk a ha b hb hsame => ?_
  rw [Prod.mk.injEq] at hsame
  have hlt := index_lt_of_place_lt ha hb hjk (by rw [hsame.left])
  exact absurd hsame.right (Nat.ne_of_lt hlt)

theorem mem_publicSignatures {m : Source.Module} {s : Signature} :
    s ∈ publicSignatures registry limits depth m ↔
      s ∈ signatures registry limits depth m ∧ s.isPublic = true :=
  List.mem_filter

theorem mem_candidates {module : Source.Module} {imported : List Source.Module} {s : Signature} :
    s ∈ candidates registry limits depth module imported ↔
      s ∈ signatures registry limits depth module ∨
        exists m, m ∈ imported ∧ s ∈ publicSignatures registry limits depth m := by
  rw [candidates, List.mem_append, List.mem_flatMap]

theorem exists_signatureAt {module : Source.Module} {imported : List Source.Module}
    {s : Signature} (hs : s ∈ candidates registry limits depth module imported) :
    exists m place, m ∈ module :: imported ∧
      signatureAt registry limits depth m place = some s ∧ (m = module ∨ s.isPublic = true) := by
  rcases mem_candidates.mp hs with hown | ⟨m, hm, hpublic⟩
  · rcases mem_signatures.mp hown with ⟨place, hplace⟩
    exact ⟨module, place, List.mem_cons_self, hplace, Or.inl rfl⟩
  · rcases mem_publicSignatures.mp hpublic with ⟨hmem, hpublic⟩
    rcases mem_signatures.mp hmem with ⟨place, hplace⟩
    exact ⟨m, place, List.mem_cons_of_mem _ hm, hplace, Or.inr hpublic⟩

theorem publicSignatures_split {m : Source.Module} {place : Nat} {s : Signature}
    (hs : signatureAt registry limits depth m place = some s) (hpublic : s.isPublic = true) :
    exists after, publicSignatures registry limits depth m =
      ((List.range place).filterMap (signatureAt registry limits depth m)).filter
        Signature.isPublic ++ s :: after := by
  rcases signatures_split hs with ⟨after, hsplit⟩
  refine ⟨after.filter Signature.isPublic, ?_⟩
  rw [publicSignatures, hsplit, List.filter_append, List.filter_cons_of_pos hpublic]

/-- The candidates before that of a place of an imported module. -/
theorem candidates_split {module : Source.Module} {imported : List Source.Module}
    {i place : Nat} {other : Source.Module} {s : Signature} (hother : imported[i]? = some other)
    (hs : signatureAt registry limits depth other place = some s) (hpublic : s.isPublic = true) :
    exists after, candidates registry limits depth module imported =
      (candidates registry limits depth module (imported.take i) ++
        ((List.range place).filterMap (signatureAt registry limits depth other)).filter
          Signature.isPublic) ++ s :: after := by
  rcases publicSignatures_split hs hpublic with ⟨after, hsplit⟩
  have htake : imported.take i ++ [other] = imported.take (i + 1) := by
    rw [List.take_add_one, hother]
    rfl
  refine ⟨after ++ (imported.drop (i + 1)).flatMap (publicSignatures registry limits depth), ?_⟩
  nth_rewrite 1 [<- List.take_append_drop (i + 1) imported]
  rw [<- htake, candidates, candidates, List.flatMap_append, List.flatMap_append,
    List.flatMap_singleton, hsplit]
  simp only [List.append_assoc, List.cons_append]

section

variable {module : Source.Module} {imported : List Source.Module}
  (hnames : ((module :: imported).map Source.Module.name).Nodup)

include hnames

theorem eq_of_name_eq {m m' : Source.Module} (hm : m ∈ module :: imported)
    (hm' : m' ∈ module :: imported) (hname : m.name = m'.name) : m = m' :=
  List.inj_on_of_nodup_map hnames hm hm' hname

theorem module_ne_of_imported {m : Source.Module} (hm : m ∈ imported) {s : Signature}
    (hs : s ∈ publicSignatures registry limits depth m) : s.symbol.module ≠ module.name := by
  rw [module_of_mem_signatures (mem_publicSignatures.mp hs).left]
  intro hsame
  rw [List.map_cons, List.nodup_cons] at hnames
  exact hnames.left (hsame ▸ List.mem_map_of_mem hm)

theorem candidates_distinct :
    (candidates registry limits depth module imported).Pairwise Distinct := by
  rw [candidates, List.pairwise_append, List.pairwise_flatMap]
  refine ⟨signatures_distinct module, ⟨fun m _ => (signatures_distinct m).filter _, ?_⟩, ?_⟩
  · rw [List.map_cons, List.nodup_cons] at hnames
    refine (List.pairwise_map.mp hnames.right).imp fun {m m'} hne a ha b hb => ?_
    apply distinct_of_module
    rw [module_of_mem_signatures (mem_publicSignatures.mp ha).left,
      module_of_mem_signatures (mem_publicSignatures.mp hb).left]
    exact hne
  · intro a ha b hb
    rcases List.mem_flatMap.mp hb with ⟨m, hm, hb⟩
    apply distinct_of_module
    rw [module_of_mem_signatures ha]
    exact (module_ne_of_imported hnames hm hb).symm

theorem candidates_own_first :
    (candidates registry limits depth module imported).Pairwise fun a b =>
      b.symbol.module = module.name -> a.symbol.module = module.name := by
  rw [candidates, List.pairwise_append]
  refine ⟨List.pairwise_of_forall_mem_list fun a ha b _ _ => module_of_mem_signatures ha, ?_, ?_⟩
  · refine List.pairwise_of_forall_mem_list fun a _ b hb hmodule => ?_
    rcases List.mem_flatMap.mp hb with ⟨m, hm, hb⟩
    exact absurd hmodule (module_ne_of_imported hnames hm hb)
  · exact fun a ha b _ _ => module_of_mem_signatures ha

end

/-!
## Collecting is adding candidates
-/

namespace Collected

variable {c later : Collected}

def outline (c : Collected) : Collected :=
  { scope := { module := c.scope.module, functions := c.scope.functions }
    problems := c.problems.filter Problem.isOverloadClash }

theorem outline_report {error : SignatureError}
    (h : (Problem.signature error).isOverloadClash = false) :
    (c.report error).outline = c.outline := by
  simp [outline, report, h]

theorem outline_addFunction (s : Signature) :
    (c.addFunction s).outline = c.outline.addFunction s := by
  have hoverloads : c.outline.scope.overloads s.symbol.name = c.scope.overloads s.symbol.name := rfl
  unfold addFunction
  rw [hoverloads]
  split
  · rfl
  · have hmodule : c.outline.scope.module = c.scope.module := rfl
    rw [hmodule]
    split
    · simp [outline, report, Problem.isOverloadClash]
    · rfl

theorem module_addFunction (s : Signature) :
    (c.addFunction s).scope.module = c.scope.module := by
  fun_cases addFunction c s <;> rfl

theorem module_foldl_addFunction (added : List Signature) (c : Collected) :
    (added.foldl addFunction c).scope.module = c.scope.module := by
  induction added generalizing c with
  | nil => rfl
  | cons s added ih => rw [List.foldl_cons, ih, module_addFunction]

theorem outline_ownFunction {item : Nat × Source.FunctionDecl}
    (h : ownFunction registry limits depth c item = some later) :
    later.outline = (signature? registry limits depth c.scope.module item).toList.foldl
      addFunction c.outline := by
  rcases Option.bind_eq_some_iff.mp h with ⟨outcome, hread, h⟩
  unfold signature?
  rw [hread]
  cases outcome with
  | ok s =>
      cases h
      exact outline_addFunction s
  | error e =>
      cases h
      exact outline_report (readFunction_error hread)

theorem outline_importFunction {module : String} {item : Nat × Source.FunctionDecl}
    (h : importFunction registry limits depth module c item = some later) :
    later.outline =
      ((signature? registry limits depth module item).toList.filter Signature.isPublic).foldl
        addFunction c.outline := by
  unfold importFunction at h
  split at h
  · rename_i hprivate
    cases h
    cases hsignature : signature? registry limits depth module item with
    | none => rfl
    | some s =>
        have hpublic := (readFunction_takenFrom _ (signature?_eq_some.mp hsignature)).isPublic
        simp_all
  · rename_i hpublic
    rcases Option.bind_eq_some_iff.mp h with ⟨outcome, hread, h⟩
    unfold signature?
    rw [hread]
    cases outcome with
    | ok s =>
        cases h
        have hs := (readFunction_takenFrom _ hread).isPublic
        simp_all [outline_addFunction]
    | error e =>
        cases h
        rfl

theorem outline_ownConstant {decl : Source.ConstantDecl}
    (h : ownConstant registry limits depth c decl = some later) : later.outline = c.outline := by
  rcases Option.bind_eq_some_iff.mp h with ⟨outcome, hread, h⟩
  cases outcome with
  | ok constant =>
      dsimp only at h
      split at h
      · cases h
        exact outline_report rfl
      · cases h
        rfl
  | error e =>
      cases h
      exact outline_report (readConstant_error hread)

theorem outline_importConstant {module : String} {decl : Source.ConstantDecl}
    (h : importConstant registry limits depth module c decl = some later) :
    later.outline = c.outline := by
  unfold importConstant at h
  split at h
  · cases h
    rfl
  · rcases Option.bind_eq_some_iff.mp h with ⟨outcome, _, h⟩
    cases outcome with
    | ok constant =>
        dsimp only at h
        split at h
        · cases h
          rfl
        · cases h
          rfl
    | error e =>
        cases h
        rfl

theorem outline_foldlM {α : Type} {step : Collected -> α -> Bounded Collected} {module : String}
    (added : α -> List Signature)
    (hstep : forall c item later, c.scope.module = module -> step c item = some later ->
      later.outline = (added item).foldl addFunction c.outline)
    {items : List α} (hc : c.scope.module = module) (h : items.foldlM step c = some later) :
    later.outline = (items.flatMap added).foldl addFunction c.outline := by
  induction items generalizing c with
  | nil =>
      cases h
      rfl
  | cons item rest ih =>
      rw [List.foldlM_cons] at h
      rcases Option.bind_eq_some_iff.mp h with ⟨next, hnext, hrest⟩
      have houtline := hstep c item next hc hnext
      have hmodule : next.scope.module = module := by
        show next.outline.scope.module = module
        rw [houtline, module_foldl_addFunction]
        exact hc
      rw [ih hmodule hrest, houtline, List.flatMap_cons, List.foldl_append]

theorem outline_importModule {other : Source.Module}
    (h : importModule registry limits depth c other = some later) :
    later.outline =
      (publicSignatures registry limits depth other).foldl addFunction c.outline := by
  rcases Option.bind_eq_some_iff.mp h with ⟨mid, hfunctions, hconstants⟩
  have hmid := outline_foldlM _ (fun _ _ _ _ hstep => outline_importFunction hstep) rfl hfunctions
  have hlater : later.outline = mid.outline :=
    bounded_foldlM_keeps (P := fun x => x.outline = mid.outline)
      (fun hstep hkept => (outline_importConstant hstep).trans hkept) hconstants rfl
  rw [hlater, hmid, publicSignatures, signatures_eq, List.filterMap_eq_flatMap_toList,
    List.filter_flatMap]

def admitting (module : String) (added : List Signature) : Collected :=
  added.foldl addFunction { scope := { module := module } }

end Collected

/-- Up to constants and other errors, collecting is adding the candidates in order. -/
theorem outline_collect {module : Source.Module} {imported : List Source.Module} {c : Collected}
    (h : collect registry limits depth module imported = some c) :
    c.outline =
      Collected.admitting module.name (candidates registry limits depth module imported) := by
  rcases Option.bind_eq_some_iff.mp h with ⟨c₁, hfunctions, h⟩
  rcases Option.bind_eq_some_iff.mp h with ⟨c₂, hconstants, himported⟩
  have hown : forall c item later, c.scope.module = module.name ->
      Collected.ownFunction registry limits depth c item = some later ->
        later.outline = (signature? registry limits depth module.name item).toList.foldl
          Collected.addFunction c.outline := by
    intro c item later hmodule hstep
    rw [Collected.outline_ownFunction hstep, hmodule]
  have h₁ := Collected.outline_foldlM _ hown rfl hfunctions
  have h₂ : c₂.outline = c₁.outline :=
    bounded_foldlM_keeps (P := fun x => x.outline = c₁.outline)
      (fun hstep hkept => (Collected.outline_ownConstant hstep).trans hkept) hconstants rfl
  have h₃ := Collected.outline_foldlM _
    (fun _ _ _ _ hstep => Collected.outline_importModule hstep) rfl himported
  rw [h₃, h₂, h₁, Collected.admitting, candidates, signatures_eq,
    List.filterMap_eq_flatMap_toList, List.foldl_append]
  rfl

end Scope
end TypeChecker
