import TypeChecker.Proofs.Runs
import TypeChecker.Registry.Build
import Mathlib.Data.List.Nodup
import Mathlib.Logic.Relation

/-!
# Collected declarations

Collecting goes step by step: a declaration is listed after all others, or it is
reported and left out. Each step keeps what the list of declarations is like: every
name stands once, and a case refers to a listed union whose parameters its own are
mapped to.
-/

namespace TypeChecker

def DeclFault.isInvalid : DeclFault -> Bool
  | .invalid _ _ => true
  | _ => false

def DeclFault.isOfTypes : DeclFault -> Bool
  | .invalid _ _ => true
  | .circular _ => true
  | _ => false

/-!
## Parameters
-/

namespace Param

theorem ofWritten_variance_ne (written : String) : (ofWritten written).variance ≠ .bivariant := by
  unfold ofWritten
  split <;> simp

theorem readAfter_ok {earlier params : List Param} {decls : List Source.ParamDecl}
    (h : readAfter earlier decls = .ok params) :
    params.length = earlier.length + decls.length ∧
      ((earlier.map Param.name).Nodup -> (params.map Param.name).Nodup) ∧
      forall p, p ∈ params -> p ∈ earlier ∨ p.variance ≠ .bivariant := by
  induction decls generalizing earlier with
  | nil =>
      cases h
      exact ⟨rfl, id, fun p hp => Or.inl hp⟩
  | cons decl decls ih =>
      rw [readAfter] at h
      split at h
      · cases h
      · split at h
        · cases h
        · rename_i hnew
          rcases ih h with ⟨hlen, hnodup, hsigned⟩
          refine ⟨?_, ?_, ?_⟩
          · rw [hlen, List.length_append, List.length_cons, List.length_cons, List.length_nil]
            omega
          · intro hearlier
            apply hnodup
            rw [List.map_append, List.nodup_append]
            refine ⟨hearlier, by simp, ?_⟩
            rintro name hname other hother rfl
            rcases List.mem_map.mp hname with ⟨p, hp, hsame⟩
            refine hnew (List.any_eq_true.mpr ⟨p, hp, ?_⟩)
            have hadded : name = (ofWritten decl.name.name).name := by simpa using hother
            exact beq_iff_eq.mpr (hsame.trans hadded)
          · intro p hp
            rcases hsigned p hp with hold | hne
            · rcases List.mem_append.mp hold with hold | hadded
              · exact Or.inl hold
              · rw [List.mem_singleton.mp hadded]
                exact Or.inr (ofWritten_variance_ne _)
            · exact Or.inr hne

theorem readAfter_error {earlier : List Param} {decls : List Source.ParamDecl} {e : DeclError}
    (h : readAfter earlier decls = .error e) : e.value.isOfTypes = false := by
  induction decls generalizing earlier with
  | nil => cases h
  | cons decl decls ih =>
      rw [readAfter] at h
      split at h
      · cases h
        rfl
      · split at h
        · cases h
          rfl
        · exact ih h

variable {decls : List Source.ParamDecl} {params : List Param}

theorem read_length (h : read decls = .ok params) : params.length = decls.length := by
  have hlen := (readAfter_ok h).left
  rw [List.length_nil, Nat.zero_add] at hlen
  exact hlen

theorem read_names (h : read decls = .ok params) : (params.map Param.name).Nodup :=
  (readAfter_ok h).right.left List.nodup_nil

theorem read_signed (h : read decls = .ok params) {p : Param} (hp : p ∈ params) :
    p.variance ≠ .bivariant := by
  rcases (readAfter_ok h).right.right p hp with hnil | hne
  · cases hnil
  · exact hne

end Param

namespace Collection

/-- Each parameter of a case is mapped to where its name stands in the union. -/
theorem mapParams_ok {union params : List Param} {decls : List Source.ParamDecl}
    {mapping : List Nat} (hlen : params.length = decls.length)
    (h : mapParams union params decls = .ok mapping) :
    params.map (fun p => union.findIdx? fun other => other.name == p.name) = mapping.map some := by
  induction params generalizing decls mapping with
  | nil =>
      cases h
      rfl
  | cons p params ih =>
      cases decls with
      | nil => cases hlen
      | cons decl decls =>
          rw [mapParams] at h
          split at h
          · rename_i index hindex
            rcases except_bind_ok.mp h with ⟨rest, hrest, h⟩
            cases h
            rw [List.map_cons, List.map_cons, hindex, ih (Nat.succ.inj hlen) hrest]
          · cases h

theorem mapping_ok {union params : List Param} {mapping : List Nat}
    (hnames : (params.map Param.name).Nodup)
    (h : params.map (fun p => union.findIdx? fun other => other.name == p.name) =
      mapping.map some) :
    mapping.length = params.length ∧ mapping.Nodup ∧
      forall index, index ∈ mapping -> index < union.length := by
  have hfound : forall {p : Param} {index : Nat},
      (union.findIdx? fun other => other.name == p.name) = some index ->
        exists other, union[index]? = some other ∧ other.name = p.name := by
    intro p index hindex
    rcases List.findIdx?_eq_some_iff_getElem.mp hindex with ⟨hlt, hname, _⟩
    exact ⟨union[index], List.getElem?_eq_getElem hlt, beq_iff_eq.mp hname⟩
  refine ⟨?_, ?_, ?_⟩
  · have hlen := congrArg List.length h
    rw [List.length_map, List.length_map] at hlen
    exact hlen.symm
  · apply List.Nodup.of_map some
    rw [<- h]
    refine List.Nodup.map_on ?_ (List.Nodup.of_map _ hnames)
    intro p hp q hq hsame
    have hmem : (union.findIdx? fun other => other.name == p.name) ∈ mapping.map some := by
      rw [<- h]
      exact List.mem_map.mpr ⟨p, hp, rfl⟩
    rcases List.mem_map.mp hmem with ⟨index, _, hindex⟩
    rcases hfound hindex.symm with ⟨other, hother, hname⟩
    rcases hfound (hsame.symm.trans hindex.symm) with ⟨other', hother', hname'⟩
    cases hother.symm.trans hother'
    exact List.inj_on_of_nodup_map hnames hp hq (hname.symm.trans hname')
  · intro index hindex
    have hmem : some index ∈
        params.map (fun p => union.findIdx? fun other => other.name == p.name) := by
      rw [h]
      exact List.mem_map.mpr ⟨index, hindex, rfl⟩
    rcases List.mem_map.mp hmem with ⟨p, _, hp⟩
    exact (List.findIdx?_eq_some_iff_getElem.mp hp).choose

end Collection

/-!
## Steps
-/

namespace Entry

def isUnion (entry : Entry) : Bool :=
  match entry.decl with
  | .union _ _ => true
  | _ => false

def IsOwned (entries : List Entry) (entry : Entry) : Prop :=
  forall owner, entry.owner = some owner -> exists union : Entry,
    entries[owner.index]? = some union ∧ union.isUnion = true ∧
      union.symbol.module = entry.symbol.module ∧
      Collection.mapParams union.params entry.params entry.decl.head.params = .ok owner.mapping

theorem IsOwned.append {entries : List Entry} {entry : Entry} (h : entry.IsOwned entries)
    (later : List Entry) : entry.IsOwned (entries ++ later) := by
  intro owner howner
  rcases h owner howner with ⟨union, hunion, hrest⟩
  refine ⟨union, ?_, hrest⟩
  rw [List.getElem?_append_left (List.getElem?_eq_some_iff.mp hunion).choose, hunion]

theorem mem_casesOf {entries : List Entry} {index : Nat} {case : Case} :
    case ∈ casesOf entries index ↔ exists entry owner, entry ∈ entries ∧
      entry.owner = some owner ∧ owner.index = index ∧
        case = { name := entry.symbol, params := owner.mapping } := by
  unfold casesOf
  rw [List.mem_filterMap]
  constructor
  · rintro ⟨entry, hentry, hcase⟩
    split at hcase
    · rename_i owner howner
      split at hcase
      · rename_i hindex
        cases hcase
        exact ⟨entry, owner, hentry, howner, hindex, rfl⟩
      · cases hcase
    · cases hcase
  · rintro ⟨entry, owner, hentry, howner, hindex, rfl⟩
    exact ⟨entry, hentry, by simp [howner, hindex]⟩

end Entry

namespace Collection

/-- One declaration, of one of the modules `homes`, is taken up. -/
inductive Step (homes : List String) : Collection -> Collection -> Prop where
  | refused {c left : Collection} {module : String} {error : DeclError} (home : module ∈ homes)
      (unlisted : error.value.isOfTypes = false) (entries : left.entries = c.entries)
      (seen : c.seen ⊆ left.seen)
      (problems : left.problems = c.problems ++ [(module, .decl error)]) : Step homes c left
  | listed {c : Collection} {entry : Entry} (home : entry.symbol.module ∈ homes)
      (fresh : entry.symbol ∉ c.seen)
      (read : Param.read entry.decl.head.params = .ok entry.params)
      (owned : entry.IsOwned c.entries) :
      Step homes c
        { c with entries := c.entries ++ [entry], seen := entry.symbol :: c.seen }

abbrev Steps (homes : List String) : Collection -> Collection -> Prop :=
  Relation.ReflTransGen (Step homes)

def Hosts (c : Collection) (module : String) (owner : Option (Nat × List Param)) : Prop :=
  forall index params, owner = some (index, params) -> exists union : Entry,
    c.entries[index]? = some union ∧ union.isUnion = true ∧ union.symbol.module = module ∧
      union.params = params

variable {homes : List String} {module : String} {owner : Option (Nat × List Param)}
  {decl : Source.TypeDecl} {c : Collection}

theorem add_ok {added : Collection} (h : add module owner decl c = .ok added) :
    exists entry : Entry,
      added = { c with entries := c.entries ++ [entry], seen := entry.symbol :: c.seen } ∧
        entry.decl = decl ∧ entry.symbol = ⟨module, decl.head.name.name⟩ ∧
        entry.symbol ∉ c.seen ∧ Param.read entry.decl.head.params = .ok entry.params ∧
        (c.Hosts module owner -> entry.IsOwned c.entries) := by
  unfold add at h
  dsimp only at h
  split at h
  · cases h
  · split at h
    · cases h
    · rename_i hfresh
      have hnew : (⟨module, decl.head.name.name⟩ : Symbol) ∉ c.seen := by simpa using hfresh
      rcases except_bind_ok.mp h with ⟨params, hparams, h⟩
      have hread := except_mapError_ok.mp hparams
      split at h
      · cases h
        exact ⟨_, rfl, rfl, rfl, hnew, hread, fun _ owner howner => by cases howner⟩
      · split at h
        · rename_i mapping hmapping
          cases h
          refine ⟨_, rfl, rfl, rfl, hnew, hread, ?_⟩
          intro howner owner hsame
          cases hsame
          rcases howner _ _ rfl with ⟨host, hhost, hunion, hmodule, rfl⟩
          exact ⟨host, hhost, hunion, hmodule, hmapping⟩
        · cases h

theorem add_error {left : Collection} (h : add module owner decl c = .error left) :
    exists error, error.value.isOfTypes = false ∧ left.entries = c.entries ∧
      c.seen ⊆ left.seen ∧ left.seen ⊆ ⟨module, decl.head.name.name⟩ :: c.seen ∧
      left.problems = c.problems ++ [(module, .decl error)] := by
  unfold add at h
  dsimp only at h
  split at h
  · cases h
    exact ⟨_, rfl, rfl, List.Subset.refl _, List.subset_cons_self _ _, rfl⟩
  · split at h
    · cases h
      exact ⟨_, rfl, rfl, List.Subset.refl _, List.subset_cons_self _ _, rfl⟩
    · cases hread : Param.read decl.head.params with
      | error e =>
          rw [hread] at h
          cases h
          exact ⟨e, Param.readAfter_error hread, rfl, List.subset_cons_self _ _,
            List.Subset.refl _, rfl⟩
      | ok params =>
          rw [hread, except_mapError_ok.mpr rfl] at h
          simp only [bind, Except.bind] at h
          split at h
          · cases h
          · split at h
            · cases h
            · cases h
              exact ⟨_, rfl, rfl, List.subset_cons_self _ _, List.Subset.refl _, rfl⟩

theorem step_of_add_error {left : Collection} (hhome : module ∈ homes)
    (h : add module owner decl c = .error left) : Step homes c left := by
  rcases add_error h with ⟨error, hunlisted, hentries, hseen, _, hproblems⟩
  exact Step.refused hhome hunlisted hentries hseen hproblems

theorem step_afterAdding (hhome : module ∈ homes) (howner : c.Hosts module owner) :
    Step homes c (afterAdding (add module owner decl c)) := by
  cases h : add module owner decl c with
  | error left => exact step_of_add_error hhome h
  | ok added =>
      rcases add_ok h with ⟨entry, rfl, _, hsymbol, hfresh, hread, howned⟩
      exact Step.listed (by rw [hsymbol]; exact hhome) hfresh hread (howned howner)

/-!
## What steps keep
-/

/-- Entries and problems of some modules are added at the end. -/
structure Extends (homes : List String) (c later : Collection) : Prop where
  entries : exists added, later.entries = c.entries ++ added ∧
    forall entry, entry ∈ added -> entry.symbol.module ∈ homes
  problems : exists added, later.problems = c.problems ++ added ∧
    forall item, item ∈ added -> item.1 ∈ homes ∧
      exists error, item.2 = .decl error ∧ error.value.isOfTypes = false

theorem Extends.refl (homes : List String) (c : Collection) : c.Extends homes c where
  entries := ⟨[], by simp, by simp⟩
  problems := ⟨[], by simp, by simp⟩

theorem Extends.trans {later last : Collection} (hfirst : c.Extends homes later)
    (hsecond : later.Extends homes last) : c.Extends homes last := by
  rcases hfirst with ⟨⟨es, hes, heshome⟩, ps, hps, hpshome⟩
  rcases hsecond with ⟨⟨fs, hfs, hfshome⟩, qs, hqs, hqshome⟩
  constructor
  · refine ⟨es ++ fs, by rw [hfs, hes, List.append_assoc], ?_⟩
    intro entry hentry
    rcases List.mem_append.mp hentry with hentry | hentry
    · exact heshome entry hentry
    · exact hfshome entry hentry
  · refine ⟨ps ++ qs, by rw [hqs, hps, List.append_assoc], ?_⟩
    intro item hitem
    rcases List.mem_append.mp hitem with hitem | hitem
    · exact hpshome item hitem
    · exact hqshome item hitem

theorem Step.extends {later : Collection} (h : Step homes c later) : c.Extends homes later := by
  cases h with
  | refused home unlisted entries seen problems =>
      refine ⟨⟨[], by simp [entries], by simp⟩, ⟨_, problems, ?_⟩⟩
      intro item hitem
      rw [List.mem_singleton.mp hitem]
      exact ⟨home, _, rfl, unlisted⟩
  | listed home fresh read owned =>
      exact ⟨⟨_, rfl, by simpa using home⟩, ⟨[], by simp, by simp⟩⟩

theorem Steps.extends {later : Collection} (h : Steps homes c later) : c.Extends homes later := by
  induction h with
  | refl => exact Extends.refl homes c
  | tail _ step ih => exact ih.trans step.extends

/-- A list of declarations in which every name stands once and refers to listed unions. -/
structure WellListed (c : Collection) : Prop where
  seen : forall entry, entry ∈ c.entries -> entry.symbol ∈ c.seen
  distinct : (c.entries.map Entry.symbol).Nodup
  read : forall entry, entry ∈ c.entries ->
    Param.read entry.decl.head.params = .ok entry.params
  owned : forall entry, entry ∈ c.entries -> entry.IsOwned c.entries

theorem wellListed_empty : WellListed {} := ⟨by simp, by simp, by simp, by simp⟩

theorem WellListed.step {later : Collection} (hc : c.WellListed) (h : Step homes c later) :
    later.WellListed := by
  cases h with
  | refused home unlisted entries seen problems =>
      constructor
      · intro entry hentry
        rw [entries] at hentry
        exact seen (hc.seen entry hentry)
      · rw [entries]
        exact hc.distinct
      · rw [entries]
        exact hc.read
      · rw [entries]
        exact hc.owned
  | @listed entry home fresh read owned =>
      have hcases : forall {other : Entry}, other ∈ c.entries ++ [entry] ->
          other ∈ c.entries ∨ other = entry := by
        intro other hother
        simpa using hother
      constructor
      · intro other hother
        rcases hcases hother with hold | rfl
        · exact List.mem_cons_of_mem _ (hc.seen other hold)
        · exact List.mem_cons_self
      · rw [List.map_append, List.nodup_append]
        refine ⟨hc.distinct, by simp, ?_⟩
        rintro symbol hsymbol other hother rfl
        rcases List.mem_map.mp hsymbol with ⟨old, hold, hsame⟩
        have hnew : symbol = entry.symbol := by simpa using hother
        exact fresh (hnew ▸ hsame ▸ hc.seen old hold)
      · intro other hother
        rcases hcases hother with hold | rfl
        · exact hc.read other hold
        · exact read
      · intro other hother
        rcases hcases hother with hold | rfl
        · exact (hc.owned other hold).append _
        · exact owned.append _

theorem WellListed.steps {later : Collection} (hc : c.WellListed) (h : Steps homes c later) :
    later.WellListed := by
  induction h with
  | refl => exact hc
  | tail _ step ih => exact ih.step step

theorem WellListed.eq_of_symbol_eq (hc : c.WellListed) {a b : Entry} (ha : a ∈ c.entries)
    (hb : b ∈ c.entries) (h : a.symbol = b.symbol) : a = b :=
  List.inj_on_of_nodup_map hc.distinct ha hb h

/-!
## Collecting
-/

theorem Hosts.of_extends {later : Collection} (howner : c.Hosts module owner)
    (h : c.Extends homes later) : later.Hosts module owner := by
  intro index params hsome
  rcases howner index params hsome with ⟨union, hunion, hrest⟩
  rcases h.entries with ⟨added, hadded, _⟩
  refine ⟨union, ?_, hrest⟩
  rw [hadded, List.getElem?_append_left (List.getElem?_eq_some_iff.mp hunion).choose, hunion]

mutual

theorem collect_steps {owner : Option (Nat × List Param)} {c : Collection}
    (hhome : module ∈ homes) (howner : c.Hosts module owner) :
    (decl : Source.TypeDecl) -> Steps homes c (collect module owner c decl)
  | .union head cases => by
      rw [collect]
      split
      · exact Relation.ReflTransGen.single (step_of_add_error hhome (by assumption))
      · rename_i added hadd
        rcases add_ok hadd with ⟨entry, rfl, hdecl, hsymbol, hfresh, hread, howned⟩
        have hmodule : entry.symbol.module = module := congrArg Symbol.module hsymbol
        have hstep : Step homes c _ :=
          Step.listed (hmodule ▸ hhome) hfresh hread (howned howner)
        refine (Relation.ReflTransGen.single hstep).trans (collectList_steps hhome ?_ cases)
        intro index params hsome
        cases hsome
        exact ⟨entry, by simp, by rw [Entry.isUnion, hdecl], hmodule, by simp⟩
  | .boxed head decl => by
      rw [collect]
      exact Relation.ReflTransGen.single (step_afterAdding hhome howner)
  | .native head => by
      rw [collect]
      exact Relation.ReflTransGen.single (step_afterAdding hhome howner)

theorem collectList_steps {owner : Option (Nat × List Param)} {c : Collection}
    (hhome : module ∈ homes) (howner : c.Hosts module owner) :
    (decls : List Source.TypeDecl) -> Steps homes c (collectList module owner c decls)
  | [] => Relation.ReflTransGen.refl
  | decl :: rest => by
      rw [collectList]
      have hfirst := collect_steps hhome howner decl
      exact hfirst.trans (collectList_steps hhome (howner.of_extends hfirst.extends) rest)

end

theorem collectAll_steps {modules : List Source.Module}
    (hhomes : forall m, m ∈ modules -> m.name ∈ homes) (c : Collection) :
    Steps homes c (modules.foldl (fun c m => collectList m.name none c m.types) c) := by
  induction modules generalizing c with
  | nil => exact Relation.ReflTransGen.refl
  | cons m rest ih =>
      have hfirst : Steps homes c (collectList m.name none c m.types) :=
        collectList_steps (hhomes m List.mem_cons_self) (fun _ _ hnone => by cases hnone) m.types
      exact hfirst.trans (ih (fun m hm => hhomes m (List.mem_cons_of_mem _ hm)) _)

theorem wellListed_ofModules (modules : List Source.Module) : (ofModules modules).WellListed :=
  wellListed_empty.steps
    (collectAll_steps (fun _ hm => List.mem_map.mpr ⟨_, hm, rfl⟩) {})

theorem ofModules_extends (modules : List Source.Module) :
    Extends (modules.map Source.Module.name) {} (ofModules modules) :=
  (collectAll_steps (fun _ hm => List.mem_map.mpr ⟨_, hm, rfl⟩) {}).extends

theorem home_of_mem {modules : List Source.Module} {entry : Entry}
    (h : entry ∈ (ofModules modules).entries) :
    entry.symbol.module ∈ modules.map Source.Module.name := by
  rcases (ofModules_extends modules).entries with ⟨added, hadded, hhome⟩
  rw [hadded, List.nil_append] at h
  exact hhome entry h

theorem home_of_problem {modules : List Source.Module} {item : String × Problem}
    (h : item ∈ (ofModules modules).problems) :
    item.1 ∈ modules.map Source.Module.name ∧
      exists error, item.2 = .decl error ∧ error.value.isOfTypes = false := by
  rcases (ofModules_extends modules).problems with ⟨added, hadded, hhome⟩
  rw [hadded, List.nil_append] at h
  exact hhome item h

theorem ofModules_cons_extends (first : Source.Module) (modules : List Source.Module) :
    (ofModules [first]).Extends (modules.map Source.Module.name) (ofModules (first :: modules)) :=
  (collectAll_steps (fun _ hm => List.mem_map.mpr ⟨_, hm, rfl⟩) (ofModules [first])).extends

end Collection
end TypeChecker
