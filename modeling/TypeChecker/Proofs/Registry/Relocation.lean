import TypeChecker.Proofs.Registry.Collected

/-!
# Collections one after another

A case refers to its union by position, so what is listed depends on what was listed
before. It depends on nothing else: declarations with new names are listed after a
collection as they are listed alone, moved behind it. A program in which every name
is declared once is therefore collected declaration by declaration.
-/

namespace TypeChecker

/-!
## Declared names
-/

namespace Source

mutual

def TypeDecl.symbols (module : String) : TypeDecl -> List Symbol
  | .union head cases => ⟨module, head.name.name⟩ :: TypeDecl.symbolsList module cases
  | .boxed head _ => [⟨module, head.name.name⟩]
  | .native head => [⟨module, head.name.name⟩]

def TypeDecl.symbolsList (module : String) : List TypeDecl -> List Symbol
  | [] => []
  | decl :: rest => TypeDecl.symbols module decl ++ TypeDecl.symbolsList module rest

end

theorem TypeDecl.head_mem_symbols (module : String) (decl : TypeDecl) :
    (⟨module, decl.head.name.name⟩ : Symbol) ∈ decl.symbols module := by
  cases decl <;> simp [symbols, head]

def topLevel (modules : List Module) : List (String × TypeDecl) :=
  modules.flatMap fun m => m.types.map (Prod.mk m.name)

/-- The names that the types of some modules are declared under, cases included. -/
def declaredSymbols (modules : List Module) : List Symbol :=
  (topLevel modules).flatMap fun item => item.2.symbols item.1

end Source

/-!
## Moving entries
-/

def Owner.moved (count : Nat) (owner : Owner) : Owner :=
  { owner with index := count + owner.index }

def Entry.moved (count : Nat) (entry : Entry) : Entry :=
  { entry with owner := entry.owner.map (Owner.moved count) }

namespace Collection

def followedBy (c later : Collection) : Collection where
  entries := c.entries ++ later.entries.map (Entry.moved c.entries.length)
  seen := later.seen ++ c.seen
  problems := c.problems ++ later.problems

def outcomeAfter (c : Collection) : Except Collection Collection -> Except Collection Collection
  | .ok added => .ok (c.followedBy added)
  | .error left => .error (c.followedBy left)

def hostAfter (c : Collection) (owner : Option (Nat × List Param)) :
    Option (Nat × List Param) :=
  owner.map fun host => (c.entries.length + host.1, host.2)

variable {module : String} {owner : Option (Nat × List Param)} {decl : Source.TypeDecl}
  {c d : Collection}

theorem followedBy_empty (c : Collection) : c.followedBy {} = c := by
  simp [followedBy]

theorem length_followedBy (c d : Collection) :
    (c.followedBy d).entries.length = c.entries.length + d.entries.length := by
  simp [followedBy]

theorem report_followedBy (c d : Collection) (module : String) (fault : DeclFault) (span : Span) :
    (c.followedBy d).report module fault span = c.followedBy (d.report module fault span) := by
  simp [report, followedBy]

theorem listed_followedBy (c d : Collection) (entry : Entry) :
    { c.followedBy d with
      entries := (c.followedBy d).entries ++ [entry.moved c.entries.length]
      seen := entry.symbol :: (c.followedBy d).seen } =
    c.followedBy { d with entries := d.entries ++ [entry], seen := entry.symbol :: d.seen } := by
  simp [followedBy]

theorem contains_followedBy {symbol : Symbol} (h : symbol ∉ c.seen) :
    (c.followedBy d).seen.contains symbol = d.seen.contains symbol := by
  simp [followedBy, h]

theorem add_followedBy (hnew : (⟨module, decl.head.name.name⟩ : Symbol) ∉ c.seen) :
    add module (c.hostAfter owner) decl (c.followedBy d) =
      c.outcomeAfter (add module owner decl d) := by
  unfold add
  dsimp only
  rw [contains_followedBy hnew]
  split
  · rw [report_followedBy]
    rfl
  · split
    · rw [report_followedBy]
      rfl
    · have hreport := report_followedBy c
        { d with seen := ⟨module, decl.head.name.name⟩ :: d.seen } module
      cases Param.read decl.head.params with
      | error e => exact congrArg Except.error (hreport e.value e.span)
      | ok params =>
          have hlisted := fun owner => listed_followedBy c d
            { symbol := ⟨module, decl.head.name.name⟩, decl := decl, params := params, owner }
          rw [except_mapError_ok.mpr rfl, except_mapError_ok.mpr rfl]
          simp only [bind, Except.bind]
          cases owner with
          | none => exact congrArg Except.ok (hlisted none)
          | some host =>
              rcases host with ⟨index, union⟩
              dsimp only [hostAfter, Option.map_some]
              cases mapParams union params decl.head.params with
              | error bad => exact congrArg Except.error (hreport _ bad.span)
              | ok mapping => exact congrArg Except.ok (hlisted (some ⟨index, mapping⟩))

/-!
## Collecting behind a collection
-/

theorem afterAdding_outcomeAfter (c : Collection) (outcome : Except Collection Collection) :
    afterAdding (c.outcomeAfter outcome) = c.followedBy (afterAdding outcome) := by
  cases outcome <;> rfl

mutual

theorem collect_followedBy {owner : Option (Nat × List Param)} {d : Collection} :
    (decl : Source.TypeDecl) ->
    (hnew : forall symbol, symbol ∈ decl.symbols module -> symbol ∉ c.seen) ->
    collect module (c.hostAfter owner) (c.followedBy d) decl =
      c.followedBy (collect module owner d decl)
  | .union head cases, hnew => by
      have hhead := hnew _ (Source.TypeDecl.head_mem_symbols module (.union head cases))
      rw [collect, collect, add_followedBy hhead]
      cases hadd : add module owner (.union head cases) d with
      | error left => rfl
      | ok added =>
          rcases add_ok hadd with ⟨entry, rfl, _⟩
          have hhost : some ((c.followedBy d).entries.length, entry.params) =
              c.hostAfter (some (d.entries.length, entry.params)) := by
            rw [length_followedBy]
            rfl
          have hcases := fun symbol h => hnew symbol (List.mem_cons_of_mem _ h)
          dsimp only [outcomeAfter]
          rw [<- listed_followedBy, List.getLast?_concat, List.getLast?_concat]
          dsimp only [Option.map_some, Option.getD_some, Entry.moved]
          rw [hhost, <- collectList_followedBy cases hcases, <- listed_followedBy]
          rfl
  | .boxed head decl, hnew => by
      have hhead := hnew _ (Source.TypeDecl.head_mem_symbols module (.boxed head decl))
      rw [collect, collect, add_followedBy hhead, afterAdding_outcomeAfter]
  | .native head, hnew => by
      have hhead := hnew _ (Source.TypeDecl.head_mem_symbols module (.native head))
      rw [collect, collect, add_followedBy hhead, afterAdding_outcomeAfter]

theorem collectList_followedBy {owner : Option (Nat × List Param)} {d : Collection} :
    (decls : List Source.TypeDecl) ->
    (hnew : forall symbol, symbol ∈ Source.TypeDecl.symbolsList module decls -> symbol ∉ c.seen) ->
    collectList module (c.hostAfter owner) (c.followedBy d) decls =
      c.followedBy (collectList module owner d decls)
  | [], _ => rfl
  | decl :: rest, hnew => by
      have hfirst := fun symbol h => hnew symbol (List.mem_append_left _ h)
      have hrest := fun symbol h => hnew symbol (List.mem_append_right _ h)
      rw [collectList, collectList, collect_followedBy decl hfirst,
        collectList_followedBy rest hrest]

end

/-!
## Collecting declaration by declaration
-/

theorem seen_afterAdding :
    (afterAdding (add module owner decl c)).seen ⊆ ⟨module, decl.head.name.name⟩ :: c.seen := by
  cases h : add module owner decl c with
  | error left =>
      rcases add_error h with ⟨_, _, _, _, hseen, _⟩
      exact hseen
  | ok added =>
      rcases add_ok h with ⟨entry, rfl, _, hsymbol, _⟩
      rw [<- hsymbol]
      exact List.Subset.refl _

mutual

theorem seen_collect {owner : Option (Nat × List Param)} {c : Collection} :
    (decl : Source.TypeDecl) ->
    (collect module owner c decl).seen ⊆ decl.symbols module ++ c.seen
  | .union head cases => by
      rw [collect, Source.TypeDecl.symbols, List.cons_append]
      cases hadd : add module owner (.union head cases) c with
      | error left =>
          rcases add_error hadd with ⟨_, _, _, _, hseen, _⟩
          exact List.Subset.trans hseen (List.cons_subset_cons _ (List.subset_append_right _ _))
      | ok added =>
          rcases add_ok hadd with ⟨entry, rfl, _, hsymbol, _⟩
          refine List.Subset.trans (seen_collectList cases) ?_
          rw [hsymbol]
          exact List.perm_middle.subset
  | .boxed head decl => seen_afterAdding
  | .native head => seen_afterAdding

theorem seen_collectList {owner : Option (Nat × List Param)} {c : Collection} :
    (decls : List Source.TypeDecl) ->
    (collectList module owner c decls).seen ⊆ Source.TypeDecl.symbolsList module decls ++ c.seen
  | [] => List.Subset.refl _
  | decl :: rest => by
      rw [collectList, Source.TypeDecl.symbolsList, List.append_assoc]
      intro symbol hsymbol
      rcases List.mem_append.mp (seen_collectList rest hsymbol) with hrest | hfirst
      · exact List.mem_append_right _ (List.mem_append_left _ hrest)
      · rcases List.mem_append.mp (seen_collect decl hfirst) with hhere | hbefore
        · exact List.mem_append_left _ hhere
        · exact List.mem_append_right _ (List.mem_append_right _ hbefore)

end

def alone (item : String × Source.TypeDecl) : Collection :=
  collect item.1 none {} item.2

theorem collectList_eq_foldl (decls : List Source.TypeDecl) :
    collectList module owner c decls = decls.foldl (collect module owner) c := by
  induction decls generalizing c with
  | nil => rfl
  | cons decl rest ih =>
      rw [collectList, ih]
      rfl

theorem ofModules_eq_foldl (modules : List Source.Module) :
    ofModules modules =
      (Source.topLevel modules).foldl (fun c item => collect item.1 none c item.2) {} := by
  simp only [ofModules, Source.topLevel, List.foldl_flatMap, List.foldl_map, collectList_eq_foldl]

theorem foldl_collect_eq {items : List (String × Source.TypeDecl)}
    (hdistinct : (items.flatMap fun item => item.2.symbols item.1).Nodup)
    (hnew : forall symbol, symbol ∈ items.flatMap (fun item => item.2.symbols item.1) ->
      symbol ∉ c.seen) :
    items.foldl (fun c item => collect item.1 none c item.2) c =
      (items.map alone).foldl followedBy c := by
  induction items generalizing c with
  | nil => rfl
  | cons item rest ih =>
      rw [List.flatMap_cons] at hdistinct hnew
      rcases List.nodup_append.mp hdistinct with ⟨_, hrest, hapart⟩
      have hfirst : collect item.1 none c item.2 = c.followedBy (alone item) := by
        have hbehind := @collect_followedBy item.1 c none {} item.2
          (fun symbol h => hnew symbol (List.mem_append_left _ h))
        rw [followedBy_empty] at hbehind
        exact hbehind
      rw [List.foldl_cons, List.map_cons, List.foldl_cons, hfirst]
      refine ih hrest ?_
      intro symbol hsymbol hseen
      rcases List.mem_append.mp hseen with hhere | hbefore
      · have hdeclared := seen_collect item.2 hhere
        rw [List.append_nil] at hdeclared
        exact hapart symbol hdeclared symbol hsymbol rfl
      · exact hnew symbol (List.mem_append_right _ hsymbol) hbefore

/-- A program in which every name is declared once is collected declaration by
declaration. -/
theorem ofModules_eq_followedBy {modules : List Source.Module}
    (hdistinct : (Source.declaredSymbols modules).Nodup) :
    ofModules modules = ((Source.topLevel modules).map alone).foldl followedBy {} := by
  rw [ofModules_eq_foldl]
  exact foldl_collect_eq hdistinct (fun _ _ hseen => by cases hseen)

end Collection
end TypeChecker
