import TypeChecker.Proofs.Registry.Reports

/-!
# Closed data tables

Identities are given out in one pass over the registry and schemas are derived in a
second one, from the identities alone. No identity is given twice. If nothing is
refused in either pass, every tagged type has its identity and a schema, and whatever
a schema mentions has a schema too.
-/

namespace TypeChecker

instance : LawfulKeyOrder DataId where
  eq_iff a b := by
    rcases a with ⟨name, version⟩
    rcases b with ⟨name', version'⟩
    have h := LawfulKeyOrder.eq_iff (Symbol.mk name version) (Symbol.mk name' version')
    rw [Symbol.mk.injEq] at h
    rw [DataId.mk.injEq]
    exact h
  swap a b := LawfulKeyOrder.swap (Symbol.mk a.name a.version) (Symbol.mk b.name b.version)
  trans a b c :=
    LawfulKeyOrder.trans (Symbol.mk a.name a.version) (Symbol.mk b.name b.version)
      (Symbol.mk c.name c.version)

/-!
## What a schema mentions
-/

def WireType.mentioned : WireType -> List DataId
  | .primitive _ => []
  | .array element => element.mentioned
  | .optional element => element.mentioned
  | .ref id => [id]

def Schema.mentioned : Schema -> List DataId
  | .tuple elements => elements.flatMap WireType.mentioned
  | .record fields => fields.flatMap fun field => field.2.mentioned
  | .union cases => cases

def DataIds.Given (ids : DataIds) (id : DataId) : Prop :=
  exists name, Table.get? ids name = some id

namespace Schema

variable {ids : DataIds}

theorem given_of_wire {t : Ty} {wire : WireType} (h : WireType.of? ids t = some wire)
    {id : DataId} (hid : id ∈ wire.mentioned) : ids.Given id := by
  fun_induction WireType.of? ids t generalizing wire with
  | case1 name hprimitive =>
      cases h
      cases hid
  | case2 name hother =>
      rcases Option.map_eq_some_iff.mp h with ⟨given, hgiven, rfl⟩
      rw [WireType.mentioned, List.mem_singleton] at hid
      exact ⟨name, hid ▸ hgiven⟩
  | case3 name arg hcore harray ih =>
      rcases Option.map_eq_some_iff.mp h with ⟨element, helement, rfl⟩
      exact ih helement hid
  | case4 name arg hcore harray hoptional ih =>
      rcases Option.map_eq_some_iff.mp h with ⟨element, helement, rfl⟩
      exact ih helement hid
  | case5 => cases h
  | case6 => cases h
  | case7 => cases h

theorem given_of_elements {index : Nat} {items : List Ty} {wires : List WireType}
    (h : elements ids index items = .ok wires) {wire : WireType} (hwire : wire ∈ wires)
    {id : DataId} (hid : id ∈ wire.mentioned) : ids.Given id := by
  induction items generalizing index wires with
  | nil =>
      cases h
      cases hwire
  | cons t rest ih =>
      rw [elements] at h
      split at h
      · rename_i first hfirst
        rcases except_bind_ok.mp h with ⟨others, hothers, h⟩
        cases h
        rcases List.mem_cons.mp hwire with rfl | hlater
        · exact given_of_wire hfirst hid
        · exact ih hothers hlater
      · cases h

theorem given_of_fields {declared : List (String × Field Ty)} {wires : List (String × WireType)}
    (h : fields ids declared = .ok wires) {item : String × WireType} (hitem : item ∈ wires)
    {id : DataId} (hid : id ∈ item.2.mentioned) : ids.Given id := by
  induction declared generalizing wires with
  | nil =>
      cases h
      cases hitem
  | cons field rest ih =>
      rw [fields] at h
      split at h
      · rename_i wire hwire
        rcases except_bind_ok.mp h with ⟨others, hothers, h⟩
        cases h
        rcases List.mem_cons.mp hitem with rfl | hlater
        · exact given_of_wire hwire hid
        · exact ih hothers hlater
      · cases h

theorem cases_ok {declared : List Case} {found : List DataId} (h : cases ids declared = .ok found) :
    declared.map (fun case => Table.get? ids case.name) = found.map some := by
  induction declared generalizing found with
  | nil =>
      cases h
      rfl
  | cons case rest ih =>
      rw [cases] at h
      split at h
      · rename_i id hid
        rcases except_bind_ok.mp h with ⟨others, hothers, h⟩
        cases h
        rw [List.map_cons, List.map_cons, hid, ih hothers]
      · cases h

theorem of_union {d : Declaration} {declared : List Case} (hd : d.definition = .union declared)
    {schema : Schema} (h : of ids d = .ok schema) :
    exists found, schema = .union found ∧
      declared.map (fun case => Table.get? ids case.name) = found.map some := by
  rw [of, hd] at h
  rcases except_bind_ok.mp h with ⟨found, hfound, h⟩
  cases h
  exact ⟨found, rfl, cases_ok hfound⟩

theorem given_of_mentioned {d : Declaration} {schema : Schema} (h : of ids d = .ok schema)
    {id : DataId} (hid : id ∈ schema.mentioned) : ids.Given id := by
  cases hdefinition : d.definition with
  | native =>
      rw [of, hdefinition] at h
      cases h
  | union declared =>
      rcases of_union hdefinition h with ⟨found, rfl, hfound⟩
      have hmem : some id ∈ found.map some := List.mem_map.mpr ⟨id, hid, rfl⟩
      rw [<- hfound] at hmem
      rcases List.mem_map.mp hmem with ⟨case, _, hcase⟩
      exact ⟨case.name, hcase⟩
  | boxed boxed =>
      have htuple : forall {items : List Ty} {wires : List WireType},
          elements ids 0 items = .ok wires -> schema = .tuple wires -> ids.Given id := by
        rintro items wires hwires rfl
        rcases List.mem_flatMap.mp hid with ⟨wire, hwire, hmentioned⟩
        exact given_of_elements hwires hwire hmentioned
      rw [of, hdefinition] at h
      dsimp only at h
      split at h
      · cases h
        cases hid
      · rcases except_bind_ok.mp h with ⟨wires, hwires, h⟩
        cases h
        exact htuple hwires rfl
      · rcases except_bind_ok.mp h with ⟨wires, hwires, h⟩
        cases h
        rcases List.mem_flatMap.mp hid with ⟨item, hitem, hmentioned⟩
        exact given_of_fields hwires (Table.mem_ofPairs hitem) hmentioned
      · rcases except_bind_ok.mp h with ⟨wires, hwires, h⟩
        cases h
        exact htuple hwires rfl

end Schema

/-!
## Identities
-/

namespace DataTable

variable {ids : DataIds} {items : List (Symbol × Declaration)} {name : Symbol} {d : Declaration}
  {id : DataId}

def Distinct (ids : DataIds) : Prop :=
  forall name other id, Table.get? ids name = some id -> Table.get? ids other = some id ->
    name = other

theorem not_given_of_accepted (h : refusal? ids id d = none) : ¬ ids.Given id := by
  rintro ⟨other, hother⟩
  have htaken : (ids.any fun item => item.2 = id) = true :=
    List.any_eq_true.mpr ⟨(other, id), Table.mem_of_get? hother, decide_eq_true rfl⟩
  unfold refusal? at h
  split at h
  · cases h
  · rw [htaken] at h
    split at h
    · cases h
    · cases h

theorem Distinct.put (h : Distinct ids) (hnew : ¬ ids.Given id) :
    Distinct (Table.put name id ids) := by
  intro a b shared ha hb
  rw [Table.get?_put] at ha hb
  split at ha
  · rename_i hname
    split at hb
    · rename_i hname'
      exact hname.symm.trans hname'
    · cases ha
      exact absurd ⟨b, hb⟩ hnew
  · split at hb
    · cases hb
      exact absurd ⟨a, ha⟩ hnew
    · exact h a b shared ha hb

theorem distinct_assignIds (h : Distinct ids) : Distinct (assignIds ids items).1 := by
  induction items generalizing ids with
  | nil => exact h
  | cons item rest ih =>
      rcases item with ⟨first, d⟩
      rw [assignIds]
      split
      · exact ih h
      · rename_i given _
        cases hrefusal : refusal? ids given d with
        | some fault => exact ih h
        | none => exact ih (h.put (not_given_of_accepted hrefusal))

theorem get?_assignIds_of_not_mem (h : name ∉ items.map Prod.fst) :
    Table.get? (assignIds ids items).1 name = Table.get? ids name := by
  induction items generalizing ids with
  | nil => rfl
  | cons item rest ih =>
      rcases item with ⟨first, d⟩
      rw [List.map_cons, List.mem_cons, not_or] at h
      rw [assignIds]
      split
      · exact ih h.right
      · rename_i given _
        cases hrefusal : refusal? ids given d with
        | some fault => exact ih h.right
        | none =>
            dsimp only
            rw [ih h.right, Table.get?_put, if_neg (Ne.symm h.left)]

/-- If no identity is refused, every tagged type has the one it is tagged with. -/
theorem get?_assignIds_of_tag (hkeys : (items.map Prod.fst).Nodup)
    (h : (assignIds ids items).2 = []) (hd : (name, d) ∈ items) (htag : d.data = some id) :
    Table.get? (assignIds ids items).1 name = some id := by
  induction items generalizing ids with
  | nil => cases hd
  | cons item rest ih =>
      rcases item with ⟨first, e⟩
      rw [List.map_cons, List.nodup_cons] at hkeys
      rw [assignIds] at h ⊢
      split at h
      · rename_i hnone
        rcases List.mem_cons.mp hd with heq | hlater
        · cases heq
          cases hnone.symm.trans htag
        · exact ih hkeys.right h hlater
      · rename_i given hgiven
        cases hrefusal : refusal? ids given e with
        | some fault =>
            rw [hrefusal] at h
            cases h
        | none =>
            rw [hrefusal] at h
            dsimp only at h ⊢
            rcases List.mem_cons.mp hd with heq | hlater
            · cases heq
              cases hgiven.symm.trans htag
              rw [get?_assignIds_of_not_mem hkeys.left, Table.get?_put, if_pos rfl]
            · exact ih hkeys.right h hlater

/-!
## Schemas
-/

theorem of_deriveSchemas {schema : Schema}
    (h : Table.get? (deriveSchemas ids items).1 id = some schema) :
    exists name d, (name, d) ∈ items ∧ Table.get? ids name = some id ∧
      Schema.of ids d = .ok schema := by
  induction items with
  | nil => cases h
  | cons item rest ih =>
      rcases item with ⟨first, e⟩
      have hlater : Table.get? (deriveSchemas ids rest).1 id = some schema ->
          exists name d, (name, d) ∈ (first, e) :: rest ∧ Table.get? ids name = some id ∧
            Schema.of ids d = .ok schema := by
        intro hrest
        rcases ih hrest with ⟨name, d, hd, hfound⟩
        exact ⟨name, d, List.mem_cons_of_mem _ hd, hfound⟩
      rw [deriveSchemas] at h
      dsimp only at h
      split at h
      · exact hlater h
      · rename_i given hgiven
        split at h
        · rename_i own hown
          rw [Table.get?_put] at h
          split at h
          · rename_i hsame
            cases h
            exact ⟨first, e, List.mem_cons_self, hsame ▸ hgiven, hown⟩
          · exact hlater h
        · exact hlater h

theorem contains_deriveSchemas (h : (deriveSchemas ids items).2 = []) (hd : (name, d) ∈ items)
    (hid : Table.get? ids name = some id) :
    Table.contains (deriveSchemas ids items).1 id = true := by
  induction items with
  | nil => cases hd
  | cons item rest ih =>
      rcases item with ⟨first, e⟩
      rw [deriveSchemas] at h ⊢
      dsimp only at h ⊢
      split at h
      · rename_i hnone
        rcases List.mem_cons.mp hd with heq | hlater
        · cases heq
          cases hnone.symm.trans hid
        · exact ih h hlater
      · rename_i given hgiven
        split at h
        · rename_i own hown
          rw [Table.contains_put]
          rcases List.mem_cons.mp hd with heq | hlater
          · cases heq
            exact Or.inl (Option.some.inj (hgiven.symm.trans hid))
          · exact Or.inr (ih h hlater)
        · cases h

end DataTable

/-- No two types share an identity, and the schema of a union lists its cases in order.
If nothing is refused, every tagged type has its identity and a schema, and every
identity that a schema mentions is that of a type with a schema. -/
theorem data_table_closed {registry : Registry} (hkeys : (registry.map Prod.fst).Nodup)
    {table : DataTable} {problems : DataProblems}
    (htable : DataTable.ofRegistry registry = (table, problems)) :
    (forall name other id, Table.get? table.ids name = some id ->
      Table.get? table.ids other = some id -> name = other) ∧
    (forall name d declared schema, Table.get? registry name = some d ->
      d.definition = .union declared -> table.schemaOf? name = some schema ->
      exists found, schema = .union found ∧
        declared.map (fun case => Table.get? table.ids case.name) = found.map some) ∧
    (problems = [] ->
      (forall name d id, Table.get? registry name = some d -> d.data = some id ->
        Table.get? table.ids name = some id ∧
          exists schema, Table.get? table.schemas id = some schema) ∧
      forall id schema mentioned, Table.get? table.schemas id = some schema ->
        mentioned ∈ schema.mentioned ->
        exists name target, Table.get? table.ids name = some mentioned ∧
          Table.get? table.schemas mentioned = some target) := by
  have hdistinct : DataTable.Distinct (DataTable.assignIds [] registry).1 :=
    DataTable.distinct_assignIds fun _ _ _ h => by cases h
  cases htable
  refine ⟨hdistinct, ?_, ?_⟩
  · intro name d declared schema hd hunion hschema
    rcases Option.bind_eq_some_iff.mp hschema with ⟨id, hid, hstored⟩
    rcases DataTable.of_deriveSchemas hstored with ⟨name', d', hd', hid', hof⟩
    cases hdistinct name name' id hid hid'
    cases hd.symm.trans (Table.get?_of_mem hkeys hd')
    exact Schema.of_union hunion hof
  · intro hproblems
    rcases List.append_eq_nil_iff.mp hproblems with ⟨hassigned, hderived⟩
    have hstored : forall {name d id}, (name, d) ∈ registry ->
        Table.get? (DataTable.assignIds [] registry).1 name = some id ->
        exists schema, Table.get? (DataTable.deriveSchemas
          (DataTable.assignIds [] registry).1 registry).1 id = some schema := by
      intro name d id hd hid
      exact Option.isSome_iff_exists.mp (DataTable.contains_deriveSchemas hderived hd hid)
    constructor
    · intro name d id hd htag
      have hmem := Table.mem_of_get? hd
      have hid := DataTable.get?_assignIds_of_tag hkeys hassigned hmem htag
      exact ⟨hid, hstored hmem hid⟩
    · intro id schema mentioned hschema hmentioned
      rcases DataTable.of_deriveSchemas hschema with ⟨_, _, _, _, hof⟩
      rcases Schema.given_of_mentioned hof hmentioned with ⟨name, hname⟩
      rcases DataTable.assignIds_tags.left mentioned hname with hnone | ⟨d, hd, _⟩
      · cases hnone
      · rcases hstored hd hname with ⟨target, htarget⟩
        exact ⟨name, target, hname, htarget⟩

def treeRegistry : Registry :=
  let tag := fun name : String => some ({ name := name, version := "v1" } : DataId)
  let tree : Ty := .named ⟨"Main", "Tree"⟩ []
  let kids : Ty := .named (Symbol.core "List") [.named (Symbol.core "Maybe") [tree]]
  [(⟨"Main", "Fork"⟩,
      { data := tag "fork"
        definition := .boxed { inner := .bundle [("kids", { slot := 0, type := kids })] } }),
    (⟨"Main", "Leaf"⟩, { data := tag "leaf", definition := .boxed { inner := Ty.core "Int" } }),
    (⟨"Main", "Tree"⟩,
      { data := tag "tree"
        definition := .union [⟨⟨"Main", "Leaf"⟩, []⟩, ⟨⟨"Main", "Fork"⟩, []⟩] })]

/-- The schema of forks mentions that of trees under an array of optional values, and
this one mentions the schemas of leaves and of forks in turn. -/
theorem tree_schemas_closed :
    let table := (DataTable.ofRegistry treeRegistry).1
    let tree : DataId := ⟨"tree", "v1"⟩
    let leaf : DataId := ⟨"leaf", "v1"⟩
    let fork : DataId := ⟨"fork", "v1"⟩
    (treeRegistry.map Prod.fst).Nodup ∧ (DataTable.ofRegistry treeRegistry).2 = [] ∧
      (exists schema, Table.get? table.schemas fork = some schema ∧ tree ∈ schema.mentioned) ∧
      (exists name target, Table.get? table.ids name = some tree ∧
        Table.get? table.schemas tree = some target) ∧
      table.schemaOf? ⟨"Main", "Tree"⟩ = some (.union [leaf, fork]) := by
  intro table tree leaf fork
  have hkeys : (treeRegistry.map Prod.fst).Nodup := by decide
  have hproblems : (DataTable.ofRegistry treeRegistry).2 = [] := rfl
  rcases data_table_closed hkeys rfl with ⟨_, _, hclosed⟩
  rcases hclosed hproblems with ⟨_, hmentioned⟩
  have hfork : Table.get? table.schemas fork =
      some (.record [("kids", .array (.optional (.ref tree)))]) := rfl
  have htree : tree ∈ (Schema.record [("kids", .array (.optional (.ref tree)))]).mentioned :=
    List.mem_singleton.mpr rfl
  exact ⟨hkeys, hproblems, ⟨_, hfork, htree⟩, hmentioned fork _ tree hfork htree, rfl⟩

end TypeChecker
