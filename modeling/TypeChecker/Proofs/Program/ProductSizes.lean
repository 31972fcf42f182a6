import TypeChecker.Proofs.Program.Bodies

/-!
# Sizes of products in checked code

A written type with too many items is refused, so that no bundle in checked code has more
fields than the limit allows. Nothing counts the items of a tuple as it is written in an
expression, and where it is not matched with a tuple type it may exceed the limit. A product
that does has the size of a tuple written in the same body.
-/

namespace TypeChecker

/-!
## Bundles within a limit
-/

def Former.isWithin (limit : Nat) : Former -> Bool
  | .bundle fields => Nat.ble fields.length limit
  | _ => true

theorem Former.isWithin_bundle {limit : Nat} {fields : List (String × Nat)} :
    (Former.bundle fields).isWithin limit = true ↔ fields.length ≤ limit :=
  iff_of_eq Nat.ble_eq

theorem Ty.isWithin_bundleOf {limit : Nat} {fields : List (String × Ty)}
    (h : fields.length ≤ limit) : (Ty.bundleOf fields).former.isWithin limit = true := by
  refine Former.isWithin_bundle.mpr ?_
  rw [List.length_map]
  refine Nat.le_trans (Table.length_ofPairs_le _) ?_
  simpa using h

theorem TypeScope.reads_isWithin (scope : TypeScope) :
    scope.Reads (Former.isWithin scope.limits.maxItems) where
  named _ _ _ _ _ _ := rfl
  unit := rfl
  tuple _ := rfl
  bundle _ := Ty.isWithin_bundleOf
  func := rfl

theorem TypeScope.isWithin_read {scope : TypeScope} {expr : Source.TypeExpr} {t : Ty}
    (h : scope.read expr = .ok t) :
    t.everywhere (Former.isWithin scope.limits.maxItems) = true :=
  everywhere_read (reads_isWithin scope) rfl rfl (fun _ => rfl) h

namespace Registration

variable {limits : Limits} {depth : Nat} {modules : List Source.Module}

theorem written_isWithin :
    (written limits modules).Stores (Former.isWithin limits.maxItems) :=
  written_stores rfl fun _ _ _ hread => TypeScope.isWithin_read hread

theorem stores_isWithin {r : Registration} (h : ofModules limits depth modules = some r) :
    r.registry.Stores (Former.isWithin limits.maxItems) := by
  intro name d hd t ht
  rcases exists_written_type h hd ht with ⟨w, s, hw, _, hs, rfl⟩
  exact written_isWithin.complete rfl (fun _ _ _ => rfl) (written_isWithin name w hw s hs)

end Registration

/-!
## Bodies within a limit
-/

namespace Standard

def within (limit : Nat) (written : Source.Expr) : Standard where
  former := Former.isWithin limit
  size n := n ≤ limit ∨
    exists expr, Source.Expr.OccursIn expr written ∧ expr.value.tupleSize? = some n

variable {limit : Nat} {written : Source.Expr}

theorem within_suits (registry : Registry) : (within limit written).Suits registry where
  bare f hf := by
    cases f with
    | bundle fields => cases hf
    | _ => rfl
  literal _ _ := rfl
  wrapper _ _ := rfl
  boxed _ _ _ := rfl
  lifted _ _ _ _ _ := rfl
  selected _ _ _ _ _ _ _ _ _ := rfl
  renumbered declared typed hdeclared hnames := by
    apply Ty.isWithin_bundleOf
    have hlength : typed.length = declared.length := by
      simpa [(Ty.inSlotOrder_perm declared).length_eq] using congrArg List.length hnames
    have hfields := Former.isWithin_bundle.mp hdeclared
    rwa [List.length_map, <- hlength] at hfields
  product _ hfields := Or.inl (Former.isWithin_bundle.mp hfields)

theorem within_ofExpr : (within limit written).OfExpr written :=
  fun part hpart _ hsize => Or.inr ⟨part, hpart, hsize⟩

theorem within_ofRegistry {limits : Limits} {depth : Nat} {modules : List Source.Module}
    {r : Registration} (h : Registration.ofModules limits depth modules = some r) :
    (within limits.maxItems written).OfRegistry limits r.registry where
  suits := within_suits r.registry
  stores := Registration.stores_isWithin h
  written ctx hctx depth expr t ht := by
    rcases TypeContext.resolve_ok ht with ⟨read, hread, rfl⟩
    rw [hctx]
    have hstores := Registration.stores_isWithin h
    exact hstores.complete rfl (fun _ _ _ => rfl) (TypeScope.isWithin_read hread)

end Standard

/-- How large bundles and products are in a body that is checked with a limit: the bundles
in types are within the limit, and so are all products but those of the size of a tuple that
is written in the body. -/
structure Term.Sized (limit : Nat) (written : Source.Expr) (body : Term) : Prop where
  bundles : forall part, Term.OccursIn part body ->
    part.type.everywhere (Former.isWithin limit) = true
  products : forall part, Term.OccursIn part body -> forall items, part.node = .product items ->
    items.length ≤ limit ∨
      exists expr, Source.Expr.OccursIn expr written ∧ expr.value.tupleSize? = some items.length

theorem Standard.sized_of_within {limit : Nat} {written : Source.Expr} {body : Term}
    (h : (Standard.within limit written).OfTerm body) : body.Sized limit written := by
  constructor
  · intro part hpart
    exact (h part hpart).left
  · intro part hpart items hitems
    refine (h part hpart).right items.length ?_
    rw [hitems, Node.productSize?]

/-- In checked code, a product with more items than the limit has the size of a tuple that
is written in the same body. -/
theorem products_within_limit_or_written {limits : Limits} {depth : Nat}
    {modules : List Source.Module} {v : Verdict}
    (h : Program.check limits depth modules = some v) :
    Program.Follows (fun written body => body.Sized limits.maxItems written) modules
      v.modules := by
  apply Program.check_follows _ h
  intro r hr m imported checked problems hchecked
  have hfollows := Program.checkModule_follows (fun _ => Standard.within_ofRegistry hr)
    (fun _ => Standard.within_ofExpr) hchecked
  exact hfollows.mono fun _ _ => Standard.sized_of_within

def pairAndTriple : List Source.Module :=
  [{ name := "Main"
     constants := [
      { name := { name := "pair" }
        type := { value := .bundle [
          ({ name := "x" }, { value := .ref { name := "String" } [] }),
          ({ name := "y" }, { value := .ref { name := "String" } [] })] }
        value := .written { value := .bundle [
          ({ name := "x" }, some { value := .text "a" }),
          ({ name := "y" }, some { value := .text "b" })] } },
      { name := { name := "triple" }
        type := { value := .ref { name := "any" } [] }
        value := .written { value := .tuple [
          { value := .text "a" }, { value := .text "b" }, { value := .text "c" }] } }] }]

theorem pair_and_triple_sized :
    exists v, Program.check { maxItems := 2 } 8 pairAndTriple = some v ∧
      v.modules.map Prod.fst = ["Main"] ∧
        Program.Follows (fun written body => body.Sized 2 written) pairAndTriple v.modules := by
  have hcheck : (Program.check { maxItems := 2 } 8 pairAndTriple).map
      (fun v => v.modules.map Prod.fst) = some ["Main"] := by decide +kernel
  rcases Option.map_eq_some_iff.mp hcheck with ⟨v, hv, hmodules⟩
  exact ⟨v, hv, hmodules, products_within_limit_or_written hv⟩

/-- The tuple of three items is accepted where two are the limit. -/
theorem long_tuple_accepted :
    exists v checked constant value items,
      Program.check { maxItems := 2 } 8 pairAndTriple = some v ∧ v.problems = [] ∧
        ("Main", checked) ∈ v.modules ∧ constant ∈ checked.constants ∧
          constant.value = .written value ∧ value.node = .product items ∧ items.length = 3 :=
  ⟨_, _, _, _, _, rfl, rfl, List.mem_cons_self, List.mem_cons_of_mem _ List.mem_cons_self, rfl,
    rfl, rfl⟩

end TypeChecker
