import TypeChecker.Proofs.Registry.Stored
import TypeChecker.Proofs.Runs
import TypeChecker.Resolve.Convert

/-!
# Types as they are read

A written type is made of bare names and of references to known types at an accepted
number of arguments, and so is the type that is read from it. It mentions only names
that are declared and parameters that are written in it, and lists the fields of its
bundles in order.
-/

namespace TypeChecker

/-!
## What is written
-/

namespace Source.TypeNode

mutual

def bareRefs : TypeNode -> List RefName
  | .ref name args => (if args.isEmpty then [name] else []) ++ bareRefsList args
  | .tuple items => bareRefsList items
  | .bundle fields => bareRefsFields fields
  | .func ⟨input, _⟩ ⟨output, _⟩ => bareRefs input ++ bareRefs output

def bareRefsList : List (Located TypeNode) -> List RefName
  | [] => []
  | ⟨node, _⟩ :: rest => bareRefs node ++ bareRefsList rest

def bareRefsFields : List (Ident × Located TypeNode) -> List RefName
  | [] => []
  | (_, ⟨node, _⟩) :: rest => bareRefs node ++ bareRefsFields rest

end

end Source.TypeNode

theorem requireArity_ok {arities : Arities} {span : Span} {name : Symbol} {given : Nat}
    (h : requireArity arities span name given = .ok ()) :
    exists fewest most, arities name = some (fewest, most) ∧ fewest ≤ given ∧ given ≤ most := by
  rw [requireArity] at h
  split at h
  · cases h
  · rename_i fewest most hrange
    split at h
    · cases h
    · rename_i haccepted
      simp only [Bool.or_eq_true, Nat.blt_eq, not_or, Nat.not_lt] at haccepted
      exact ⟨fewest, most, hrange, haccepted⟩

theorem Limits.requireItems_ok {limits : Limits} {span : Span} {count : Nat}
    (h : limits.requireItems span count = .ok ()) : count ≤ limits.maxItems := by
  rw [requireItems] at h
  split at h
  · cases h
  · rename_i hcount
    simpa using hcount

namespace TypeScope

variable {scope : TypeScope} {p : Former -> Bool}

theorem bareType?_eq_some {ref : Source.RefName} {t : Ty} (h : scope.bareType? ref = some t) :
    t = .unit ∨ t = .never ∨ t = .any ∨
      exists index, t = .param index false ∧ ref.module = none ∧
        scope.params[index]? = some ref.name := by
  unfold bareType? at h
  split at h
  · cases h
  · cases h
    exact Or.inl rfl
  · cases h
    exact Or.inr (Or.inl rfl)
  · cases h
    exact Or.inr (Or.inr (Or.inl rfl))
  · rename_i hmodule _ _ _
    rcases Option.map_eq_some_iff.mp h with ⟨index, hindex, rfl⟩
    rcases List.findIdx?_eq_some_iff_getElem.mp hindex with ⟨hlt, hname, _⟩
    refine Or.inr (Or.inr (Or.inr ⟨index, rfl, hmodule, ?_⟩))
    rw [List.getElem?_eq_getElem hlt, beq_iff_eq.mp hname]

/-!
## What is read
-/

/-- The formers that a scope reads, apart from bare names, satisfy `p`. -/
structure Reads (scope : TypeScope) (p : Former -> Bool) : Prop where
  named : forall name fewest most given, scope.arities name = some (fewest, most) ->
    given ≤ most -> p (.named name given) = true
  unit : p .unit = true
  tuple : forall size, p (.tuple size) = true
  bundle : forall fields, fields.length ≤ scope.limits.maxItems ->
    p (Ty.bundleOf fields).former = true
  func : p .func = true

theorem length_convertList {nodes : List (Located Source.TypeNode)} {ts : List Ty}
    (h : scope.convertList nodes = .ok ts) : ts.length = nodes.length := by
  induction nodes generalizing ts with
  | nil =>
      cases h
      rfl
  | cons node rest ih =>
      rcases node with ⟨node, span⟩
      rw [convertList] at h
      rcases except_bind_ok.mp h with ⟨first, _, h⟩
      rcases except_bind_ok.mp h with ⟨others, hrest, h⟩
      cases h
      rw [List.length_cons, List.length_cons, ih hrest]

theorem length_convertFields {fields : List (Source.Ident × Located Source.TypeNode)}
    {seen : List String} {items : List (String × Ty)}
    (h : scope.convertFields seen fields = .ok items) : items.length = fields.length := by
  induction fields generalizing seen items with
  | nil =>
      cases h
      rfl
  | cons field rest ih =>
      rcases field with ⟨field, node, span⟩
      rw [convertFields] at h
      split at h
      · cases h
      · split at h
        · cases h
        · rcases except_bind_ok.mp h with ⟨first, _, h⟩
          rcases except_bind_ok.mp h with ⟨others, hrest, h⟩
          cases h
          rw [List.length_cons, List.length_cons, ih hrest]

theorem everywhere_bareType {ref : Source.RefName} {t : Ty} (h : scope.bareType? ref = some t)
    (hbare : p t.former = true) : t.everywhere p = true := by
  rcases bareType?_eq_some h with rfl | rfl | rfl | ⟨index, rfl, _⟩
  all_goals exact hbare

theorem everywhere_bundleOf {fields : List (String × Ty)}
    (hbundle : p (Ty.bundleOf fields).former = true)
    (h : forall item, item ∈ fields -> item.2.everywhere p = true) :
    (Ty.bundleOf fields).everywhere p = true := by
  refine Ty.everywhere_iff.mpr ⟨hbundle, ?_⟩
  intro s hs
  rcases List.mem_map.mp hs with ⟨field, hfield, rfl⟩
  rcases List.mem_map.mp (Table.mem_ofPairs hfield) with ⟨⟨pair, index⟩, hitem, rfl⟩
  exact h pair (List.mem_of_getElem? (List.mk_mem_zipIdx_iff_getElem?.mp hitem))

def Takes (scope : TypeScope) (p : Former -> Bool) (refs : List Source.RefName) : Prop :=
  forall ref, ref ∈ refs -> forall t, scope.bareType? ref = some t -> p t.former = true

theorem takes_append {first second : List Source.RefName} :
    scope.Takes p (first ++ second) ↔ scope.Takes p first ∧ scope.Takes p second := by
  simp only [Takes, List.forall_mem_append]

mutual

theorem everywhere_convert (hreads : scope.Reads p) {span : Span} {t : Ty} :
    (node : Source.TypeNode) -> scope.Takes p node.bareRefs -> scope.convert span node = .ok t ->
      t.everywhere p = true
  | .ref name args, hbare, h => by
      rw [Source.TypeNode.bareRefs, takes_append] at hbare
      rw [convert] at h
      split at h
      · rename_i bare hshown
        cases h
        split at hshown
        · rename_i hempty
          rw [if_pos hempty] at hbare
          exact everywhere_bareType hshown (hbare.left name List.mem_cons_self t hshown)
        · cases hshown
      · rcases except_bind_ok.mp h with ⟨_, harity, h⟩
        rcases except_bind_ok.mp h with ⟨ts, hargs, h⟩
        cases h
        rcases requireArity_ok harity with ⟨fewest, most, hrange, _, hmost⟩
        rw [<- length_convertList hargs] at hmost
        exact Ty.everywhere_iff.mpr ⟨hreads.named _ fewest most _ hrange hmost,
          everywhere_convertList hreads args hbare.right hargs⟩
  | .tuple [], _, h => by
      cases h
      exact hreads.unit
  | .tuple [⟨item, itemSpan⟩], hbare, h => by
      rw [convert] at h
      rw [Source.TypeNode.bareRefs, Source.TypeNode.bareRefsList, takes_append] at hbare
      exact everywhere_convert hreads item hbare.left h
  | .tuple (first :: second :: rest), hbare, h => by
      rw [convert] at h
      · rcases except_bind_ok.mp h with ⟨_, _, h⟩
        rcases except_bind_ok.mp h with ⟨ts, hitems, h⟩
        cases h
        rw [Source.TypeNode.bareRefs] at hbare
        exact Ty.everywhere_iff.mpr ⟨hreads.tuple _,
          everywhere_convertList hreads (first :: second :: rest) hbare hitems⟩
      · simp
      · simp
  | .bundle [], _, h => by
      cases h
      exact hreads.unit
  | .bundle (field :: fields), hbare, h => by
      rw [convert] at h
      · rcases except_bind_ok.mp h with ⟨_, hcount, h⟩
        rcases except_bind_ok.mp h with ⟨items, hitems, h⟩
        cases h
        rw [Source.TypeNode.bareRefs] at hbare
        have hlength := Limits.requireItems_ok hcount
        rw [<- length_convertFields hitems] at hlength
        exact everywhere_bundleOf (hreads.bundle items hlength)
          (everywhere_convertFields hreads (field :: fields) hbare hitems)
      · simp
  | .func ⟨input, inputSpan⟩ ⟨output, outputSpan⟩, hbare, h => by
      rw [convert] at h
      rcases except_bind_ok.mp h with ⟨a, hinput, h⟩
      rcases except_bind_ok.mp h with ⟨b, houtput, h⟩
      cases h
      rw [Source.TypeNode.bareRefs, takes_append] at hbare
      refine Ty.everywhere_iff.mpr ⟨hreads.func, ?_⟩
      intro s hs
      simp only [Ty.parts, List.mem_cons, List.not_mem_nil, or_false] at hs
      rcases hs with rfl | rfl
      · exact everywhere_convert hreads input hbare.left hinput
      · exact everywhere_convert hreads output hbare.right houtput

theorem everywhere_convertList (hreads : scope.Reads p) {ts : List Ty} :
    (nodes : List (Located Source.TypeNode)) ->
      scope.Takes p (Source.TypeNode.bareRefsList nodes) -> scope.convertList nodes = .ok ts ->
      forall t, t ∈ ts -> t.everywhere p = true
  | [], _, h => by
      cases h
      simp
  | ⟨node, span⟩ :: rest, hbare, h => by
      rw [convertList] at h
      rcases except_bind_ok.mp h with ⟨first, hfirst, h⟩
      rcases except_bind_ok.mp h with ⟨others, hrest, h⟩
      cases h
      rw [Source.TypeNode.bareRefsList, takes_append] at hbare
      intro t ht
      rcases List.mem_cons.mp ht with rfl | ht
      · exact everywhere_convert hreads node hbare.left hfirst
      · exact everywhere_convertList hreads rest hbare.right hrest t ht

theorem everywhere_convertFields (hreads : scope.Reads p) {seen : List String}
    {items : List (String × Ty)} :
    (fields : List (Source.Ident × Located Source.TypeNode)) ->
      scope.Takes p (Source.TypeNode.bareRefsFields fields) ->
      scope.convertFields seen fields = .ok items ->
      forall item, item ∈ items -> item.2.everywhere p = true
  | [], _, h => by
      cases h
      simp
  | (field, ⟨node, span⟩) :: rest, hbare, h => by
      rw [convertFields] at h
      split at h
      · cases h
      · split at h
        · cases h
        · rcases except_bind_ok.mp h with ⟨first, hfirst, h⟩
          rcases except_bind_ok.mp h with ⟨others, hrest, h⟩
          cases h
          rw [Source.TypeNode.bareRefsFields, takes_append] at hbare
          intro item hitem
          rcases List.mem_cons.mp hitem with rfl | hitem
          · exact everywhere_convert hreads node hbare.left hfirst
          · exact everywhere_convertFields hreads rest hbare.right hrest item hitem

end

/-- What holds of every bare name and of all else that a scope reads. -/
theorem everywhere_read (hreads : scope.Reads p) (hnever : p .never = true) (hany : p .any = true)
    (hparam : forall index, p (.param index false) = true) {expr : Source.TypeExpr} {t : Ty}
    (hread : scope.read expr = .ok t) : t.everywhere p = true := by
  refine everywhere_convert hreads expr.value ?_ hread
  intro ref _ bare hbare
  rcases bareType?_eq_some hbare with rfl | rfl | rfl | ⟨index, rfl, _⟩
  · exact hreads.unit
  · exact hnever
  · exact hany
  · exact hparam index

/-!
## Plain types
-/

theorem isPlain_bundleOf (fields : List (String × Ty)) :
    (Ty.bundleOf fields).former.isPlain = true := by
  have hordered := Table.ordered_ofPairs
    (fields.zipIdx.map fun item => (item.1.1, ({ slot := item.2, type := item.1.2 } : Field Ty)))
  unfold Table.Ordered at hordered
  simpa [Ty.bundleOf, Ty.numberFields, Ty.former, Former.isPlain, List.map_map,
    Function.comp_def] using hordered

theorem reads_isPlain (scope : TypeScope) : scope.Reads Former.isPlain where
  named _ _ _ _ _ _ := rfl
  unit := rfl
  tuple _ := rfl
  bundle fields _ := isPlain_bundleOf fields
  func := rfl

/-!
## Known names
-/

def Within (scope : TypeScope) (registry : Registry) : Prop :=
  forall name range, scope.arities name = some range -> Table.contains registry name = true

theorem Within.reads {registry : Registry} (h : scope.Within registry) :
    scope.Reads (Former.isKnown registry) where
  named name fewest most _ hrange _ := h name (fewest, most) hrange
  unit := rfl
  tuple _ := rfl
  bundle fields _ := isPlain_bundleOf fields
  func := rfl

theorem isKnown_read {registry : Registry} (h : scope.Within registry) {expr : Source.TypeExpr}
    {t : Ty} (hread : scope.read expr = .ok t) :
    t.everywhere (Former.isKnown registry) = true :=
  everywhere_read h.reads rfl rfl (fun _ => rfl) hread

end TypeScope
end TypeChecker
