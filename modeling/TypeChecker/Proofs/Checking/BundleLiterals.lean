import Mathlib.Data.List.Nodup
import TypeChecker.Checking.Settle
import TypeChecker.Proofs.Bundles
import TypeChecker.Proofs.Checking.Accepted

/-!
# Bundle literals

The fields of a bundle literal are written in any order and take the slots of the fields
of the same names. They are settled in the order of the slots, so that what is inferred on
the way does not depend on how they are written either.
-/

namespace TypeChecker
namespace Checker

variable {c : Checker} {ctx : Context} {span : Span} {i j : Inference}
  {declared slots : List (String × Field Ty)} {fields given : List (Source.Ident × Draft)}
  {name : String} {draft : Draft} {work : List (Option Ty × Draft)} {terms : List Term}

/-!
## Fields by name
-/

def fieldNames (fields : List (Source.Ident × Draft)) : List String :=
  fields.map fun field => field.1.name

def Given (fields : List (Source.Ident × Draft)) (name : String) (draft : Draft) : Prop :=
  exists ident : Source.Ident, ident.name = name ∧ (ident, draft) ∈ fields

theorem Given.unique {other : Draft} (hdistinct : (fieldNames fields).Nodup)
    (h : Given fields name draft) (hother : Given fields name other) : draft = other := by
  rcases h with ⟨ident, hname, hmem⟩
  rcases hother with ⟨ident', hname', hmem'⟩
  have hsame := List.inj_on_of_nodup_map hdistinct hmem hmem' (hname.trans hname'.symm)
  exact (Prod.mk.inj hsame).right

theorem exists_given : name ∈ fieldNames fields ↔ exists draft, Given fields name draft := by
  constructor
  · intro h
    rcases List.mem_map.mp h with ⟨⟨ident, draft⟩, hmem, hname⟩
    exact ⟨draft, ident, hname, hmem⟩
  · intro h
    rcases h with ⟨draft, ident, hname, hmem⟩
    exact List.mem_map.mpr ⟨(ident, draft), hmem, hname⟩

theorem takeField?_eq_some {others : List (Source.Ident × Draft)}
    (hdistinct : (fieldNames given).Nodup) :
    takeField? name given = some (draft, others) ↔
      Given given name draft ∧ others = given.filter fun other => other.1.name != name := by
  have hfind : forall {found : Source.Ident × Draft},
      (given.find? fun field => field.1.name == name) = some found ->
        Given given name found.2 := by
    intro found hfound
    have hname := List.find?_some hfound
    exact ⟨found.1, beq_iff_eq.mp hname, List.mem_of_find?_eq_some hfound⟩
  unfold takeField?
  constructor
  · intro h
    rcases Option.map_eq_some_iff.mp h with ⟨found, hfound, hsame⟩
    cases hsame
    exact ⟨hfind hfound, rfl⟩
  · intro h
    rcases h with ⟨hgiven, rfl⟩
    have hsome : (given.find? fun field => field.1.name == name).isSome = true := by
      rcases hgiven with ⟨ident, hname, hmem⟩
      exact List.find?_isSome.mpr ⟨(ident, draft), hmem, beq_iff_eq.mpr hname⟩
    rcases Option.isSome_iff_exists.mp hsome with ⟨found, hfound⟩
    rw [hfound, Option.map_some, (hfind hfound).unique hdistinct hgiven]

def Matches (given : List (Source.Ident × Draft)) (slots : List (String × Field Ty))
    (work : List (Option Ty × Draft)) : Prop :=
  List.Forall₂ (fun slot item => item.1 = some slot.2.type ∧ Given given slot.1 item.2) slots work

theorem given_filter {other : String} (hne : other ≠ name) :
    Given (given.filter fun field => field.1.name != name) other draft ↔
      Given given other draft := by
  constructor
  · intro h
    rcases h with ⟨ident, hname, hmem⟩
    exact ⟨ident, hname, (List.mem_filter.mp hmem).left⟩
  · intro h
    rcases h with ⟨ident, hname, hmem⟩
    exact ⟨ident, hname, List.mem_filter.mpr ⟨hmem, bne_iff_ne.mpr (hname.trans_ne hne)⟩⟩

theorem matches_filter (hnew : name ∉ slots.map Prod.fst) :
    Matches (given.filter fun field => field.1.name != name) slots work ↔
      Matches given slots work := by
  induction slots generalizing work with
  | nil => simp [Matches]
  | cons slot slots ih =>
      rw [List.map_cons, List.mem_cons, not_or] at hnew
      cases work with
      | nil => simp [Matches]
      | cons item work =>
          simp only [Matches, List.forall₂_cons] at ih ⊢
          rw [given_filter (Ne.symm hnew.left), ih hnew.right]

def leftOver (slots : List (String × Field Ty)) (given : List (Source.Ident × Draft)) :
    List (Source.Ident × Draft) :=
  given.filter fun field => !(slots.map Prod.fst).contains field.1.name

theorem leftOver_cons (slot : String × Field Ty) (slots : List (String × Field Ty))
    (given : List (Source.Ident × Draft)) :
    leftOver slots (given.filter fun field => field.1.name != slot.1) =
      leftOver (slot :: slots) given := by
  unfold leftOver
  rw [List.filter_filter]
  apply List.filter_congr
  intro field _
  rw [List.map_cons, List.contains_cons, Bool.not_or, Bool.and_comm]
  rfl

theorem leftOver_eq_nil : leftOver slots given = [] ↔ fieldNames given ⊆ slots.map Prod.fst := by
  unfold leftOver fieldNames
  rw [List.filter_eq_nil_iff]
  constructor
  · intro h name hname
    rcases List.mem_map.mp hname with ⟨field, hfield, rfl⟩
    simpa using h field hfield
  · intro h field hfield
    simpa using h (List.mem_map_of_mem hfield)

/-!
## Settling fields
-/

theorem settleEach_cons {expected : Option Ty} :
    (c.settleEach ctx ((expected, draft) :: work)).outcome i = some (.ok terms, j) ↔
      exists term rest k, (c.settle ctx expected draft).outcome i = some (.ok term, k) ∧
        (c.settleEach ctx work).outcome k = some (.ok rest, j) ∧ terms = term :: rest := by
  rw [settleEach, Inferring.outcome_bind_ok]
  constructor
  · intro h
    rcases h with ⟨term, k, hterm, h⟩
    rcases Inferring.outcome_bind_ok.mp h with ⟨rest, l, hrest, hpure⟩
    cases hpure
    exact ⟨term, rest, k, hterm, hrest, rfl⟩
  · intro h
    rcases h with ⟨term, rest, k, hterm, hrest, rfl⟩
    exact ⟨term, k, hterm, Inferring.outcome_bind_ok.mpr ⟨rest, j, hrest, rfl⟩⟩

theorem settleEach_length (h : (c.settleEach ctx work).outcome i = some (.ok terms, j)) :
    terms.length = work.length := by
  induction work generalizing i terms with
  | nil =>
      cases h
      rfl
  | cons item work ih =>
      rcases settleEach_cons.mp h with ⟨term, rest, k, _, hrest, rfl⟩
      rw [List.length_cons, List.length_cons, ih hrest]

/-- Fields are settled in the order of the declared ones, each from the draft of its name.
The fields of other names are left over. -/
theorem settleFields_ok {named : List (String × Term)} {unused : List (Source.Ident × Draft)}
    (hnames : (slots.map Prod.fst).Nodup) (hdistinct : (fieldNames given).Nodup) :
    (c.settleFields ctx span slots given).outcome i = some (.ok (named, unused), j) ↔
      exists work terms, Matches given slots work ∧
        (c.settleEach ctx work).outcome i = some (.ok terms, j) ∧
        named = (slots.map Prod.fst).zip terms ∧
        unused = leftOver slots given := by
  induction slots generalizing given i named with
  | nil =>
      constructor
      · intro h
        cases h
        refine ⟨[], [], .nil, rfl, rfl, ?_⟩
        simp [leftOver]
      · intro h
        rcases h with ⟨_, _, hmatches, hterms, rfl, rfl⟩
        cases hmatches
        cases hterms
        simp [settleFields, leftOver]
  | cons slot slots ih =>
      rcases slot with ⟨name, field⟩
      rw [List.map_cons, List.nodup_cons] at hnames
      have hothers : (fieldNames (given.filter fun other => other.1.name != name)).Nodup :=
        hdistinct.sublist (List.filter_sublist.map _)
      rw [settleFields]
      constructor
      · intro h
        split at h
        · rcases Inferring.outcome_bind_ok.mp h with ⟨_, _, _, hthrow⟩
          cases hthrow
        · rename_i draft others htake
          rcases (takeField?_eq_some hdistinct).mp htake with ⟨hgiven, rfl⟩
          rcases Inferring.outcome_bind_ok.mp h with ⟨term, k, hterm, h⟩
          rcases Inferring.outcome_bind_ok.mp h with ⟨⟨rest, left⟩, l, hrest, hpure⟩
          cases hpure
          rcases (ih hnames.right hothers).mp hrest with ⟨work, terms, hmatches, hterms, rfl, rfl⟩
          rw [matches_filter hnames.left] at hmatches
          refine ⟨(some field.type, draft) :: work, term :: terms, .cons ⟨rfl, hgiven⟩ hmatches,
            settleEach_cons.mpr ⟨term, terms, k, hterm, hterms, rfl⟩, rfl, ?_⟩
          exact leftOver_cons (name, field) slots given
      · intro h
        rcases h with ⟨_, _, hmatches, hterms, rfl, rfl⟩
        cases hmatches with
        | @cons _ item _ work hitem hmatches =>
            rcases item with ⟨expected, draft⟩
            rcases hitem with ⟨rfl, hgiven⟩
            rcases settleEach_cons.mp hterms with ⟨term, rest, k, hterm, hrest, rfl⟩
            rw [(takeField?_eq_some hdistinct).mpr ⟨hgiven, rfl⟩]
            have hfields := (ih hnames.right hothers).mpr
              ⟨work, rest, (matches_filter hnames.left).mpr hmatches, hrest, rfl,
                (leftOver_cons (name, field) slots given).symm⟩
            refine Inferring.outcome_bind_ok.mpr ⟨term, k, hterm, ?_⟩
            exact Inferring.outcome_bind_ok.mpr ⟨_, j, hfields, rfl⟩

theorem firstWritten_eq_none : firstWritten given = none ↔ given = [] := by
  cases given with
  | nil => simp [firstWritten]
  | cons field rest =>
      rw [firstWritten]
      split <;> simp

def bundleTerm (slots : List (String × Field Ty)) (terms : List Term) (span : Span) : Term :=
  { type := Ty.bundleOf ((slots.map Prod.fst).zip (terms.map Typed.type))
    node := .product terms
    span }

theorem bundleTerm_eq (hlength : terms.length = slots.length) (span : Span) :
    bundleTerm slots terms span =
      { type := Ty.bundleOf (((slots.map Prod.fst).zip terms).map fun item => (item.1, item.2.type))
        node := .product (((slots.map Prod.fst).zip terms).map Prod.snd)
        span } := by
  unfold bundleTerm
  rw [List.zip_map_right, List.map_snd_zip (by simp [hlength])]
  rfl

theorem settleBundle_ok {term : Term} (hnames : (declared.map Prod.fst).Nodup)
    (hdistinct : (fieldNames fields).Nodup) :
    (c.settleBundle ctx (some (.bundle declared)) fields span).outcome i = some (.ok term, j) ↔
      fieldNames fields ⊆ declared.map Prod.fst ∧
      exists work terms, Matches fields (Ty.inSlotOrder declared) work ∧
        (c.settleEach ctx work).outcome i = some (.ok terms, j) ∧
        term = bundleTerm (Ty.inSlotOrder declared) terms span := by
  have hperm := (Ty.inSlotOrder_perm declared).map Prod.fst
  have hslots : ((Ty.inSlotOrder declared).map Prod.fst).Nodup := hperm.nodup_iff.mpr hnames
  have hlength : forall {work terms}, Matches fields (Ty.inSlotOrder declared) work ->
      (c.settleEach ctx work).outcome i = some (.ok terms, j) ->
        terms.length = (Ty.inSlotOrder declared).length := fun hmatches hterms =>
    (settleEach_length hterms).trans hmatches.length_eq.symm
  have hrun : (c.settleBundle ctx (some (.bundle declared)) fields span).outcome i =
      (c.settleBundleAt ctx declared fields span).outcome i := rfl
  rw [hrun, settleBundleAt, Inferring.outcome_bind_ok]
  constructor
  · intro h
    rcases h with ⟨⟨named, unused⟩, k, hfields, h⟩
    rcases (settleFields_ok hslots hdistinct).mp hfields with
      ⟨work, terms, hmatches, hterms, rfl, rfl⟩
    dsimp only at h
    split at h
    · rcases Inferring.outcome_bind_ok.mp h with ⟨_, _, _, hthrow⟩
      cases hthrow
    · rename_i hnone
      cases h
      have hnil := leftOver_eq_nil.mp (firstWritten_eq_none.mp hnone)
      refine ⟨List.Subset.trans hnil hperm.subset, work, terms, hmatches, hterms, ?_⟩
      exact (bundleTerm_eq (hlength hmatches hterms) span).symm
  · intro h
    rcases h with ⟨hsubset, work, terms, hmatches, hterms, rfl⟩
    refine ⟨_, j, (settleFields_ok hslots hdistinct).mpr
      ⟨work, terms, hmatches, hterms, rfl, rfl⟩, ?_⟩
    have hnil : leftOver (Ty.inSlotOrder declared) fields = [] :=
      leftOver_eq_nil.mpr (List.Subset.trans hsubset hperm.symm.subset)
    rw [bundleTerm_eq (hlength hmatches hterms) span, hnil]
    rfl

/-!
## Slots
-/

/-- At the slot of each declared field stands the draft that is written under its name, to be
settled at its type. -/
structure Fills (declared : List (String × Field Ty)) (fields : List (Source.Ident × Draft))
    (work : List (Option Ty × Draft)) : Prop where
  length : work.length = declared.length
  at_slot : forall name field draft, (name, field) ∈ declared -> Given fields name draft ->
    work[field.slot]? = some (some field.type, draft)

/-- A bundle of given values, each in the slot of a declared field. -/
structure IsBundleOf (declared : List (String × Field Ty)) (terms : List Term) (term : Term) :
    Prop where
  node : term.node = .product terms
  type : exists typed : List (String × Field Ty), term.type = .bundle typed ∧
    (typed.map fun item => (item.1, item.2.slot)) =
      declared.map (fun item => (item.1, item.2.slot)) ∧
    forall item, item ∈ typed -> (terms[item.2.slot]?).map Typed.type = some item.2.type

section

variable (hnumbered : (Ty.bundle declared).former.isNumbered = true)

include hnumbered

theorem getElem?_inSlotOrder {k : Nat} {item : String × Field Ty} :
    (Ty.inSlotOrder declared)[k]? = some item ↔ item ∈ declared ∧ item.2.slot = k := by
  have hperm := Ty.inSlotOrder_perm declared
  have hslot : forall {k : Nat} {item : String × Field Ty},
      (Ty.inSlotOrder declared)[k]? = some item -> item.2.slot = k := by
    intro k item hitem
    have hlt : k < declared.length :=
      hperm.length_eq ▸ (List.getElem?_eq_some_iff.mp hitem).choose
    have hat := congrArg (fun slots => slots[k]?) (Ty.slots_inSlotOrder hnumbered)
    simpa [hitem, hlt] using hat
  constructor
  · intro hitem
    exact ⟨hperm.mem_iff.mp (List.mem_of_getElem? hitem), hslot hitem⟩
  · intro h
    rcases h with ⟨hmem, rfl⟩
    rcases List.getElem?_of_mem (hperm.mem_iff.mpr hmem) with ⟨k, hitem⟩
    rw [hslot hitem]
    exact hitem

theorem matches_inSlotOrder (hnames : (declared.map Prod.fst).Nodup)
    (hdistinct : (fieldNames fields).Nodup) :
    fieldNames fields ⊆ declared.map Prod.fst ∧ Matches fields (Ty.inSlotOrder declared) work ↔
      (fieldNames fields).Perm (declared.map Prod.fst) ∧ Fills declared fields work := by
  have hperm := Ty.inSlotOrder_perm declared
  constructor
  · intro h
    rcases h with ⟨hsubset, hmatches⟩
    have hgiven : forall item, item ∈ declared -> exists draft,
        work[item.2.slot]? = some (some item.2.type, draft) ∧ Given fields item.1 draft := by
      intro item hitem
      have hat := (getElem?_inSlotOrder hnumbered).mpr ⟨hitem, rfl⟩
      have hlt : item.2.slot < work.length :=
        hmatches.length_eq ▸ (List.getElem?_eq_some_iff.mp hat).choose
      have hdraft := related_at hmatches hat (List.getElem?_eq_getElem hlt)
      refine ⟨work[item.2.slot].2, ?_, hdraft.right⟩
      rw [List.getElem?_eq_getElem hlt, <- hdraft.left]
    constructor
    · apply (List.perm_ext_iff_of_nodup hdistinct hnames).mpr
      intro name
      constructor
      · exact fun hname => hsubset hname
      · intro hname
        rcases List.mem_map.mp hname with ⟨item, hitem, rfl⟩
        rcases hgiven item hitem with ⟨draft, _, hdraft⟩
        exact exists_given.mpr ⟨draft, hdraft⟩
    · constructor
      · exact hmatches.length_eq.symm.trans hperm.length_eq
      · intro name field draft hitem hdraft
        rcases hgiven (name, field) hitem with ⟨other, hat, hother⟩
        rw [hat, hother.unique hdistinct hdraft]
  · intro h
    rcases h with ⟨hsame, hfills⟩
    refine ⟨hsame.subset, ?_⟩
    apply List.forall₂_iff_get.mpr
    refine ⟨hperm.length_eq.trans hfills.length.symm, ?_⟩
    intro k hk hk'
    rcases (getElem?_inSlotOrder hnumbered).mp (List.getElem?_eq_getElem hk) with ⟨hmem, hslot⟩
    have hname := hsame.symm.subset (List.mem_map_of_mem hmem)
    rcases exists_given.mp hname with ⟨draft, hdraft⟩
    have hat := hfills.at_slot (Ty.inSlotOrder declared)[k].1 (Ty.inSlotOrder declared)[k].2 draft
      hmem hdraft
    rw [hslot, List.getElem?_eq_getElem hk', Option.some.injEq] at hat
    rw [List.get_eq_getElem, List.get_eq_getElem]
    dsimp only
    rw [hat]
    exact ⟨rfl, hdraft⟩

theorem bundleTerm_isBundleOf (hordered : Table.Ordered (declared.map Prod.fst))
    (hlength : terms.length = declared.length) (span : Span) :
    IsBundleOf declared terms (bundleTerm (Ty.inSlotOrder declared) terms span) := by
  have hlen : (terms.map Typed.type).length = ((Ty.inSlotOrder declared).map Prod.fst).length := by
    simp [hlength, (Ty.inSlotOrder_perm declared).length_eq]
  have hnames := List.map_fst_zip (Nat.le_of_eq hlen.symm)
  constructor
  · rfl
  · refine ⟨_, rfl, ?_, ?_⟩
    · exact Former.bundle.inj (Ty.former_bundleOf hordered hnumbered hnames)
    · intro item hitem
      have hat := Ty.mem_numberFields hitem
      rw [List.getElem?_zip_eq_some] at hat
      rw [<- List.getElem?_map]
      exact hat.right

end

/-!
## Literals
-/

theorem isNumbered_of_perm
    (h : (declared.map fun item => item.2.slot).Perm (List.range declared.length)) :
    (Ty.bundle declared).former.isNumbered = true := by
  simpa [Ty.former, Former.isNumbered, List.isPerm_iff, List.map_map, Function.comp_def] using h

theorem matches_perm {written : List (Source.Ident × Draft)} (h : written.Perm fields) :
    Matches written slots work ↔ Matches fields slots work := by
  have hgiven : forall name draft, Given written name draft ↔ Given fields name draft := by
    intro name draft
    simp only [Given, h.mem_iff]
  unfold Matches
  simp only [hgiven]

/-- At a bundle type whose slots are numbered without gaps, a literal is accepted just if its
fields have the declared names and their values can be settled at the declared types, one
after the other in the order of the slots. The value of each field then stands at its slot,
in a bundle with the declared names and slots. The order of writing does not matter. -/
theorem literals_fill_slots_by_name (c : Checker) (ctx : Context) (span : Span) (i : Inference)
    (hordered : Table.Ordered (declared.map Prod.fst))
    (hnumbered : (declared.map fun item => item.2.slot).Perm (List.range declared.length))
    (hdistinct : (fieldNames fields).Nodup) :
    let settled := fun fields =>
      (c.settleBundle ctx (some (.bundle declared)) fields span).outcome i
    (forall j, (exists term, settled fields = some (.ok term, j)) ↔
      (fieldNames fields).Perm (declared.map Prod.fst) ∧ exists work terms,
        Fills declared fields work ∧ (c.settleEach ctx work).outcome i = some (.ok terms, j)) ∧
    (forall term j, settled fields = some (.ok term, j) -> term.span = span ∧
      exists work terms, Fills declared fields work ∧
        (c.settleEach ctx work).outcome i = some (.ok terms, j) ∧
        terms.length = declared.length ∧ IsBundleOf declared terms term) ∧
    forall written term j, written.Perm fields ->
      (settled written = some (.ok term, j) ↔ settled fields = some (.ok term, j)) := by
  intro settled
  have hslots := isNumbered_of_perm hnumbered
  have hnames := hordered.nodup
  constructor
  · intro j
    constructor
    · intro h
      rcases h with ⟨term, hterm⟩
      rcases (settleBundle_ok hnames hdistinct).mp hterm with
        ⟨hsubset, work, terms, hmatches, hterms, _⟩
      rcases (matches_inSlotOrder hslots hnames hdistinct).mp ⟨hsubset, hmatches⟩ with
        ⟨hsame, hfills⟩
      exact ⟨hsame, work, terms, hfills, hterms⟩
    · intro h
      rcases h with ⟨hsame, work, terms, hfills, hterms⟩
      rcases (matches_inSlotOrder hslots hnames hdistinct).mpr ⟨hsame, hfills⟩ with
        ⟨hsubset, hmatches⟩
      exact ⟨_, (settleBundle_ok hnames hdistinct).mpr
        ⟨hsubset, work, terms, hmatches, hterms, rfl⟩⟩
  constructor
  · intro term j hterm
    rcases (settleBundle_ok hnames hdistinct).mp hterm with
      ⟨hsubset, work, terms, hmatches, hterms, rfl⟩
    have hfills := ((matches_inSlotOrder hslots hnames hdistinct).mp ⟨hsubset, hmatches⟩).right
    have hlength := (settleEach_length hterms).trans hfills.length
    exact ⟨rfl, work, terms, hfills, hterms, hlength,
      bundleTerm_isBundleOf hslots hordered hlength span⟩
  · intro written term j hperm
    have hwritten : (fieldNames written).Perm (fieldNames fields) := hperm.map _
    show (c.settleBundle ctx _ written span).outcome i = _ ↔
      (c.settleBundle ctx _ fields span).outcome i = _
    rw [settleBundle_ok hnames hdistinct,
      settleBundle_ok hnames (hwritten.nodup_iff.mpr hdistinct)]
    simp only [matches_perm hperm, hwritten.subset_congr_left]

def swappedFields : List (String × Field Ty) :=
  [("x", ⟨1, Ty.core "Byte"⟩), ("y", ⟨0, Ty.core "Int"⟩)]

def writtenFields : List (Source.Ident × Draft) :=
  [({ name := "x" }, { value := .integer 1, span := {} }),
    ({ name := "y" }, { value := .integer 2, span := {} })]

/-- In either order of writing `y` fills the first slot and `x` the second. -/
theorem swapped_fields_filled :
    let ctx : Context := { module := "Main", registry := [], scope := { module := "Main" } }
    let settled := fun fields => ((checkerAt 1).settleBundle ctx (some (.bundle swappedFields))
      fields {}).outcome .disabled
    let term : Term :=
      { type := .bundle swappedFields
        node := .product [{ type := Ty.core "Int", node := .int 2 },
          { type := Ty.core "Byte", node := .int 1 }] }
    settled writtenFields = some (.ok term, .disabled) ∧
    settled writtenFields.reverse = some (.ok term, .disabled) ∧
    exists work terms, Fills swappedFields writtenFields work ∧
      ((checkerAt 1).settleEach ctx work).outcome .disabled = some (.ok terms, .disabled) ∧
      IsBundleOf swappedFields terms term := by
  intro ctx settled term
  have hordered : Table.Ordered (swappedFields.map Prod.fst) := by
    unfold Table.Ordered
    decide +kernel
  have hterm : settled writtenFields = some (.ok term, .disabled) := rfl
  rcases literals_fill_slots_by_name (checkerAt 1) ctx {} .disabled hordered (by decide)
      (show (fieldNames writtenFields).Nodup by decide) with ⟨_, hresult, hwritten⟩
  rcases hresult term .disabled hterm with ⟨_, work, terms, hfills, hterms, _, hbundle⟩
  refine ⟨hterm, ?_, work, terms, hfills, hterms, hbundle⟩
  exact (hwritten _ term .disabled (List.reverse_perm _)).mpr hterm

end Checker
end TypeChecker
