import TypeChecker.Checking.Settle
import TypeChecker.Proofs.Runs
import Mathlib.Data.List.Nodup
import Mathlib.Data.List.Perm.Subperm

/-!
# Coverage of switches

The branches of a switch are written down as the list of the cases they name, with an
entry of its own for a default branch. The switch is accepted just if this list has no
entry twice and has a default branch exactly where it leaves a case out.
-/

namespace TypeChecker

def Context.caseIndex? (ctx : Context) (union : UnionView) (ref : Source.InlineRef) : Option Nat :=
  match ctx.caseOf union ref with
  | .ok case => some case.index
  | .error _ => none

/-- What a branch is for: the cases it names, or no case in particular. -/
def Context.writtenCases (ctx : Context) (union : UnionView) (branch : Source.Branch) :
    List (Option Nat) :=
  if branch.types.isEmpty then [none] else branch.types.map (ctx.caseIndex? union)

/-- A case is named twice, or there are two default branches. -/
def Repeats (written : List (Option Nat)) : Prop :=
  (exists i, 2 ≤ written.count (some i)) ∨ 2 ≤ written.count none

theorem repeats_iff {written : List (Option Nat)} : Repeats written ↔ ¬ written.Nodup := by
  rw [List.nodup_iff_count_le_one, not_forall]
  constructor
  · rintro (⟨i, hi⟩ | hnone)
    · exact ⟨some i, Nat.not_le_of_lt hi⟩
    · exact ⟨none, Nat.not_le_of_lt hnone⟩
  · rintro ⟨entry, hentry⟩
    cases entry with
    | none => exact Or.inr (Nat.lt_of_not_le hentry)
    | some i => exact Or.inl ⟨i, Nat.lt_of_not_le hentry⟩

/-- The cases that no branch is for, with their positions. -/
def UnionView.uncovered (union : UnionView) (written : List (Option Nat)) : List (Case × Nat) :=
  union.cases.zipIdx.filter fun item => !written.contains (some item.2)

namespace Context

variable {ctx : Context} {union : UnionView} {branch : Source.Branch}

theorem writtenCases_default (h : branch.types = []) : ctx.writtenCases union branch = [none] := by
  rw [writtenCases, h]
  rfl

theorem writtenCases_cases (h : branch.types ≠ []) :
    ctx.writtenCases union branch = branch.types.map (ctx.caseIndex? union) := by
  rw [writtenCases, if_neg (by simpa using h)]

end Context

def UnionView.caseType (union : UnionView) (case : CaseView) : Ty :=
  if union.reactive then .named TypeChecker.reactive [case.type] else case.type

namespace Checker

def CaseChecks (c : Checker) (ctx : Context) (union : UnionView) (branch : Source.Branch)
    (ref : Source.InlineRef) : Prop :=
  exists case pattern value, ctx.caseOf union ref = .ok case ∧
    (ctx.destructure? c.depth branch.pattern (union.caseType case)).outcome = some (.ok pattern) ∧
    (c.draft (ctx.withPattern? pattern) branch.value).outcome = some (.ok value)

def BranchChecks (c : Checker) (ctx : Context) (union : UnionView) (branch : Source.Branch) :
    Prop :=
  (branch.types = [] -> exists value, (c.draft ctx branch.value).outcome = some (.ok value)) ∧
    forall ref, ref ∈ branch.types -> c.CaseChecks ctx union branch ref

def seen (taken : List Nat) (default : Option Span) : List (Option Nat) :=
  taken.map some ++ default.toList.map fun _ => none

section

variable {c : Checker} {ctx : Context} {union : UnionView} {branch : Source.Branch}
  {refs : List Source.InlineRef} {taken : List Nat}

theorem CaseChecks.caseIndex? {ref : Source.InlineRef} (h : c.CaseChecks ctx union branch ref) :
    exists index, ctx.caseIndex? union ref = some index := by
  rcases h with ⟨case, _, _, hcase, _⟩
  exact ⟨case.index, by rw [Context.caseIndex?, hcase]⟩

theorem draftCases_taken {ref : Source.InlineRef} {index : Nat}
    (hindex : ctx.caseIndex? union ref = some index) (htaken : index ∈ taken) :
    (c.draftCases ctx union branch taken (ref :: refs)).outcome =
      some (.error { value := .caseTakenTwice, span := branch.span }) := by
  unfold Context.caseIndex? at hindex
  split at hindex
  · rename_i case hcase
    cases hindex
    rw [draftCases, judge_except_bind hcase]
    dsimp only
    rw [if_pos (List.contains_iff_mem.mpr htaken)]
    rfl
  · cases hindex

theorem draftCases_new {ref : Source.InlineRef} (h : c.CaseChecks ctx union branch ref)
    {index : Nat} (hindex : ctx.caseIndex? union ref = some index) (hnew : index ∉ taken) :
    (forall own last,
        (c.draftCases ctx union branch (index :: taken) refs).outcome = some (.ok (own, last)) ->
        exists drafted : CaseBranch Draft, drafted.case = some index ∧
          (c.draftCases ctx union branch taken (ref :: refs)).outcome =
            some (.ok (drafted :: own, last))) ∧
      forall e, (c.draftCases ctx union branch (index :: taken) refs).outcome = some (.error e) ->
        (c.draftCases ctx union branch taken (ref :: refs)).outcome = some (.error e) := by
  rcases h with ⟨case, pattern, value, hcase, hpattern, hvalue⟩
  rw [UnionView.caseType] at hpattern
  rw [Context.caseIndex?, hcase] at hindex
  cases hindex
  rw [draftCases, judge_except_bind hcase]
  dsimp only
  rw [if_neg (mt List.contains_iff_mem.mp hnew), judge_bind_of_ok hpattern,
    judge_bind_of_ok hvalue]
  constructor
  · intro own last hown
    exact ⟨_, rfl, judge_bind_of_ok hown _⟩
  · intro e he
    exact judge_bind_of_error he _

theorem draftCases_accepts (hrefs : forall ref, ref ∈ refs -> c.CaseChecks ctx union branch ref)
    (hnew : (taken.map some ++ refs.map (ctx.caseIndex? union)).Nodup) :
    exists own last, (c.draftCases ctx union branch taken refs).outcome = some (.ok (own, last)) ∧
      own.map CaseBranch.case = refs.map (ctx.caseIndex? union) ∧
      (last.map some).Perm (taken.map some ++ refs.map (ctx.caseIndex? union)) := by
  induction refs generalizing taken with
  | nil => exact ⟨[], taken, rfl, rfl, by simp⟩
  | cons ref rest ih =>
      rcases List.forall_mem_cons.mp hrefs with ⟨href, hrest⟩
      rcases href.caseIndex? with ⟨index, hindex⟩
      rw [List.map_cons, hindex] at hnew ⊢
      have hmiddle : (((index :: taken).map some) ++ rest.map (ctx.caseIndex? union)).Perm
          (taken.map some ++ some index :: rest.map (ctx.caseIndex? union)) :=
        List.perm_middle.symm
      rcases ih hrest (hmiddle.nodup_iff.mpr hnew) with ⟨own, last, hown, hcases, hlast⟩
      have huntaken : index ∉ taken := by
        intro htaken
        have hdisjoint := List.disjoint_of_nodup_append hnew
        exact hdisjoint (List.mem_map_of_mem htaken) List.mem_cons_self
      rcases (draftCases_new href hindex huntaken).left own last hown with
        ⟨drafted, hcase, hdrafted⟩
      refine ⟨drafted :: own, last, hdrafted, ?_, hlast.trans hmiddle⟩
      rw [List.map_cons, hcase, hcases]

theorem draftCases_rejects (hrefs : forall ref, ref ∈ refs -> c.CaseChecks ctx union branch ref)
    (htaken : (taken.map some).Nodup)
    (hrepeated : ¬ (taken.map some ++ refs.map (ctx.caseIndex? union)).Nodup) :
    (c.draftCases ctx union branch taken refs).outcome =
      some (.error { value := .caseTakenTwice, span := branch.span }) := by
  induction refs generalizing taken with
  | nil =>
      rw [List.map_nil, List.append_nil] at hrepeated
      exact absurd htaken hrepeated
  | cons ref rest ih =>
      rcases List.forall_mem_cons.mp hrefs with ⟨href, hrest⟩
      rcases href.caseIndex? with ⟨index, hindex⟩
      by_cases hmem : index ∈ taken
      · exact draftCases_taken hindex hmem
      · rw [List.map_cons, hindex, List.perm_middle.nodup_iff] at hrepeated
        refine (draftCases_new href hindex hmem).right _ (ih hrest ?_ hrepeated)
        rw [List.map_cons, List.nodup_cons]
        exact ⟨by simpa using hmem, htaken⟩

end

/-!
## Branches in order
-/

section

variable {c : Checker} {ctx : Context} {union : UnionView} {branch : Source.Branch}
  {branches : List Source.Branch} {taken : List Nat} {default : Option Span}

theorem seen_perm {last : List Nat} {own : List (Option Nat)}
    (h : (last.map some).Perm (taken.map some ++ own)) (default : Option Span) :
    (seen last default).Perm (seen taken default ++ own) := by
  refine (h.append_right _).trans ?_
  rw [seen, List.append_assoc, List.append_assoc]
  exact List.perm_append_comm.append_left _

theorem seen_some (taken : List Nat) (place : Span) :
    seen taken (some place) = seen taken none ++ [none] := by
  simp [seen]

theorem none_mem_seen : none ∈ seen taken default ↔ default.isSome = true := by
  cases default <;> simp [seen]

theorem some_mem_seen {i : Nat} : some i ∈ seen taken default ↔ i ∈ taken := by
  cases default <;> simp [seen]

theorem BranchChecks.none_not_mem (h : c.BranchChecks ctx union branch) :
    none ∉ branch.types.map (ctx.caseIndex? union) := by
  intro hmem
  rcases List.mem_map.mp hmem with ⟨ref, href, hnone⟩
  rcases (h.right ref href).caseIndex? with ⟨index, hindex⟩
  cases hnone.symm.trans hindex

theorem BranchChecks.seen_nodup (h : c.BranchChecks ctx union branch)
    (hseen : (seen taken default).Nodup)
    (hown : (taken.map some ++ branch.types.map (ctx.caseIndex? union)).Nodup) :
    (seen taken default ++ branch.types.map (ctx.caseIndex? union)).Nodup := by
  refine List.nodup_append'.mpr ⟨hseen, hown.of_append_right, ?_⟩
  intro entry hentry hmem
  cases entry with
  | none => exact h.none_not_mem hmem
  | some i =>
      have htaken := List.mem_map_of_mem (f := some) (some_mem_seen.mp hentry)
      exact List.disjoint_of_nodup_append hown htaken hmem

theorem draftBranches_second (htypes : branch.types = []) (place : Span) :
    (c.draftBranches ctx union taken (some place) (branch :: branches)).outcome =
      some (.error { value := .secondDefault, span := branch.span }) := by
  rw [draftBranches, htypes]
  rfl

theorem draftBranches_default (h : c.BranchChecks ctx union branch) (htypes : branch.types = []) :
    (forall drafted,
        (c.draftBranches ctx union taken (some branch.span) branches).outcome =
          some (.ok drafted) ->
        exists own : CaseBranch Draft, own.case = none ∧
          (c.draftBranches ctx union taken none (branch :: branches)).outcome =
            some (.ok { drafted with branches := own :: drafted.branches })) ∧
      forall e, (c.draftBranches ctx union taken (some branch.span) branches).outcome =
          some (.error e) ->
        (c.draftBranches ctx union taken none (branch :: branches)).outcome =
          some (.error e) := by
  rcases h.left htypes with ⟨value, hvalue⟩
  have hstep : (c.draftBranches ctx union taken none (branch :: branches)).outcome =
      (c.draftBranches ctx union taken (some branch.span) branches >>= fun drafted =>
        pure { drafted with
          branches := { case := none, pattern := none, value } :: drafted.branches }).outcome := by
    rw [draftBranches, if_pos (by simp [htypes])]
    exact judge_bind_of_ok hvalue _
  rw [hstep]
  constructor
  · intro drafted hdrafted
    exact ⟨_, rfl, judge_bind_of_ok hdrafted _⟩
  · intro e he
    exact judge_bind_of_error he _

theorem draftBranches_cases (htypes : branch.types ≠ []) :
    (c.draftBranches ctx union taken default (branch :: branches)).outcome =
      (c.draftCases ctx union branch taken branch.types >>= fun own =>
        c.draftBranches ctx union own.2 default branches >>= fun drafted =>
          pure { drafted with branches := own.1 ++ drafted.branches }).outcome := by
  rw [draftBranches, if_neg (by simpa using htypes)]

theorem draftBranches_accepts
    (hbranches : forall branch, branch ∈ branches -> c.BranchChecks ctx union branch)
    (hnew : (seen taken default ++ branches.flatMap (ctx.writtenCases union)).Nodup) :
    exists drafted, (c.draftBranches ctx union taken default branches).outcome =
        some (.ok drafted) ∧
      drafted.branches.map CaseBranch.case = branches.flatMap (ctx.writtenCases union) ∧
      (seen drafted.taken drafted.default).Perm
        (seen taken default ++ branches.flatMap (ctx.writtenCases union)) := by
  -- What was taken before the branches at hand is carried along, up to its order.
  induction branches generalizing taken default with
  | nil => exact ⟨{ branches := [], taken, default }, rfl, rfl, by simp⟩
  | cons branch rest ih =>
      rcases List.forall_mem_cons.mp hbranches with ⟨hbranch, hrest⟩
      rw [List.flatMap_cons] at hnew ⊢
      by_cases htypes : branch.types = []
      · rw [Context.writtenCases_default htypes] at hnew ⊢
        cases default with
        | some place =>
            have hdisjoint := List.disjoint_of_nodup_append hnew
            exact absurd (none_mem_seen.mpr rfl) fun hmem => hdisjoint hmem List.mem_cons_self
        | none =>
            rw [<- List.append_assoc, <- seen_some taken branch.span] at hnew ⊢
            rcases ih hrest hnew with ⟨drafted, hdrafted, hcases, hseen⟩
            rcases (draftBranches_default hbranch htypes).left drafted hdrafted with
              ⟨own, hown, houtcome⟩
            refine ⟨_, houtcome, ?_, hseen⟩
            rw [List.map_cons, hown, hcases]
            rfl
      · rw [Context.writtenCases_cases htypes] at hnew ⊢
        have hown : (taken.map some ++ branch.types.map (ctx.caseIndex? union)).Nodup := by
          refine hnew.sublist ?_
          rw [seen, List.append_assoc]
          exact ((List.sublist_append_left _ _).trans (List.sublist_append_right _ _)).append_left _
        rcases draftCases_accepts hbranch.right hown with ⟨own, last, hcases, hmap, hlast⟩
        have hperm := (seen_perm hlast default).append_right
          (rest.flatMap (ctx.writtenCases union))
        rw [List.append_assoc] at hperm
        rcases ih hrest (hperm.nodup_iff.mpr hnew) with ⟨drafted, hdrafted, hrestCases, hseen⟩
        refine ⟨{ drafted with branches := own ++ drafted.branches }, ?_, ?_, hseen.trans hperm⟩
        · rw [draftBranches_cases htypes, judge_bind_of_ok hcases, judge_bind_of_ok hdrafted]
          rfl
        · rw [List.map_append, hmap, hrestCases]

/-- The drafting ends with the first case that is named again or the second default branch. -/
theorem draftBranches_rejects
    (hbranches : forall branch, branch ∈ branches -> c.BranchChecks ctx union branch)
    (hseen : (seen taken default).Nodup)
    (hrepeated : ¬ (seen taken default ++ branches.flatMap (ctx.writtenCases union)).Nodup) :
    exists e, (c.draftBranches ctx union taken default branches).outcome = some (.error e) ∧
      ((e.value = .caseTakenTwice ∧ exists i, 2 ≤
          (seen taken default ++ branches.flatMap (ctx.writtenCases union)).count (some i)) ∨
        (e.value = .secondDefault ∧ 2 ≤
          (seen taken default ++ branches.flatMap (ctx.writtenCases union)).count none)) := by
  induction branches generalizing taken default with
  | nil =>
      rw [List.flatMap_nil, List.append_nil] at hrepeated
      exact absurd hseen hrepeated
  | cons branch rest ih =>
      rcases List.forall_mem_cons.mp hbranches with ⟨hbranch, hrest⟩
      rw [List.flatMap_cons] at hrepeated ⊢
      by_cases htypes : branch.types = []
      · rw [Context.writtenCases_default htypes] at hrepeated ⊢
        cases default with
        | some place =>
            refine ⟨_, draftBranches_second htypes place, Or.inr ⟨rfl, ?_⟩⟩
            rw [seen_some]
            simp only [List.count_append, List.count_singleton_self]
            omega
        | none =>
            rw [<- List.append_assoc, <- seen_some taken branch.span] at hrepeated ⊢
            have hnext : (seen taken (some branch.span)).Nodup := by
              rw [seen_some, List.nodup_append]
              refine ⟨hseen, List.nodup_singleton _, ?_⟩
              intro entry hentry other hother
              cases List.mem_singleton.mp hother
              rintro rfl
              cases none_mem_seen.mp hentry
            rcases ih hrest hnext hrepeated with ⟨e, he, hcause⟩
            exact ⟨e, (draftBranches_default hbranch htypes).right e he, hcause⟩
      · rw [Context.writtenCases_cases htypes] at hrepeated ⊢
        rw [draftBranches_cases htypes]
        by_cases hown : (taken.map some ++ branch.types.map (ctx.caseIndex? union)).Nodup
        · rcases draftCases_accepts hbranch.right hown with ⟨own, last, hcases, _, hlast⟩
          have hnext : (seen last default).Nodup :=
            (seen_perm hlast default).nodup_iff.mpr (hbranch.seen_nodup hseen hown)
          have hperm := (seen_perm hlast default).append_right
            (rest.flatMap (ctx.writtenCases union))
          rw [List.append_assoc] at hperm
          rcases ih hrest hnext (mt hperm.nodup_iff.mp hrepeated) with ⟨e, he, hcause⟩
          refine ⟨e, ?_, ?_⟩
          · rw [judge_bind_of_ok hcases]
            exact judge_bind_of_error he _
          · simpa only [hperm.count_eq] using hcause
        · have htaken : (taken.map some).Nodup := hseen.sublist (List.sublist_append_left _ _)
          have hcases := draftCases_rejects hbranch.right htaken hown
          refine ⟨_, judge_bind_of_error hcases _, Or.inl ⟨rfl, ?_⟩⟩
          rcases repeats_iff.mpr hown with ⟨i, hi⟩ | hnone
          · refine ⟨i, Nat.le_trans hi (List.Sublist.count_le _ ?_)⟩
            rw [seen, List.append_assoc]
            exact ((List.sublist_append_left _ _).trans
              (List.sublist_append_right _ _)).append_left _
          · have hmem := List.count_pos_iff.mp (Nat.lt_of_lt_of_le Nat.zero_lt_two hnone)
            rcases List.mem_append.mp hmem with hmem | hmem
            · simp at hmem
            · exact absurd hmem hbranch.none_not_mem

end
end Checker

/-!
## Coverage
-/

namespace Coverage

theorem length_eq_iff {taken : List Nat} {n : Nat} (hnodup : taken.Nodup)
    (hlt : forall i, i ∈ taken -> i < n) :
    taken.length = n ↔ forall i, i < n -> i ∈ taken := by
  have hwithin : taken.Subperm (List.range n) :=
    hnodup.subperm fun i hi => List.mem_range.mpr (hlt i hi)
  constructor
  · intro hlength i hi
    have hperm := hwithin.perm_of_length_le (by simp [hlength])
    exact hperm.mem_iff.mpr (List.mem_range.mpr hi)
  · intro hall
    have hback : (List.range n).Subperm taken :=
      List.nodup_range.subperm fun i hi => hall i (List.mem_range.mp hi)
    have hle := hwithin.length_le
    have hge := hback.length_le
    rw [List.length_range] at hle hge
    exact Nat.le_antisymm hle hge

theorem filterMap_missing {α : Type} (items : List α) (taken : List Nat) :
    ((missing items.length taken).filterMap fun index => items[index]?) =
      (items.zipIdx.filter fun item => !taken.contains item.2).map Prod.fst := by
  have hrange : List.range items.length = items.zipIdx.map Prod.snd := by
    rw [List.zipIdx_map_snd, List.range_eq_range']
  rw [missing, hrange, List.filter_map, List.filterMap_map, <- List.filterMap_eq_map]
  refine List.filterMap_congr ?_
  intro item hitem
  simpa using List.mem_zipIdx_iff_getElem?.mp (List.mem_of_mem_filter hitem)

end Coverage

namespace UnionView

variable {union : UnionView} {written : List (Option Nat)}

theorem uncovered_ne_nil :
    union.uncovered written ≠ [] ↔ exists i, i < union.cases.length ∧ some i ∉ written := by
  constructor
  · intro h
    rcases List.exists_mem_of_ne_nil _ h with ⟨item, hitem⟩
    rcases List.mem_filter.mp hitem with ⟨hmem, hout⟩
    have hat := List.mem_zipIdx_iff_getElem?.mp hmem
    exact ⟨item.2, (List.getElem?_eq_some_iff.mp hat).choose, by simpa using hout⟩
  · rintro ⟨i, hi, hout⟩
    apply List.ne_nil_of_mem (a := (union.cases[i], i))
    refine List.mem_filter.mpr ⟨?_, by simpa using hout⟩
    exact List.mem_zipIdx_iff_getElem?.mpr (List.getElem?_eq_getElem hi)

/-- Where a default branch stands exactly for the cases left out, every case has one
branch. -/
theorem count_of_covered (hnodup : written.Nodup)
    (hcovered : none ∈ written ↔ union.uncovered written ≠ []) {i : Nat}
    (hi : i < union.cases.length) :
    written.count (some i) = 1 ∨ written.count (some i) = 0 ∧ written.count none = 1 := by
  by_cases hmem : some i ∈ written
  · exact Or.inl (List.count_eq_one_of_mem hnodup hmem)
  · have hdefault := hcovered.mpr (uncovered_ne_nil.mpr ⟨i, hi, hmem⟩)
    exact Or.inr ⟨List.count_eq_zero_of_not_mem hmem, List.count_eq_one_of_mem hnodup hdefault⟩

section

variable {taken : List Nat} (hnodup : taken.Nodup)
  (htaken : forall i, i ∈ taken ↔ some i ∈ written)
  (hlt : forall i, some i ∈ written -> i < union.cases.length)

include hnodup htaken hlt

theorem length_beq_iff (shown : Case -> String) :
    (taken.length == (union.cases.map shown).length) = true ↔ union.uncovered written = [] := by
  rw [beq_iff_eq, List.length_map,
    Coverage.length_eq_iff hnodup fun i hi => hlt i ((htaken i).mp hi),
    <- not_iff_not, <- ne_eq (union.uncovered written), uncovered_ne_nil]
  simp [htaken]

theorem requireCases_none (shown : Case -> String) (span : Span) :
    Coverage.requireCases (union.cases.map shown) taken none span =
      if union.uncovered written = [] then .ok ()
      else .error {
        value := .incomplete ((union.uncovered written).map fun item => shown item.1)
        span := span } := by
  have hmissing : ((Coverage.missing (union.cases.map shown).length taken).filterMap
      fun index => (union.cases.map shown)[index]?) =
      (union.uncovered written).map fun item => shown item.1 := by
    rw [Coverage.filterMap_missing, List.zipIdx_map, List.filter_map, List.map_map, uncovered]
    congr 1
    refine List.filter_congr ?_
    intro item _
    have hiff := htaken item.2
    by_cases hmem : item.2 ∈ taken
    · simp [hmem, hiff.mp hmem]
    · simp [hmem, mt hiff.mpr hmem]
  rw [Coverage.requireCases, hmissing]
  dsimp only
  simp only [length_beq_iff hnodup htaken hlt]
  rfl

theorem requireCases_some (shown : Case -> String) (place span : Span) :
    Coverage.requireCases (union.cases.map shown) taken (some place) span =
      if union.uncovered written = [] then
        .error { value := .superfluousDefault, span := place }
      else .ok () := by
  rw [Coverage.requireCases]
  simp only [length_beq_iff hnodup htaken hlt]
  rfl

end
end UnionView

theorem Context.caseIndex?_lt {ctx : Context} {union : UnionView} {ref : Source.InlineRef}
    {index : Nat} (h : ctx.caseIndex? union ref = some index) : index < union.cases.length := by
  unfold caseIndex? caseOf caseNamed at h
  split at h
  · rename_i case hcase
    cases h
    split at hcase
    · split at hcase
      · split at hcase
        · rename_i found place hfound
          cases hcase
          have hmem := List.mem_of_find?_eq_some hfound
          exact (List.getElem?_eq_some_iff.mp (List.mem_zipIdx_iff_getElem?.mp hmem)).choose
        · cases hcase
      · cases hcase
    · cases hcase
  · cases h

theorem Context.lt_of_mem_writtenCases {ctx : Context} {union : UnionView}
    {branches : List Source.Branch} {i : Nat}
    (h : some i ∈ branches.flatMap (ctx.writtenCases union)) : i < union.cases.length := by
  rcases List.mem_flatMap.mp h with ⟨branch, _, hmem⟩
  by_cases htypes : branch.types = []
  · rw [writtenCases_default htypes] at hmem
    simp at hmem
  · rw [writtenCases_cases htypes] at hmem
    rcases List.mem_map.mp hmem with ⟨ref, _, hindex⟩
    exact caseIndex?_lt hindex

namespace Checker

variable {c : Checker} {ctx : Context} {arg : Source.Expr} {branches : List Source.Branch}
  {span : Span} {term : Term} {union : UnionView}

/-- How a switch is judged by what its branches are for. -/
inductive SwitchVerdict (ctx : Context) (term : Term) (union : UnionView)
    (written : List (Option Nat)) (span : Span) : Except ExprError Draft -> Prop where
  | repeated {e : ExprError}
      (cause : e.value = .caseTakenTwice ∧ (exists i, 2 ≤ written.count (some i)) ∨
        e.value = .secondDefault ∧ 2 ≤ written.count none) :
      SwitchVerdict ctx term union written span (.error e)
  | incomplete (nodup : written.Nodup) (default : none ∉ written)
      (uncovered : union.uncovered written ≠ []) :
      SwitchVerdict ctx term union written span (.error
        { value := .incomplete
            ((union.uncovered written).map fun item => item.1.name.seenFrom ctx.module)
          span := span })
  | superfluous (nodup : written.Nodup) (default : none ∈ written)
      (covered : union.uncovered written = []) (place : Span) :
      SwitchVerdict ctx term union written span
        (.error { value := .superfluousDefault, span := place })
  | accepted {drafted : List (CaseBranch Draft)} (nodup : written.Nodup)
      (default : none ∈ written ↔ union.uncovered written ≠ [])
      (cases : drafted.map CaseBranch.case = written) :
      SwitchVerdict ctx term union written span
        (.ok { value := .switch term drafted union.reactive, span := span })

theorem draftSwitch_of_required {drafted : Branches}
    (harg : (c.switchArg ctx true arg).outcome = some (.ok (term, union)))
    (hdrafted : (c.draftBranches ctx union [] none branches).outcome = some (.ok drafted))
    {required : Except ExprError Unit}
    (hrequired : Coverage.requireCases (union.cases.map fun case => case.name.seenFrom ctx.module)
      drafted.taken drafted.default span = required) :
    (c.draftSwitch ctx arg branches span).outcome =
      some (required >>= fun _ =>
        .ok { value := .switch term drafted.branches union.reactive, span := span }) := by
  rw [draftSwitch, judge_bind_of_ok harg, judge_bind_of_ok hdrafted]
  dsimp only
  rw [hrequired]
  cases required <;> rfl

theorem draftSwitch_verdict
    (harg : (c.switchArg ctx true arg).outcome = some (.ok (term, union)))
    (hbranches : forall branch, branch ∈ branches -> c.BranchChecks ctx union branch) :
    exists result, (c.draftSwitch ctx arg branches span).outcome = some result ∧
      SwitchVerdict ctx term union (branches.flatMap (ctx.writtenCases union)) span result := by
  by_cases hnodup : (branches.flatMap (ctx.writtenCases union)).Nodup
  · have hnew : (seen [] none ++ branches.flatMap (ctx.writtenCases union)).Nodup := hnodup
    rcases draftBranches_accepts hbranches hnew with ⟨drafted, hdrafted, hcases, hseen⟩
    rw [show seen [] none = [] from rfl, List.nil_append] at hseen
    have htakenNodup : drafted.taken.Nodup :=
      ((hseen.nodup_iff.mpr hnodup).sublist (List.sublist_append_left _ _)).of_map some
    have htaken := fun i => (some_mem_seen (i := i)).symm.trans hseen.mem_iff
    have hdefault := none_mem_seen.symm.trans hseen.mem_iff
    have hlt : forall i, some i ∈ branches.flatMap (ctx.writtenCases union) ->
        i < union.cases.length := fun _ => Context.lt_of_mem_writtenCases
    cases hplace : drafted.default with
    | none =>
        rw [hplace] at hdefault
        have hnone : none ∉ branches.flatMap (ctx.writtenCases union) :=
          mt hdefault.mpr Bool.false_ne_true
        have hrequired := UnionView.requireCases_none htakenNodup htaken hlt
          (fun case => case.name.seenFrom ctx.module) span
        rw [<- hplace] at hrequired
        by_cases hall : union.uncovered (branches.flatMap (ctx.writtenCases union)) = []
        · rw [if_pos hall] at hrequired
          exact ⟨_, draftSwitch_of_required harg hdrafted hrequired,
            .accepted hnodup (by simp [hnone, hall]) hcases⟩
        · rw [if_neg hall] at hrequired
          exact ⟨_, draftSwitch_of_required harg hdrafted hrequired, .incomplete hnodup hnone hall⟩
    | some place =>
        rw [hplace] at hdefault
        have hrequired := UnionView.requireCases_some htakenNodup htaken hlt
          (fun case => case.name.seenFrom ctx.module) place span
        rw [<- hplace] at hrequired
        by_cases hall : union.uncovered (branches.flatMap (ctx.writtenCases union)) = []
        · rw [if_pos hall] at hrequired
          exact ⟨_, draftSwitch_of_required harg hdrafted hrequired,
            .superfluous hnodup (hdefault.mp rfl) hall place⟩
        · rw [if_neg hall] at hrequired
          exact ⟨_, draftSwitch_of_required harg hdrafted hrequired,
            .accepted hnodup (iff_of_true (hdefault.mp rfl) hall) hcases⟩
  · have hnew : (seen [] none).Nodup := List.nodup_nil
    rcases draftBranches_rejects hbranches hnew hnodup with ⟨e, he, hcause⟩
    refine ⟨.error e, ?_, .repeated hcause⟩
    rw [draftSwitch, judge_bind_of_ok harg]
    exact judge_bind_of_error he _

end Checker

/-- A switch all of whose parts check is accepted just if no case is named twice, there is
at most one default branch, and it is there exactly if a case is left out. Then every case
has a single branch, one of its own or the default branch. Otherwise the switch is rejected
for a case or a default branch that comes again, or else for the cases left out, or for a
default branch with no case left. -/
theorem switch_coverage_exact {c : Checker} {ctx : Context} {arg : Source.Expr}
    {branches : List Source.Branch} {span : Span} {term : Term} {union : UnionView}
    (harg : (c.switchArg ctx true arg).outcome = some (.ok (term, union)))
    (hbranches : forall branch, branch ∈ branches -> c.BranchChecks ctx union branch) :
    let written := branches.flatMap (ctx.writtenCases union)
    exists result, (c.draftSwitch ctx arg branches span).outcome = some result ∧
      (forall draft, result = .ok draft ->
        exists drafted, draft = { value := .switch term drafted union.reactive, span := span } ∧
          drafted.map CaseBranch.case = written ∧
          (forall i, i < union.cases.length -> written.count (some i) = 1 ∨
            written.count (some i) = 0 ∧ written.count none = 1) ∧
          (forall i, some i ∈ written -> i < union.cases.length) ∧
          (none ∈ written ↔ exists i, i < union.cases.length ∧ some i ∉ written)) ∧
      ((exists draft, result = .ok draft) ↔
        ¬ Repeats written ∧ (none ∈ written ↔ union.uncovered written ≠ [])) ∧
      ((exists e, result = .error e ∧ (e.value = .caseTakenTwice ∨ e.value = .secondDefault)) ↔
        Repeats written) ∧
      (forall e, result = .error e ->
        (e.value = .caseTakenTwice -> exists i, 2 ≤ written.count (some i)) ∧
        (e.value = .secondDefault -> 2 ≤ written.count none)) ∧
      (forall missing, result = .error { value := .incomplete missing, span := span } ↔
        ¬ Repeats written ∧ none ∉ written ∧ union.uncovered written ≠ [] ∧
          missing = (union.uncovered written).map fun item => item.1.name.seenFrom ctx.module) ∧
      ((exists e, result = .error e ∧ e.value = .superfluousDefault) ↔
        ¬ Repeats written ∧ none ∈ written ∧ union.uncovered written = []) := by
  intro written
  have hjudged : exists result, (c.draftSwitch ctx arg branches span).outcome = some result ∧
      Checker.SwitchVerdict ctx term union written span result :=
    Checker.draftSwitch_verdict harg hbranches
  have hlt : forall i, some i ∈ written -> i < union.cases.length :=
    fun _ => Context.lt_of_mem_writtenCases
  clear_value written
  rcases hjudged with ⟨result, houtcome, hverdict⟩
  refine ⟨result, houtcome, ?_⟩
  have hunique : written.Nodup -> ¬ Repeats written := fun hnodup h => repeats_iff.mp h hnodup
  cases hverdict with
  | @repeated e cause =>
      have hrepeats : Repeats written := cause.imp And.right And.right
      rcases e with ⟨value, place⟩
      dsimp only at cause
      rcases cause with ⟨rfl, hcase⟩ | ⟨rfl, hdefault⟩
      · simp [hrepeats, hcase]
      · simp [hrepeats, hdefault]
  | incomplete nodup default uncovered =>
      simpa [hunique nodup, default, uncovered] using fun _ => eq_comm
  | superfluous nodup default covered place => simp [hunique nodup, default, covered]
  | @accepted drafted nodup default cases =>
      have hcount := fun i => UnionView.count_of_covered (i := i) nodup default
      refine ⟨?_, ?_, ?_, ?_, ?_, ?_⟩
      · intro draft hdraft
        cases hdraft
        exact ⟨drafted, rfl, cases, hcount, hlt, default.trans UnionView.uncovered_ne_nil⟩
      · simp [hunique nodup, default]
      · simp [hunique nodup]
      · simp
      · simpa using fun _ _ hnone huncovered _ => hnone (default.mpr huncovered)
      · simpa using fun _ hnone hcovered => default.mp hnone hcovered

def colorUnion : UnionView where
  name := ⟨"Main", "Color"⟩
  args := []
  cases := [⟨⟨"Main", "Red"⟩, []⟩, ⟨⟨"Main", "Green"⟩, []⟩, ⟨⟨"Main", "Blue"⟩, []⟩]

def colorContext : Context where
  module := "Main"
  registry := (colorUnion.name, { definition := .union colorUnion.cases }) ::
    colorUnion.cases.map fun case => (case.name, { definition := .boxed { inner := .unit } })
  scope := { module := "Main" }
  locals := [("x", .named colorUnion.name [])]

def colorBranch (colors : List String) : Source.Branch where
  types := colors.map fun color => { name := { name := color } }
  value := { value := .text "" }

theorem colorBranch_checks {colors : List String}
    (h : forall color, color ∈ colors -> exists case,
      colorContext.caseOf colorUnion { name := { name := color } } = .ok case) :
    (checkerAt 3).BranchChecks colorContext colorUnion (colorBranch colors) := by
  refine ⟨fun _ => ⟨_, rfl⟩, ?_⟩
  intro ref href
  rcases List.mem_map.mp href with ⟨color, hcolor, rfl⟩
  rcases h color hcolor with ⟨case, hcase⟩
  exact ⟨case, _, _, hcase, rfl, rfl⟩

/-- A switch with one branch for red and blue and a default branch for green is accepted. -/
theorem colors_covered :
    let x : Source.Expr := { value := .ref { name := { name := "x" } } }
    let branches := [colorBranch ["Red", "Blue"], colorBranch []]
    (exists term,
      ((checkerAt 3).switchArg colorContext true x).outcome = some (.ok (term, colorUnion))) ∧
      (forall branch, branch ∈ branches ->
        (checkerAt 3).BranchChecks colorContext colorUnion branch) ∧
      branches.flatMap (colorContext.writtenCases colorUnion) = [some 0, some 2, none] ∧
      exists draft,
        ((checkerAt 3).draftSwitch colorContext x branches {}).outcome = some (.ok draft) := by
  intro x branches
  have harg : exists term,
      ((checkerAt 3).switchArg colorContext true x).outcome = some (.ok (term, colorUnion)) :=
    ⟨_, rfl⟩
  have hbranches : forall branch, branch ∈ branches ->
      (checkerAt 3).BranchChecks colorContext colorUnion branch := by
    simp only [branches, List.forall_mem_cons]
    refine ⟨colorBranch_checks ?_, colorBranch_checks ?_, ?_⟩
    · simp only [List.forall_mem_cons]
      exact ⟨⟨_, rfl⟩, ⟨_, rfl⟩, by simp⟩
    · simp
    · simp
  have hwritten : branches.flatMap (colorContext.writtenCases colorUnion) =
      [some 0, some 2, none] := rfl
  refine ⟨harg, hbranches, hwritten, ?_⟩
  rcases harg with ⟨term, harg⟩
  rcases switch_coverage_exact harg hbranches with ⟨result, houtcome, _, haccepted, _⟩
  rw [hwritten, repeats_iff] at haccepted
  rcases haccepted.mpr (by decide) with ⟨draft, rfl⟩
  exact ⟨draft, houtcome⟩

end TypeChecker
