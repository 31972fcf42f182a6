import TypeChecker.Proofs.Checking.Combinations
import TypeChecker.Proofs.Checking.Switches

/-!
# Coverage of switches over several unions

A branch of a multi-switch is written down as the row of the cases it names, and the
combinations of each row are added to those covered before it. The switch is accepted just
if no combination of cases is covered by two rows, and a default branch is there exactly
where a combination is left out.
-/

namespace TypeChecker

open Coverage

def Context.rowEntry (ctx : Context) (ref : Source.InlineRef) (union : UnionView) : Option Nat :=
  if isWildcard ref then none else ctx.caseIndex? union ref

/-- The row that a branch covers, or none for a default branch. -/
def Context.writtenRow? (ctx : Context) (unions : List UnionView) (branch : Source.MultiBranch) :
    Option Row :=
  branch.types.map fun refs => List.zipWith ctx.rowEntry refs unions

def caseCounts (unions : List UnionView) : List Nat :=
  unions.map fun union => union.cases.length

namespace Context

variable {ctx : Context} {ref : Source.InlineRef} {refs : List Source.InlineRef}
  {union : UnionView} {unions : List UnionView} {entries : List (Option CaseView)}

theorem writtenRow?_default {branch : Source.MultiBranch} (h : branch.types = none) :
    ctx.writtenRow? unions branch = none := by
  rw [writtenRow?, h, Option.map_none]

theorem writtenRow?_row {branch : Source.MultiBranch} (h : branch.types = some refs) :
    ctx.writtenRow? unions branch = some (List.zipWith ctx.rowEntry refs unions) := by
  rw [writtenRow?, h, Option.map_some]

theorem rowOf_cons (h : ctx.rowOf (ref :: refs) (union :: unions) = .ok entries) :
    exists entry rest, entries = entry :: rest ∧ ctx.rowOf refs unions = .ok rest ∧
      entry.map CaseView.index = ctx.rowEntry ref union ∧
      (ctx.rowEntry ref union).isNone = isWildcard ref := by
  rw [rowOf] at h
  rw [rowEntry]
  split at h
  · rename_i hwildcard
    rcases except_bind_ok.mp h with ⟨entry, hentry, h⟩
    rcases except_bind_ok.mp h with ⟨rest, hrest, h⟩
    cases hentry
    cases h
    rw [if_pos hwildcard]
    exact ⟨none, rest, rfl, hrest, rfl, hwildcard.symm⟩
  · rename_i hcase
    rcases except_bind_ok.mp h with ⟨entry, hentry, h⟩
    rcases except_bind_ok.mp h with ⟨rest, hrest, h⟩
    rw [if_neg hcase, caseIndex?]
    cases hfound : ctx.caseOf union ref with
    | error e =>
        rw [hfound] at hentry
        cases hentry
    | ok found =>
        rw [hfound] at hentry
        cases hentry
        cases h
        exact ⟨some found, rest, rfl, hrest, rfl, (eq_false_of_ne_true hcase).symm⟩

theorem rowOf_index (h : ctx.rowOf refs unions = .ok entries) :
    (entries.map fun entry => entry.map CaseView.index) =
      List.zipWith ctx.rowEntry refs unions := by
  induction refs generalizing unions entries with
  | nil =>
      cases h
      rfl
  | cons ref refs ih =>
      cases unions with
      | nil =>
          cases h
          rfl
      | cons union unions =>
          rcases rowOf_cons h with ⟨entry, rest, rfl, hrest, hentry, _⟩
          rw [List.map_cons, List.zipWith_cons_cons, hentry, ih hrest]

theorem all_isNone_of_rowOf (hlength : refs.length = unions.length)
    (h : ctx.rowOf refs unions = .ok entries) :
    (List.zipWith ctx.rowEntry refs unions).all Option.isNone = refs.all isWildcard := by
  induction refs generalizing unions entries with
  | nil => rfl
  | cons ref refs ih =>
      cases unions with
      | nil => cases hlength
      | cons union unions =>
          rcases rowOf_cons h with ⟨_, rest, _, hrest, _, hnone⟩
          rw [List.zipWith_cons_cons, List.all_cons, List.all_cons, hnone,
            ih (Nat.succ.inj hlength) hrest]

theorem within_row (hlength : refs.length = unions.length) :
    Within (caseCounts unions) (List.zipWith ctx.rowEntry refs unions) := by
  induction refs generalizing unions with
  | nil =>
      cases List.length_eq_zero_iff.mp hlength.symm
      exact .nil
  | cons ref refs ih =>
      cases unions with
      | nil => cases hlength
      | cons union unions =>
          refine .cons ?_ (ih (Nat.succ.inj hlength))
          intro i hi
          rw [rowEntry] at hi
          split at hi
          · cases hi
          · exact caseIndex?_lt hi

end Context

namespace Checker

def RowChecks (c : Checker) (ctx : Context) (unions : List UnionView)
    (branch : Source.MultiBranch) (refs : List Source.InlineRef) : Prop :=
  refs.length = unions.length ∧ (exists ref, ref ∈ refs ∧ Context.isWildcard ref = false) ∧
    exists entries pattern value, ctx.rowOf refs unions = .ok entries ∧
      (ctx.destructure? c.depth branch.pattern
        (.tuple (entries.map fun entry => (entry.map CaseView.type).getD .unit))).outcome =
          some (.ok pattern) ∧
      (c.draft (ctx.withPattern? pattern) branch.value).outcome = some (.ok value)

def MultiBranchChecks (c : Checker) (ctx : Context) (unions : List UnionView)
    (branch : Source.MultiBranch) : Prop :=
  (branch.types = none -> exists value, (c.draft ctx branch.value).outcome = some (.ok value)) ∧
    forall refs, branch.types = some refs -> c.RowChecks ctx unions branch refs

section

variable {c : Checker} {ctx : Context} {unions : List UnionView} {branch : Source.MultiBranch}
  {refs : List Source.InlineRef}

theorem RowChecks.draftRow (h : c.RowChecks ctx unions branch refs)
    (covered : List Combination) :
    exists drafted : CasesBranch Draft,
      drafted.cases = some (List.zipWith ctx.rowEntry refs unions) ∧
      (c.draftRow ctx unions covered branch refs).outcome =
        some (if (expand (caseCounts unions) (List.zipWith ctx.rowEntry refs unions)).any
            covered.contains
          then .error { value := .caseTakenTwice, span := branch.span }
          else .ok (drafted,
            (expand (caseCounts unions) (List.zipWith ctx.rowEntry refs unions)).reverse ++
              covered)) := by
  rcases h with ⟨hlength, ⟨ref, href, hcase⟩, entries, pattern, value, hrow, hpattern, hvalue⟩
  have hindex := Context.rowOf_index hrow
  have hsome : ¬ (List.zipWith ctx.rowEntry refs unions).all Option.isNone = true := by
    rw [Context.all_isNone_of_rowOf hlength hrow, List.all_eq_true]
    intro hall
    cases (hall ref href).symm.trans hcase
  refine ⟨{ cases := some (List.zipWith ctx.rowEntry refs unions), pattern, value }, rfl, ?_⟩
  rw [Checker.draftRow, if_neg (not_not_intro hlength)]
  dsimp only
  rw [judge_except_bind hrow]
  rw [hindex, if_neg hsome]
  have hcover := cover_eq covered
    (nodup_expand (caseCounts unions) (List.zipWith ctx.rowEntry refs unions)) branch.span
  rw [caseCounts] at hcover ⊢
  by_cases htwice : (expand (unions.map fun union => union.cases.length)
      (List.zipWith ctx.rowEntry refs unions)).any covered.contains = true
  · rw [if_pos htwice] at hcover ⊢
    rw [hcover]
    rfl
  · rw [if_neg htwice] at hcover ⊢
    rw [judge_except_bind hcover, judge_bind_of_ok hpattern, judge_bind_of_ok hvalue]
    rfl

end

/-!
## Branches in order
-/

section

variable {c : Checker} {ctx : Context} {unions : List UnionView} {branch : Source.MultiBranch}
  {branches : List Source.MultiBranch} {refs : List Source.InlineRef} {rows : List Row}
  {covered : List Combination} {default : Option Span}

theorem draftRows_default (h : c.MultiBranchChecks ctx unions branch)
    (htypes : branch.types = none) :
    exists own : CasesBranch Draft, own.cases = none ∧
      (c.draftRows ctx unions covered none (branch :: branches)).outcome =
        (c.draftRows ctx unions covered (some branch.span) branches >>= fun drafted =>
          pure { drafted with branches := own :: drafted.branches }).outcome := by
  rcases h.left htypes with ⟨value, hvalue⟩
  refine ⟨{ cases := none, pattern := none, value }, rfl, ?_⟩
  rw [draftRows, htypes]
  exact judge_bind_of_ok hvalue _

theorem draftRows_twice (h : c.MultiBranchChecks ctx unions branch)
    (htypes : branch.types = some refs)
    (htwice : (expand (caseCounts unions) (List.zipWith ctx.rowEntry refs unions)).any
      covered.contains = true) :
    (c.draftRows ctx unions covered default (branch :: branches)).outcome =
      some (.error { value := .caseTakenTwice, span := branch.span }) := by
  rcases (h.right refs htypes).draftRow covered with ⟨_, _, hrow⟩
  rw [if_pos htwice] at hrow
  rw [draftRows, htypes]
  exact judge_bind_of_error hrow _

theorem draftRows_row (h : c.MultiBranchChecks ctx unions branch)
    (htypes : branch.types = some refs)
    (hnew : ¬ (expand (caseCounts unions) (List.zipWith ctx.rowEntry refs unions)).any
      covered.contains = true) :
    exists own : CasesBranch Draft, own.cases = some (List.zipWith ctx.rowEntry refs unions) ∧
      (c.draftRows ctx unions covered default (branch :: branches)).outcome =
        (c.draftRows ctx unions
          ((expand (caseCounts unions) (List.zipWith ctx.rowEntry refs unions)).reverse ++ covered)
          default branches >>=
          fun drafted => pure { drafted with branches := own :: drafted.branches }).outcome := by
  rcases (h.right refs htypes).draftRow covered with ⟨own, hcases, hrow⟩
  rw [if_neg hnew] at hrow
  refine ⟨own, hcases, ?_⟩
  rw [draftRows, htypes]
  exact judge_bind_of_ok hrow _

theorem MultiBranchChecks.within (h : c.MultiBranchChecks ctx unions branch) {row : Row}
    (hrow : ctx.writtenRow? unions branch = some row) : Within (caseCounts unions) row := by
  rcases Option.map_eq_some_iff.mp hrow with ⟨refs, htypes, rfl⟩
  exact Context.within_row (h.right refs htypes).left

theorem draftRows_accepts
    (hbranches : forall branch, branch ∈ branches -> c.MultiBranchChecks ctx unions branch)
    (hdefault : default.toList.length + (branches.map (ctx.writtenRow? unions)).count none ≤ 1)
    (htracks : Tracks (caseCounts unions) rows covered)
    (hclear : ¬ Overlaps (caseCounts unions)
      (rows ++ branches.filterMap (ctx.writtenRow? unions))) :
    exists drafted,
      (c.draftRows ctx unions covered default branches).outcome = some (.ok drafted) ∧
      drafted.branches.map CasesBranch.cases = branches.map (ctx.writtenRow? unions) ∧
      Tracks (caseCounts unions) (rows ++ branches.filterMap (ctx.writtenRow? unions))
        drafted.covered ∧
      drafted.default.toList.length =
        default.toList.length + (branches.map (ctx.writtenRow? unions)).count none := by
  -- What the branches before cover is carried along, for each row in turn.
  induction branches generalizing rows covered default with
  | nil =>
      refine ⟨{ branches := [], covered, default }, rfl, rfl, ?_, rfl⟩
      rw [List.filterMap_nil, List.append_nil]
      exact htracks
  | cons branch rest ih =>
      rcases List.forall_mem_cons.mp hbranches with ⟨hbranch, hrest⟩
      cases htypes : branch.types with
      | none =>
          have hwritten : ctx.writtenRow? unions branch = none :=
            Context.writtenRow?_default htypes
          rw [List.map_cons, hwritten, List.count_cons_self] at hdefault ⊢
          rw [List.filterMap_cons_none hwritten] at hclear ⊢
          cases default with
          | some place => exact absurd hdefault (by simp)
          | none =>
              have hone : (some branch.span).toList.length +
                  (rest.map (ctx.writtenRow? unions)).count none ≤ 1 := by
                simpa [Nat.add_comm] using hdefault
              rcases ih hrest hone htracks hclear with ⟨drafted, hdrafted, hcases, hlast, hcount⟩
              rcases draftRows_default hbranch htypes with ⟨own, hown, houtcome⟩
              refine ⟨{ drafted with branches := own :: drafted.branches }, ?_, ?_, hlast, ?_⟩
              · rw [houtcome, judge_bind_of_ok hdrafted]
                rfl
              · rw [List.map_cons, hown, hcases]
              · simpa [Nat.add_comm] using hcount
      | some refs =>
          have hwritten : ctx.writtenRow? unions branch =
              some (List.zipWith ctx.rowEntry refs unions) := Context.writtenRow?_row htypes
          have hrow := hbranch.within hwritten
          rw [List.map_cons, hwritten, List.count_cons_of_ne (Option.some_ne_none _)] at hdefault ⊢
          rw [List.filterMap_cons_some hwritten, List.append_cons] at hclear ⊢
          have hbefore : ¬ Overlaps (caseCounts unions) rows :=
            fun h => hclear ((h.append _).append _)
          have hnew := mt (fun h => ((htracks.overlaps_iff hbefore hrow).mp h).append _) hclear
          rcases ih hrest hdefault (htracks.concat hrow hnew) hclear with
            ⟨drafted, hdrafted, hcases, hlast, hcount⟩
          rcases draftRows_row hbranch htypes hnew with ⟨own, hown, houtcome⟩
          refine ⟨{ drafted with branches := own :: drafted.branches }, ?_, ?_, hlast, hcount⟩
          · rw [houtcome, judge_bind_of_ok hdrafted]
            rfl
          · rw [List.map_cons, hown, hcases]

/-- The drafting ends with the first row that covers a combination again. -/
theorem draftRows_rejects
    (hbranches : forall branch, branch ∈ branches -> c.MultiBranchChecks ctx unions branch)
    (hdefault : default.toList.length + (branches.map (ctx.writtenRow? unions)).count none ≤ 1)
    (htracks : Tracks (caseCounts unions) rows covered)
    (hclear : ¬ Overlaps (caseCounts unions) rows)
    (hoverlap : Overlaps (caseCounts unions)
      (rows ++ branches.filterMap (ctx.writtenRow? unions))) :
    exists e, (c.draftRows ctx unions covered default branches).outcome = some (.error e) ∧
      e.value = .caseTakenTwice := by
  induction branches generalizing rows covered default with
  | nil =>
      rw [List.filterMap_nil, List.append_nil] at hoverlap
      exact absurd hoverlap hclear
  | cons branch rest ih =>
      rcases List.forall_mem_cons.mp hbranches with ⟨hbranch, hrest⟩
      cases htypes : branch.types with
      | none =>
          have hwritten : ctx.writtenRow? unions branch = none :=
            Context.writtenRow?_default htypes
          rw [List.map_cons, hwritten, List.count_cons_self] at hdefault
          rw [List.filterMap_cons_none hwritten] at hoverlap
          cases default with
          | some place => exact absurd hdefault (by simp)
          | none =>
              have hone : (some branch.span).toList.length +
                  (rest.map (ctx.writtenRow? unions)).count none ≤ 1 := by
                simpa [Nat.add_comm] using hdefault
              rcases ih hrest hone htracks hclear hoverlap with ⟨e, he, hvalue⟩
              rcases draftRows_default hbranch htypes with ⟨own, _, houtcome⟩
              refine ⟨e, ?_, hvalue⟩
              rw [houtcome]
              exact judge_bind_of_error he _
      | some refs =>
          have hwritten : ctx.writtenRow? unions branch =
              some (List.zipWith ctx.rowEntry refs unions) := Context.writtenRow?_row htypes
          have hrow := hbranch.within hwritten
          rw [List.map_cons, hwritten, List.count_cons_of_ne (Option.some_ne_none _)] at hdefault
          rw [List.filterMap_cons_some hwritten, List.append_cons] at hoverlap
          by_cases htwice : (expand (caseCounts unions)
              (List.zipWith ctx.rowEntry refs unions)).any covered.contains = true
          · exact ⟨_, draftRows_twice hbranch htypes htwice, rfl⟩
          · have hnext := mt (htracks.overlaps_iff hclear hrow).mpr htwice
            rcases ih hrest hdefault (htracks.concat hrow htwice) hnext hoverlap with
              ⟨e, he, hvalue⟩
            rcases draftRows_row hbranch htypes htwice with ⟨own, _, houtcome⟩
            refine ⟨e, ?_, hvalue⟩
            rw [houtcome]
            exact judge_bind_of_error he _

end

/-!
## Verdicts
-/

section

variable {c : Checker} {ctx : Context} {args : List Source.Expr}
  {branches : List Source.MultiBranch} {span : Span} {found : List (Term × UnionView)}

/-- How a multi-switch is judged by the rows of its branches. -/
inductive MultiSwitchVerdict (terms : List Term) (counts : List Nat) (written : List (Option Row))
    (rows : List Row) (span : Span) : Except ExprError Draft -> Prop where
  | overlapping {e : ExprError} (overlap : Overlaps counts rows)
      (value : e.value = .caseTakenTwice) :
      MultiSwitchVerdict terms counts written rows span (.error e)
  | incomplete (clear : ¬ Overlaps counts rows) (default : none ∉ written)
      (leftOut : leftOut counts rows ≠ []) :
      MultiSwitchVerdict terms counts written rows span (.error
        { value := .incompleteCombinations (Coverage.leftOut counts rows).length, span := span })
  | superfluous (clear : ¬ Overlaps counts rows) (default : none ∈ written)
      (covered : leftOut counts rows = []) (place : Span) :
      MultiSwitchVerdict terms counts written rows span
        (.error { value := .superfluousDefault, span := place })
  | accepted {drafted : List (CasesBranch Draft)} (clear : ¬ Overlaps counts rows)
      (default : none ∈ written ↔ leftOut counts rows ≠ [])
      (cases : drafted.map CasesBranch.cases = written) :
      MultiSwitchVerdict terms counts written rows span
        (.ok { value := .multiSwitch terms drafted, span := span })

/-- A multi-switch whose branches are drafted is judged by the combinations they cover. -/
theorem draftMultiSwitch_of_required {drafted : Rows}
    (hargs : (c.switchArgs ctx args).outcome = some (.ok found))
    (hdrafted : (c.draftRows ctx (found.map Prod.snd) [] none branches).outcome =
      some (.ok drafted))
    {required : Except ExprError Unit}
    (hrequired : requireCombinations (caseCounts (found.map Prod.snd)) drafted.covered
      drafted.default span = required) :
    (c.draftMultiSwitch ctx args branches span).outcome =
      some (required >>= fun _ =>
        .ok { value := .multiSwitch (found.map Prod.fst) drafted.branches, span := span }) := by
  rw [draftMultiSwitch, judge_bind_of_ok hargs]
  dsimp only
  rw [judge_bind_of_ok hdrafted]
  rw [caseCounts] at hrequired
  rw [hrequired]
  cases required <;> rfl

theorem draftMultiSwitch_verdict
    (hargs : (c.switchArgs ctx args).outcome = some (.ok found))
    (hbranches : forall branch, branch ∈ branches ->
      c.MultiBranchChecks ctx (found.map Prod.snd) branch)
    (hdefault : (branches.map (ctx.writtenRow? (found.map Prod.snd))).count none ≤ 1)
    (hword : (caseCounts (found.map Prod.snd)).prod < 2 ^ 64) :
    exists result, (c.draftMultiSwitch ctx args branches span).outcome = some result ∧
      MultiSwitchVerdict (found.map Prod.fst) (caseCounts (found.map Prod.snd))
        (branches.map (ctx.writtenRow? (found.map Prod.snd)))
        (branches.filterMap (ctx.writtenRow? (found.map Prod.snd))) span result := by
  have hroom : (none : Option Span).toList.length +
      (branches.map (ctx.writtenRow? (found.map Prod.snd))).count none ≤ 1 := by
    simpa using hdefault
  have hstart := tracks_nil (caseCounts (found.map Prod.snd))
  by_cases hoverlap : Overlaps (caseCounts (found.map Prod.snd))
      (branches.filterMap (ctx.writtenRow? (found.map Prod.snd)))
  · have hclear : ¬ Overlaps (caseCounts (found.map Prod.snd)) [] := by
      simp [Overlaps]
    rcases draftRows_rejects hbranches hroom hstart hclear hoverlap with ⟨e, he, hvalue⟩
    refine ⟨.error e, ?_, .overlapping hoverlap hvalue⟩
    rw [draftMultiSwitch, judge_bind_of_ok hargs]
    exact judge_bind_of_error he _
  · rcases draftRows_accepts hbranches hroom hstart hoverlap with
      ⟨drafted, hdrafted, hcases, htracks, hcount⟩
    rw [List.nil_append] at htracks
    cases hplace : drafted.default with
    | none =>
        have hnone : none ∉ branches.map (ctx.writtenRow? (found.map Prod.snd)) := by
          rw [hplace] at hcount
          exact List.count_eq_zero.mp (by simpa using hcount.symm)
        have hrequired := requireCombinations_none htracks hword span
        rw [<- hplace] at hrequired
        by_cases hall : leftOut (caseCounts (found.map Prod.snd))
            (branches.filterMap (ctx.writtenRow? (found.map Prod.snd))) = []
        · rw [if_pos hall] at hrequired
          exact ⟨_, draftMultiSwitch_of_required hargs hdrafted hrequired,
            .accepted hoverlap (by simp [hnone, hall]) hcases⟩
        · rw [if_neg hall] at hrequired
          exact ⟨_, draftMultiSwitch_of_required hargs hdrafted hrequired,
            .incomplete hoverlap hnone hall⟩
    | some place =>
        have hsome : none ∈ branches.map (ctx.writtenRow? (found.map Prod.snd)) := by
          rw [hplace] at hcount
          exact List.count_pos_iff.mp (by simpa using Nat.le_of_eq hcount)
        have hrequired := requireCombinations_some htracks hword place span
        rw [<- hplace] at hrequired
        by_cases hall : leftOut (caseCounts (found.map Prod.snd))
            (branches.filterMap (ctx.writtenRow? (found.map Prod.snd))) = []
        · rw [if_pos hall] at hrequired
          exact ⟨_, draftMultiSwitch_of_required hargs hdrafted hrequired,
            .superfluous hoverlap hsome hall place⟩
        · rw [if_neg hall] at hrequired
          exact ⟨_, draftMultiSwitch_of_required hargs hdrafted hrequired,
            .accepted hoverlap (iff_of_true hsome hall) hcases⟩

end
end Checker

/-- A multi-switch all of whose parts check, with one default branch at most, is accepted
just if no combination of cases is covered by two rows, and the default branch is there
exactly if a combination is left out. Then every combination has a single branch, one of
its own or the default branch. Otherwise the switch is rejected for rows that overlap, or
else for the combinations left out, by their number, or for a default branch with no
combination left. The combinations are those of one index below each number of cases, each
listed once, and a row expands to just those it covers, each listed once. -/
theorem multi_switch_coverage_exact {c : Checker} {ctx : Context} {args : List Source.Expr}
    {branches : List Source.MultiBranch} {span : Span} {found : List (Term × UnionView)}
    (hargs : (c.switchArgs ctx args).outcome = some (.ok found))
    (hbranches : forall branch, branch ∈ branches ->
      c.MultiBranchChecks ctx (found.map Prod.snd) branch)
    (hdefault : (branches.map (ctx.writtenRow? (found.map Prod.snd))).count none ≤ 1)
    (hword : (caseCounts (found.map Prod.snd)).prod < 2 ^ 64) :
    let counts := caseCounts (found.map Prod.snd)
    let written := branches.map (ctx.writtenRow? (found.map Prod.snd))
    let rows := branches.filterMap (ctx.writtenRow? (found.map Prod.snd))
    (product counts).Nodup ∧
    (forall combination, combination ∈ product counts ↔ List.Forall₂ (· < ·) combination counts) ∧
    (forall row, row ∈ rows -> (expand counts row).Nodup ∧ forall combination,
      combination ∈ expand counts row ↔
        combination ∈ product counts ∧ covers row combination = true) ∧
    exists result, (c.draftMultiSwitch ctx args branches span).outcome = some result ∧
      (forall draft, result = .ok draft ->
        exists drafted,
          draft = { value := .multiSwitch (found.map Prod.fst) drafted, span := span } ∧
          drafted.map CasesBranch.cases = written ∧
          (forall combination, combination ∈ product counts ->
            rows.countP (covers · combination) = 1 ∨
              rows.countP (covers · combination) = 0 ∧ written.count none = 1) ∧
          (none ∈ written ↔ exists combination, combination ∈ product counts ∧
            rows.countP (covers · combination) = 0)) ∧
      ((exists draft, result = .ok draft) ↔
        ¬ Overlaps counts rows ∧ (none ∈ written ↔ leftOut counts rows ≠ [])) ∧
      ((exists e, result = .error e ∧ e.value = .caseTakenTwice) ↔ Overlaps counts rows) ∧
      (forall missing,
        result = .error { value := .incompleteCombinations missing, span := span } ↔
          ¬ Overlaps counts rows ∧ none ∉ written ∧ 0 < missing ∧
            missing = (leftOut counts rows).length) ∧
      ((exists e, result = .error e ∧ e.value = .superfluousDefault) ↔
        ¬ Overlaps counts rows ∧ none ∈ written ∧ leftOut counts rows = []) := by
  intro counts written rows
  refine ⟨nodup_product counts, fun _ => mem_product, ?_, ?_⟩
  · intro row hrow
    rcases List.mem_filterMap.mp hrow with ⟨branch, hbranch, hwritten⟩
    exact ⟨nodup_expand counts row,
      fun combination => mem_expand ((hbranches branch hbranch).within hwritten)⟩
  have hjudged : exists result, (c.draftMultiSwitch ctx args branches span).outcome = some result ∧
      Checker.MultiSwitchVerdict (found.map Prod.fst) counts written rows span result :=
    Checker.draftMultiSwitch_verdict hargs hbranches hdefault hword
  have hone : written.count none ≤ 1 := hdefault
  clear_value counts written rows
  rcases hjudged with ⟨result, houtcome, hverdict⟩
  refine ⟨result, houtcome, ?_⟩
  cases hverdict with
  | @overlapping e overlap value =>
      rcases e with ⟨value', place⟩
      cases value
      simp [overlap]
  | incomplete clear default uncovered =>
      have hpos := List.length_pos_of_ne_nil uncovered
      refine ⟨nofun, ?_, ?_, ?_, ?_⟩
      · simp [default, uncovered]
      · simp [clear]
      · intro missing
        simp only [Except.error.injEq, Located.mk.injEq, ExprFault.incompleteCombinations.injEq,
          and_true]
        constructor
        · rintro rfl
          exact ⟨clear, default, hpos, rfl⟩
        · rintro ⟨_, _, _, hmissing⟩
          exact hmissing.symm
      · simp [default]
  | superfluous clear default covered place => simp [clear, default, covered]
  | @accepted drafted clear default cases =>
      refine ⟨?_, ?_, ?_, ?_, ?_⟩
      · intro draft hdraft
        cases hdraft
        refine ⟨drafted, rfl, cases, ?_, default.trans leftOut_ne_nil⟩
        intro combination hmem
        rcases countP_covers clear hmem with hzero | hcovered
        · have hnone := default.mpr (leftOut_ne_nil.mpr ⟨combination, hmem, hzero⟩)
          exact Or.inr ⟨hzero, Nat.le_antisymm hone (List.count_pos_iff.mpr hnone)⟩
        · exact Or.inl hcovered
      · simp [clear, default]
      · simp [clear]
      · intro missing
        refine ⟨nofun, ?_⟩
        rintro ⟨_, hnone, hpos, rfl⟩
        exact absurd (default.mpr (List.ne_nil_of_length_pos hpos)) hnone
      · simpa using fun _ hnone hcovered => default.mp hnone hcovered

def colorRow (colors : List String) : Source.MultiBranch where
  types := some (colors.map fun color => { name := { name := color } })
  value := { value := .text "" }

/-- A branch for all pairs that start with red and one for blue and green leave out five of
the nine pairs of colors. -/
theorem color_pairs_missing :
    let x : Source.Expr := { value := .ref { name := { name := "x" } } }
    let branches := [colorRow ["Red", "_"], colorRow ["Blue", "Green"]]
    let unions := [colorUnion, colorUnion]
    (exists terms, ((checkerAt 3).switchArgs colorContext [x, x]).outcome =
      some (.ok (List.zip terms unions))) ∧
      (forall branch, branch ∈ branches ->
        (checkerAt 3).MultiBranchChecks colorContext unions branch) ∧
      branches.map (colorContext.writtenRow? unions) =
        [some [some 0, none], some [some 2, some 1]] ∧
      ((checkerAt 3).draftMultiSwitch colorContext [x, x] branches {}).outcome =
        some (.error { value := .incompleteCombinations 5, span := {} }) := by
  intro x branches unions
  have hargs : exists term, ((checkerAt 3).switchArgs colorContext [x, x]).outcome =
      some (.ok [(term, colorUnion), (term, colorUnion)]) := ⟨_, rfl⟩
  have hbranches : forall branch, branch ∈ branches ->
      (checkerAt 3).MultiBranchChecks colorContext unions branch := by
    simp only [branches, List.forall_mem_cons]
    refine ⟨⟨nofun, ?_⟩, ⟨nofun, ?_⟩, List.forall_mem_nil _⟩
    · rintro refs ⟨⟩
      exact ⟨rfl, ⟨_, List.mem_cons_self, rfl⟩, _, _, _, rfl, rfl, rfl⟩
    · rintro refs ⟨⟩
      exact ⟨rfl, ⟨_, List.mem_cons_self, rfl⟩, _, _, _, rfl, rfl, rfl⟩
  have hwritten : branches.map (colorContext.writtenRow? unions) =
      [some [some 0, none], some [some 2, some 1]] := rfl
  rcases hargs with ⟨term, hargs⟩
  refine ⟨⟨[term, term], hargs⟩, hbranches, hwritten, ?_⟩
  have hdefault : (branches.map (colorContext.writtenRow? unions)).count none ≤ 1 := by
    rw [hwritten]
    decide
  have hword : (caseCounts unions).prod < 2 ^ 64 := by decide
  have hfive : ¬ Overlaps [3, 3] [[some 0, none], [some 2, some 1]] ∧
      none ∉ [some [some 0, none], some [some 2, some 1]] ∧ 0 < 5 ∧
      5 = (leftOut [3, 3] [[some 0, none], [some 2, some 1]]).length := by
    unfold Overlaps
    decide
  rcases multi_switch_coverage_exact hargs hbranches hdefault hword with
    ⟨_, _, _, result, houtcome, _, _, _, hmissing, _⟩
  exact houtcome.trans (congrArg some ((hmissing 5).mpr hfive))

end TypeChecker
