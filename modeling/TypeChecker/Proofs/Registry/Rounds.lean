import Mathlib.Data.List.Chain
import Mathlib.Logic.Relation
import TypeChecker.Proofs.Registry.Reports
import TypeChecker.Proofs.Registry.Validated

/-!
# One report for each circle

Each boxed type leads on to the declared type it is a box around. A type lies on a circle
if it leads back to itself. The circles of a registry have no members in common, so each
has one smallest member, from which it is reported. All members are taken out, and no
circle is left.
-/

namespace TypeChecker
namespace Registry

variable {registry : Registry} {name start current : Symbol} {path : List Symbol}

/-!
## Circles of boxes
-/

def Holds (registry : Registry) (name inner : Symbol) : Prop :=
  exists d boxed args, Table.get? registry name = some d ∧ d.definition = .boxed boxed ∧
    boxed.inner = .named inner args

theorem named?_eq_some {t : Ty} {args : List Ty} :
    t.named? = some (name, args) ↔ t = .named name args := by
  cases t <;> simp [Ty.named?]

theorem innerName?_eq_some {inner : Symbol} :
    innerName? registry name = some inner ↔ registry.Holds name inner := by
  unfold innerName? Holds
  cases Table.get? registry name with
  | none => simp
  | some d =>
      constructor
      · intro h
        rcases Option.map_eq_some_iff.mp h with ⟨⟨_, args⟩, hbind, rfl⟩
        rcases Option.bind_eq_some_iff.mp hbind with ⟨boxed, hboxed, hnamed⟩
        exact ⟨d, boxed, args, rfl, Declaration.boxed?_eq_some.mp hboxed,
          named?_eq_some.mp hnamed⟩
      · intro h
        rcases h with ⟨_, boxed, args, hd, hboxed, hnamed⟩
        cases hd
        apply Option.map_eq_some_iff.mpr
        refine ⟨(inner, args), ?_, rfl⟩
        rw [Declaration.boxed?_eq_some.mpr hboxed, Option.bind_some, named?_eq_some.mpr hnamed]

/-- A type that leads back to itself. -/
def OnCircle (registry : Registry) (name : Symbol) : Prop :=
  Relation.TransGen registry.Holds name name

theorem transGen_iff_follow {last : Symbol} : Relation.TransGen registry.Holds name last ↔
    exists n, 0 < n ∧ follow registry n name = some last := by
  constructor
  · intro h
    induction h with
    | single hholds => exact ⟨1, Nat.one_pos, by simp [follow, innerName?_eq_some.mpr hholds]⟩
    | tail _ hholds ih =>
        rcases ih with ⟨n, _, hn⟩
        exact ⟨n + 1, Nat.succ_pos n, (follow_succ hn).trans (innerName?_eq_some.mpr hholds)⟩
  · intro h
    rcases h with ⟨n, hpos, hn⟩
    induction n generalizing last with
    | zero => cases hpos
    | succ n ih =>
        rcases follow_isSome_of_le (Nat.le_succ n) hn with ⟨middle, hmiddle⟩
        rw [follow_succ hmiddle] at hn
        have hholds := innerName?_eq_some.mp hn
        cases n with
        | zero =>
            cases hmiddle
            exact .single hholds
        | succ n => exact (ih (Nat.succ_pos n) hmiddle).tail hholds

theorem onCircle_iff :
    registry.OnCircle name ↔ exists path, circle? registry name = some path := by
  rw [OnCircle, transGen_iff_follow]
  constructor
  · intro h
    rcases h with ⟨n, hpos, hback⟩
    exact Option.isSome_iff_exists.mp (circle?_isSome hpos hback)
  · intro h
    rcases h with ⟨path, hpath⟩
    rcases circle?_returns hpath with ⟨k, hpos, _, hback⟩
    exact ⟨k, hpos, hback⟩

/-!
## Searches

A search ends where a type holds no declared type, or one that has been met.
-/

/-- How the search for a way back to `start` goes on from `current`, having met the types
on `path`, and what it ends with. -/
inductive Search (registry : Registry) (start : Symbol) :
    List Symbol -> Symbol -> Option (List Symbol) -> Prop where
  | stops {path : List Symbol} {current : Symbol} :
      (forall next, ¬ registry.Holds current next) -> Search registry start path current none
  | returns {path : List Symbol} {current : Symbol} : registry.Holds current start ->
      Search registry start path current (some (path.reverse ++ [start]))
  | repeats {path : List Symbol} {current next : Symbol} : registry.Holds current next ->
      next ≠ start -> next ∈ path -> Search registry start path current none
  | goesOn {path : List Symbol} {current next : Symbol} {outcome : Option (List Symbol)} :
      registry.Holds current next -> next ≠ start -> next ∉ path ->
      Search registry start (next :: path) next outcome ->
      Search registry start path current outcome

theorem Holds.mem_keys {inner : Symbol} (h : registry.Holds name inner) :
    name ∈ registry.map Prod.fst := by
  rcases h with ⟨d, _, _, hd, _, _⟩
  exact List.mem_map.mpr ⟨(name, d), Table.mem_of_get? hd, rfl⟩

/-- With a step left for each declaration that has not been met, a search ends. -/
theorem circleFrom_search {steps : Nat} (hnodup : (current :: path).Nodup)
    (hmet : path ⊆ registry.map Prod.fst) (hsteps : registry.length < steps + path.length) :
    Search registry start (current :: path) current
      (circleFrom registry start steps (current :: path) current) := by
  induction steps generalizing path current with
  | zero =>
      have hle := (List.subperm_of_subset (List.nodup_cons.mp hnodup).right hmet).length_le
      rw [List.length_map] at hle
      omega
  | succ steps ih =>
      rw [circleFrom]
      split
      · rename_i hnone
        apply Search.stops
        intro next hholds
        rw [innerName?_eq_some.mpr hholds] at hnone
        cases hnone
      · rename_i next hnext
        have hholds := innerName?_eq_some.mp hnext
        split
        · rename_i hback
          rw [List.reverse_cons, hback]
          rw [hback] at hholds
          exact Search.returns hholds
        · rename_i hother
          split
          · rename_i hold
            exact Search.repeats hholds hother (List.contains_iff_mem.mp hold)
          · rename_i hnew
            have hnew : next ∉ current :: path := fun hmem =>
              hnew (List.contains_iff_mem.mpr hmem)
            apply Search.goesOn hholds hother hnew
            apply ih (List.nodup_cons.mpr ⟨hnew, hnodup⟩)
            · exact List.cons_subset.mpr ⟨hholds.mem_keys, hmet⟩
            · rw [List.length_cons]
              omega

theorem circle?_search (registry : Registry) (start : Symbol) :
    Search registry start [start] start (circle? registry start) :=
  circleFrom_search (List.nodup_singleton start) (List.nil_subset _) (Nat.lt_succ_self _)

/-!
## Rounds
-/

/-- A path that goes once round a circle, from a member back to it. -/
structure IsRound (registry : Registry) (start : Symbol) (path : List Symbol) : Prop where
  starts : path.head? = some start
  ends : path.getLast? = some start
  long : 2 ≤ path.length
  once : path.dropLast.Nodup
  linked : path.IsChain registry.Holds

theorem isChain_concat {next : Symbol} (hlinked : path.reverse.IsChain registry.Holds)
    (hends : path.head? = some current) (hholds : registry.Holds current next) :
    (path.reverse ++ [next]).IsChain registry.Holds := by
  apply List.isChain_append.mpr
  refine ⟨hlinked, List.isChain_singleton _, ?_⟩
  intro last hlast first hfirst
  rw [List.getLast?_reverse, hends, Option.mem_some_iff] at hlast
  rw [List.head?_cons, Option.mem_some_iff] at hfirst
  rw [<- hlast, <- hfirst]
  exact hholds

theorem Search.isRound {outcome : Option (List Symbol)} {found : List Symbol}
    (h : Search registry start path current outcome) (hfound : outcome = some found)
    (hstarts : path.reverse.head? = some start) (hends : path.head? = some current)
    (honce : path.Nodup) (hlinked : path.reverse.IsChain registry.Holds) :
    registry.IsRound start found := by
  induction h with
  | stops _ => cases hfound
  | repeats _ _ _ => cases hfound
  | @returns path current hholds =>
      cases hfound
      constructor
      · rw [List.head?_append, hstarts]
        rfl
      · exact List.getLast?_concat
      · cases path with
        | nil => cases hends
        | cons _ _ => simp
      · rw [List.dropLast_concat]
        exact List.nodup_reverse.mpr honce
      · exact isChain_concat hlinked hends hholds
  | @goesOn path current next outcome hholds _ hnew _ ih =>
      apply ih hfound
      · rw [List.reverse_cons, List.head?_append, hstarts]
        rfl
      · rfl
      · exact List.nodup_cons.mpr ⟨hnew, honce⟩
      · rw [List.reverse_cons]
        exact isChain_concat hlinked hends hholds

theorem isRound_of_circle? (h : circle? registry start = some path) :
    registry.IsRound start path :=
  (circle?_search registry start).isRound h rfl rfl (List.nodup_singleton start)
    (List.isChain_singleton start)

/-!
## Reports
-/

/-- The circles of a registry, each as a round from its smallest member. -/
def rounds (registry : Registry) : List (Symbol × List Symbol) :=
  (circles registry).filter fun item => isSmallest item.1 item.2

/-- The report of a circle: its texts in order, under the module of the first member. -/
def roundProblem (registry : Registry) (round : Symbol × List Symbol) : String × Problem :=
  (round.1.module, .decl
    { value := .circular (round.2.map Symbol.text)
      span := ((Table.get? registry round.1).map Declaration.span).getD {} })

theorem circleProblems_eq (registry : Registry) :
    circleProblems registry = (rounds registry).map registry.roundProblem := by
  unfold circleProblems rounds
  induction circles registry with
  | nil => rfl
  | cons item items ih =>
      rcases item with ⟨name, path⟩
      cases hsmallest : isSmallest name path with
      | false =>
          rw [List.filterMap_cons_none (by simp [hsmallest]),
            List.filter_cons_of_neg (by simp [hsmallest]), ih]
      | true =>
          rw [List.filterMap_cons_some (by simp [hsmallest]; rfl),
            List.filter_cons_of_pos (by simp [hsmallest]), ih]
          rfl

theorem mem_rounds : (start, path) ∈ rounds registry ↔
    circle? registry start = some path ∧ isSmallest start path = true := by
  unfold rounds
  rw [List.mem_filter]
  constructor
  · intro h
    rcases h with ⟨hmem, hsmallest⟩
    rcases List.mem_filterMap.mp hmem with ⟨item, _, hitem⟩
    rcases Option.map_eq_some_iff.mp hitem with ⟨_, hpath, hsame⟩
    cases hsame
    exact ⟨hpath, hsmallest⟩
  · intro h
    exact ⟨mem_circles_of_circle? h.left, h.right⟩

theorem smallest_le (h : (start, path) ∈ rounds registry) {member : Symbol}
    (hmember : member ∈ path) : Symbol.order member start ≠ .lt := by
  have hall := List.all_eq_true.mp (mem_rounds.mp h).right member hmember
  simpa using hall

theorem exists_follow_back {n : Nat} (h : circle? registry start = some path)
    (hname : follow registry n start = some name) :
    exists m, follow registry m name = some start := by
  rcases circle?_returns h with ⟨k, hpos, _, hback⟩
  rw [follow_mod hback] at hname
  have hlt := Nat.mod_lt n hpos
  rw [<- Nat.add_sub_cancel' (Nat.le_of_lt hlt), follow_add, hname, Option.bind_some] at hback
  exact ⟨k - n % k, hback⟩

theorem exists_round (h : registry.OnCircle name) :
    exists round, round ∈ rounds registry ∧ name ∈ round.2 := by
  rcases onCircle_iff.mp h with ⟨path, hpath⟩
  rcases exists_smallest_member hpath with ⟨least, round, hleast, hround, hsmallest⟩
  rcases (mem_circle? hpath).mp hleast with ⟨n, hn⟩
  refine ⟨(least, round), mem_rounds.mpr ⟨hround, hsmallest⟩, ?_⟩
  exact (mem_circle? hround).mpr (exists_follow_back hpath hn)

theorem round_unique {round other : Symbol × List Symbol} (hround : round ∈ rounds registry)
    (hother : other ∈ rounds registry) (hname : name ∈ round.2) (hname' : name ∈ other.2) :
    round = other := by
  -- the start of each round is a member of the other, so none is smaller
  have hmember : forall {round other : Symbol × List Symbol}, round ∈ rounds registry ->
      other ∈ rounds registry -> name ∈ round.2 -> name ∈ other.2 ->
        Symbol.order other.1 round.1 ≠ .lt := by
    intro round other hround hother hname hname'
    have hpath := (mem_rounds.mp hround).left
    have hpath' := (mem_rounds.mp hother).left
    rcases (mem_circle? hpath).mp hname with ⟨n, hn⟩
    rcases (mem_circle? hpath').mp hname' with ⟨m, hm⟩
    rcases exists_follow_back hpath' hm with ⟨j, hj⟩
    apply smallest_le hround
    apply (mem_circle? hpath).mpr
    refine ⟨n + j, ?_⟩
    rw [follow_add, hn, Option.bind_some, hj]
  have hstart : round.1 = other.1 :=
    Table.eq_of_not_lt (hmember hother hround hname' hname) (hmember hround hother hname hname')
  have hpath := (mem_rounds.mp hround).left
  rw [hstart, (mem_rounds.mp hother).left] at hpath
  exact Prod.ext hstart (Option.some.inj hpath).symm

theorem nodup_rounds (hkeys : (registry.map Prod.fst).Nodup) :
    ((rounds registry).map Prod.fst).Nodup := by
  have hcircles : ((circles registry).map Prod.fst).Sublist (registry.map Prod.fst) := by
    unfold circles
    generalize hfind : circle? registry = find
    clear hfind hkeys
    induction registry with
    | nil => exact List.Sublist.refl _
    | cons item items ih =>
        rw [List.filterMap_cons]
        cases find item.1 with
        | none => exact ih.cons _
        | some path => exact ih.cons_cons _
  exact hkeys.sublist ((List.filter_sublist.map Prod.fst).trans hcircles)

end Registry

/-!
## Registrations
-/

def Problem.circle? : Problem -> Option (List String)
  | .decl { value := .circular path, .. } => some path
  | _ => none

def Problem.isCircular (problem : Problem) : Bool := problem.circle?.isSome

theorem DeclFault.isOfTypes_of_isCircular {error : DeclError}
    (h : (Problem.decl error).isCircular = true) : error.value.isOfTypes = true := by
  unfold Problem.isCircular Problem.circle? at h
  split at h
  · rename_i hcircular
    cases hcircular
    rfl
  · cases h

namespace Registration

variable {limits : Limits} {depth : Nat} {modules : List Source.Module} {r : Registration}

theorem circular_problems (limits : Limits) (modules : List Source.Module) :
    (unvalidated limits modules).problems.filter (fun item => item.2.isCircular) =
      Registry.circleProblems (Registry.complete (written limits modules)) := by
  have hother : forall error : DeclError, error.value.isOfTypes = false ->
      (Problem.decl error).isCircular ≠ true := by
    intro error hfault hcircular
    rw [DeclFault.isOfTypes_of_isCircular hcircular] at hfault
    cases hfault
  have hlisting : forall item, item ∈ (Collection.ofModules modules).problems ->
      item.2.isCircular ≠ true := by
    intro item hitem
    rcases (Collection.home_of_problem hitem).right with ⟨error, herror, hfault⟩
    rw [herror]
    exact hother error hfault
  have hbuilding : forall item, item ∈ (Entry.buildFrom (Collection.ofModules modules).entries
      limits 0 (Collection.ofModules modules).entries).2 -> item.2.isCircular ≠ true := by
    intro item hitem
    rcases Entry.buildFrom_problem hitem with ⟨k, entry, _, _, hbuild⟩
    rcases Entry.build_error hbuild with ⟨error, herror, hfault⟩ | ⟨detail, hdetail⟩
    · rw [herror]
      exact hother error hfault
    · rw [hdetail]
      exact Bool.false_ne_true
  have hcircles : forall item, item ∈ Registry.circleProblems
      (Registry.complete (written limits modules)) -> item.2.isCircular = true := by
    intro item hitem
    rw [Registry.circleProblems_eq] at hitem
    rcases List.mem_map.mp hitem with ⟨round, _, rfl⟩
    rfl
  unfold unvalidated
  dsimp only
  rw [List.filter_append, List.filter_append, List.filter_eq_nil_iff.mpr hlisting,
    List.filter_eq_nil_iff.mpr hbuilding, List.nil_append, List.nil_append]
  exact List.filter_eq_self.mpr hcircles

theorem circular_of_validated (h : ofModules limits depth modules = some r) :
    r.problems.filter (fun item => item.2.isCircular) =
      (unvalidated limits modules).problems.filter fun item => item.2.isCircular := by
  rcases validated_of_ofModules h with ⟨invalid, hinvalid, rfl⟩
  have hvalidation : forall item, item ∈ invalid -> item.2.isCircular ≠ true := by
    intro item hitem
    rcases validationProblems_mem hinvalid hitem with ⟨name, d, detail, _, rfl, _⟩
    exact Bool.false_ne_true
  rw [List.filter_append, List.filter_eq_nil_iff.mpr hvalidation, List.append_nil]

/-- The members of circles are taken out of the completed registry, and nothing else is.
Each circle is reported once, as a round from its smallest member and under the module of
that. No circle is left, and the search for a way round ends from every type. All of this is
settled before the validation, which may have no end; where it has one, the registry and the
reports of circles are kept. -/
theorem circles_removed_and_reported_once (limits : Limits) (modules : List Source.Module) :
    let completed := Registry.complete (written limits modules)
    let r := unvalidated limits modules
    (forall name, completed.OnCircle name -> Table.get? r.registry name = none) ∧
    (forall name, ¬ completed.OnCircle name ->
      Table.get? r.registry name = Table.get? completed name) ∧
    (exists rounds : List (Symbol × List Symbol),
      r.problems.filter (fun item => item.2.isCircular) = rounds.map completed.roundProblem ∧
      (rounds.map Prod.fst).Nodup ∧
      (forall start path, (start, path) ∈ rounds -> completed.IsRound start path ∧
        forall member, member ∈ path -> Symbol.order member start ≠ .lt) ∧
      forall name, completed.OnCircle name -> exists round, (round ∈ rounds ∧ name ∈ round.2) ∧
        forall other, other ∈ rounds -> name ∈ other.2 -> other = round) ∧
    (forall name, ¬ r.registry.OnCircle name) ∧
    (forall start, completed.Search start [start] start (Registry.circle? completed start)) ∧
    forall depth validated, ofModules limits depth modules = some validated ->
      validated.registry = r.registry ∧
      validated.problems.filter (fun item => item.2.isCircular) =
        r.problems.filter fun item => item.2.isCircular := by
  intro completed r
  have hregistry : r.registry = Registry.withoutCircles completed := rfl
  constructor
  · intro name hcircle
    rcases Registry.onCircle_iff.mp hcircle with ⟨path, hpath⟩
    rw [hregistry, Registry.get?_withoutCircles, hpath]
    rfl
  constructor
  · intro name hfree
    rw [hregistry, Registry.get?_withoutCircles]
    apply if_neg
    intro hsome
    exact hfree (Registry.onCircle_iff.mpr (Option.isSome_iff_exists.mp hsome))
  constructor
  · refine ⟨Registry.rounds completed, ?_, ?_, ?_, ?_⟩
    · rw [circular_problems limits modules, Registry.circleProblems_eq]
    · exact Registry.nodup_rounds (ordered_complete limits modules).nodup
    · intro start path hround
      refine ⟨Registry.isRound_of_circle? (Registry.mem_rounds.mp hround).left, ?_⟩
      exact fun member hmember => Registry.smallest_le hround hmember
    · intro name hcircle
      rcases Registry.exists_round hcircle with ⟨round, hround, hname⟩
      refine ⟨round, ⟨hround, hname⟩, ?_⟩
      exact fun other hother hname' => Registry.round_unique hother hround hname' hname
  constructor
  · intro name hcircle
    rw [hregistry] at hcircle
    rcases Registry.transGen_iff_follow.mp hcircle with ⟨n, hpos, hback⟩
    exact Registry.follow_withoutCircles_ne hpos name hback
  constructor
  · exact Registry.circle?_search completed
  · intro depth validated h
    exact ⟨registry_eq h, circular_of_validated h⟩

def ringModules : List Source.Module :=
  [{ name := "Main"
     types := [
      .boxed { name := { name := "Lead" } }
        { inner := some { value := .ref { name := "Ring" } [] } },
      .boxed { name := { name := "Ring" } }
        { inner := some { value := .ref { module := some "Side", name := "Back" } [] } }] },
    { name := "Side"
      types := [
        .boxed { name := { name := "Back" } }
          { inner := some { value := .ref { module := some "Main", name := "Ring" } [] } }] }]

/-- `Ring` and `Back` are taken out and reported together, `Lead` stays. -/
theorem ring_reported_once :
    exists r, ofModules {} 4 ringModules = some r ∧
      Table.get? r.registry ⟨"Main", "Ring"⟩ = none ∧
      Table.get? r.registry ⟨"Side", "Back"⟩ = none ∧
      Table.contains r.registry ⟨"Main", "Lead"⟩ = true ∧
      (r.problems.filter fun item => item.2.isCircular).map
          (fun item => (item.1, item.2.circle?)) =
        [("Main", some ["Main::Ring", "Side::Back", "Main::Ring"])] ∧
      forall name, ¬ r.registry.OnCircle name := by
  have hcheck : (ofModules {} 4 ringModules).map (fun r =>
      (Table.contains r.registry ⟨"Main", "Lead"⟩,
        (r.problems.filter fun item => item.2.isCircular).map
          fun item => (item.1, item.2.circle?))) =
      some (true, [("Main", some ["Main::Ring", "Side::Back", "Main::Ring"])]) := by
    decide +kernel
  have hcircles : forall name : Symbol, name ∈ [⟨"Main", "Ring"⟩, ⟨"Side", "Back"⟩] ->
      (Registry.circle? (Registry.complete (written {} ringModules)) name).isSome = true := by
    decide +kernel
  rcases Option.map_eq_some_iff.mp hcheck with ⟨r, hr, heq⟩
  rcases Prod.mk.inj heq with ⟨hlead, hreports⟩
  rcases circles_removed_and_reported_once {} ringModules with
    ⟨hremoved, _, _, hfree, _, hvalidated⟩
  rw [<- (hvalidated 4 r hr).left] at hremoved hfree
  have hgone : forall name : Symbol, name ∈ [⟨"Main", "Ring"⟩, ⟨"Side", "Back"⟩] ->
      Table.get? r.registry name = none := by
    intro name hname
    apply hremoved name
    exact Registry.onCircle_iff.mpr (Option.isSome_iff_exists.mp (hcircles name hname))
  exact ⟨r, hr, hgone _ (by simp), hgone _ (by simp), hlead, hreports, hfree⟩

end Registration
end TypeChecker
