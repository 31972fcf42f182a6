import TypeChecker.Checking.Candidates
import TypeChecker.Proofs.Checking.Rejected

/-!
# Choosing between overloads

Every option of an undecided call is tried on a copy of the inference. Among those that fit
the expected type, the one is taken whose own result type is narrower than those of all
others. There is one such option at most, so the choice does not depend on the order of the
options.
-/

namespace TypeChecker

open Inferring

/-!
## Narrower types
-/

def Context.Narrower (ctx : Context) (a b : Ty) : Prop :=
  a.alike b = false ∧ (exists depth, ctx.fits depth b a = some true) ∧
    exists depth, ctx.fits depth a b = some false

/-- The type at a place of the list is narrower than those at all other places. -/
def Context.StandsOut (ctx : Context) (types : List Ty) (place : Nat) : Prop :=
  exists a, types[place]? = some a ∧
    forall other b, other ≠ place -> types[other]? = some b -> ctx.Narrower a b

namespace Context

variable {ctx : Context} {a b : Ty} {types : List Ty} {place : Nat}

theorem Narrower.asymm (hab : ctx.Narrower a b) : ¬ ctx.Narrower b a := by
  intro hba
  rcases hab.right.left with ⟨_, hfits⟩
  rcases hba.right.right with ⟨_, hmisfits⟩
  cases fits_agree hfits hmisfits

theorem StandsOut.unique {place' : Nat} (h : ctx.StandsOut types place)
    (h' : ctx.StandsOut types place') : place = place' := by
  rcases h with ⟨a, ha, hnarrower⟩
  rcases h' with ⟨b, hb, hnarrower'⟩
  by_contra hne
  exact (hnarrower place' b (Ne.symm hne) hb).asymm (hnarrower' place a hne ha)

theorem standsOut_iff {α : Type} {all : List α} {f : α -> Ty} {x : α}
    (hx : all[place]? = some x) :
    ctx.StandsOut (all.map f) place ↔
      forall other, other ∈ all.eraseIdx place -> ctx.Narrower (f x) (f other) := by
  have hplace : (all.map f)[place]? = some (f x) := by
    rw [List.getElem?_map, hx, Option.map_some]
  constructor
  · rintro ⟨a, ha, hnarrower⟩ other hmem
    cases hplace.symm.trans ha
    rcases List.mem_eraseIdx_iff_getElem?.mp hmem with ⟨j, hne, hj⟩
    refine hnarrower j (f other) hne ?_
    rw [List.getElem?_map, hj, Option.map_some]
  · intro hothers
    refine ⟨f x, hplace, ?_⟩
    intro j b hne hj
    rw [List.getElem?_map] at hj
    rcases Option.map_eq_some_iff.mp hj with ⟨other, hother, rfl⟩
    exact hothers other (List.mem_eraseIdx_iff_getElem?.mpr ⟨j, hne, hother⟩)

theorem perm_cons_eraseIdx {α : Type} {all : List α} {x : α} (hx : all[place]? = some x) :
    (x :: all.eraseIdx place).Perm all := by
  rcases List.getElem?_eq_some_iff.mp hx with ⟨hlt, rfl⟩
  exact List.getElem_cons_eraseIdx_perm hlt

theorem StandsOut.perm {α : Type} {all all' : List α} {f : α -> Ty} {x : α}
    (h : ctx.StandsOut (all.map f) place) (hx : all[place]? = some x) (hperm : all.Perm all') :
    exists place', all'[place']? = some x ∧ ctx.StandsOut (all'.map f) place' := by
  have hmem := hperm.mem_iff.mp (List.mem_of_getElem? hx)
  rcases List.getElem?_of_mem hmem with ⟨place', hx'⟩
  have hothers : (all.eraseIdx place).Perm (all'.eraseIdx place') :=
    ((perm_cons_eraseIdx hx).trans (hperm.trans (perm_cons_eraseIdx hx').symm)).cons_inv
  refine ⟨place', hx', (standsOut_iff hx').mpr ?_⟩
  intro other hother
  exact (standsOut_iff hx).mp h other (hothers.mem_iff.mpr hother)

end Context

namespace Candidate

variable {ctx : Context} {depth : Nat} {a b : Ty}

theorem narrower_eq : narrower ctx depth a b =
    if a.alike b then some false
    else (ctx.fits depth b a).bind fun forth =>
      if forth then (ctx.fits depth a b).map (! ·) else some false := by
  rw [narrower]
  split
  · rfl
  · cases ctx.fits depth b a with
    | none => rfl
    | some forth =>
        cases forth with
        | false => rfl
        | true => cases ctx.fits depth a b <;> rfl

theorem narrower_iff {v : Bool} (h : narrower ctx depth a b = some v) :
    v = true ↔ ctx.Narrower a b := by
  rw [narrower_eq] at h
  split at h
  · rename_i halike
    cases h
    exact iff_of_false Bool.false_ne_true fun hnarrower =>
      Bool.false_ne_true (hnarrower.left.symm.trans halike)
  · rename_i halike
    rcases Option.bind_eq_some_iff.mp h with ⟨forth, hforth, h⟩
    cases forth with
    | false =>
        cases h
        refine iff_of_false Bool.false_ne_true ?_
        rintro ⟨_, ⟨_, hfits⟩, _⟩
        cases fits_agree hforth hfits
    | true =>
        rcases Option.map_eq_some_iff.mp h with ⟨back, hback, rfl⟩
        cases back with
        | false => exact iff_of_true rfl ⟨eq_false_of_ne_true halike, ⟨_, hforth⟩, _, hback⟩
        | true =>
            refine iff_of_false Bool.false_ne_true ?_
            rintro ⟨_, _, _, hmisfits⟩
            cases fits_agree hback hmisfits

theorem narrower_answers {forth back : Bool} (hforth : ctx.fits depth b a = some forth)
    (hback : ctx.fits depth a b = some back) : exists v, narrower ctx depth a b = some v := by
  rw [narrower_eq, hforth, hback]
  split
  · exact ⟨_, rfl⟩
  · cases forth <;> exact ⟨_, rfl⟩

section

variable {index position : Nat} {result : Ty} {all rest : List Candidate}

theorem narrowestAt_cons {other : Candidate} :
    narrowestAt ctx depth index result position (other :: rest) =
      if position = index then narrowestAt ctx depth index result (position + 1) rest
      else (narrower ctx depth result other.result).bind fun v =>
        if v then narrowestAt ctx depth index result (position + 1) rest else some false := by
  rw [narrowestAt]
  rfl

theorem narrowestAt_iff {v : Bool}
    (h : narrowestAt ctx depth index result position rest = some v) :
    v = true ↔ forall j other, position + j ≠ index -> rest[j]? = some other ->
      ctx.Narrower result other.result := by
  induction rest generalizing position with
  | nil =>
      cases h
      exact iff_of_true rfl fun j other _ hother => by cases hother
  | cons first rest ih =>
      -- The candidates from `position` on are the first one and those from the next place on.
      have hsplit : (forall j other, position + j ≠ index -> (first :: rest)[j]? = some other ->
            ctx.Narrower result other.result) ↔
          (position ≠ index -> ctx.Narrower result first.result) ∧
            forall j other, position + 1 + j ≠ index -> rest[j]? = some other ->
              ctx.Narrower result other.result := by
        constructor
        · intro hall
          refine ⟨fun hne => hall 0 first hne rfl, ?_⟩
          intro j other hne hother
          exact hall (j + 1) other (by omega) hother
        · rintro ⟨hfirst, hrest⟩ j other hne hother
          cases j with
          | zero =>
              cases hother
              exact hfirst hne
          | succ j => exact hrest j other (by omega) hother
      rw [narrowestAt_cons] at h
      rw [hsplit]
      split at h
      · rename_i hindex
        rw [ih h]
        simp [hindex]
      · rename_i hindex
        rcases Option.bind_eq_some_iff.mp h with ⟨narrow, hnarrow, h⟩
        have hfirst := narrower_iff hnarrow
        cases narrow with
        | true =>
            rw [ih h]
            simp [hfirst.mp rfl]
        | false =>
            cases h
            refine iff_of_false Bool.false_ne_true ?_
            rintro ⟨hnarrower, _⟩
            exact Bool.false_ne_true (hfirst.mpr (hnarrower hindex))

theorem narrowestAt_answers (hrest : forall other, other ∈ rest ->
      exists v, narrower ctx depth result other.result = some v) :
    exists v, narrowestAt ctx depth index result position rest = some v := by
  induction rest generalizing position with
  | nil => exact ⟨true, rfl⟩
  | cons first rest ih =>
      rcases List.forall_mem_cons.mp hrest with ⟨⟨narrow, hfirst⟩, hothers⟩
      rw [narrowestAt_cons, hfirst]
      split
      · exact ih hothers
      · cases narrow with
        | true => exact ih hothers
        | false => exact ⟨false, rfl⟩

theorem narrowestAt_standsOut {candidate : Candidate} {v : Bool}
    (hplace : all[index]? = some candidate)
    (h : narrowestAt ctx depth index candidate.result 0 all = some v) :
    v = true ↔ ctx.StandsOut (all.map Candidate.result) index := by
  rw [narrowestAt_iff h, Context.standsOut_iff hplace]
  constructor
  · intro hall other hmem
    rcases List.mem_eraseIdx_iff_getElem?.mp hmem with ⟨j, hne, hother⟩
    exact hall j other (by omega) hother
  · intro hall j other hne hother
    exact hall other (List.mem_eraseIdx_iff_getElem?.mpr ⟨j, by omega, hother⟩)

theorem narrowestFrom_spec {found : Option Candidate} (hrest : all.drop index = rest)
    (h : narrowestFrom ctx depth all index rest = some found) :
    (forall candidate, found = some candidate -> exists place, all[place]? = some candidate ∧
      ctx.StandsOut (all.map Candidate.result) place) ∧
    (found = none -> forall place, index ≤ place ->
      ¬ ctx.StandsOut (all.map Candidate.result) place) := by
  induction rest generalizing index with
  | nil =>
      cases h
      constructor
      · intro candidate hcandidate
        cases hcandidate
      · rintro _ place hle ⟨a, ha, _⟩
        rw [List.getElem?_map] at ha
        rcases Option.map_eq_some_iff.mp ha with ⟨candidate, hcandidate, _⟩
        have hlt := (List.getElem?_eq_some_iff.mp hcandidate).choose
        exact absurd (List.drop_eq_nil_iff.mp hrest) (by omega)
  | cons first rest ih =>
      have hplace : all[index]? = some first := by
        rw [<- List.head?_drop, hrest]
        rfl
      have hnext : all.drop (index + 1) = rest := by
        rw [<- List.tail_drop, hrest]
        rfl
      rw [narrowestFrom] at h
      rcases Option.bind_eq_some_iff.mp h with ⟨narrow, hnarrow, h⟩
      have hfirst := narrowestAt_standsOut hplace hnarrow
      cases narrow with
      | true =>
          cases h
          constructor
          · intro candidate hcandidate
            cases hcandidate
            exact ⟨index, hplace, hfirst.mp rfl⟩
          · intro hnone
            cases hnone
      | false =>
          rcases ih hnext h with ⟨hfound, hnone⟩
          refine ⟨hfound, ?_⟩
          intro hempty place hle
          rcases Nat.eq_or_lt_of_le hle with rfl | hlt
          · exact fun hstands => Bool.false_ne_true (hfirst.mpr hstands)
          · exact hnone hempty place hlt

/-- The first two candidates are always compared. -/
theorem narrowest?_undecided {first second : Candidate}
    (h : narrower ctx depth first.result second.result = none) :
    narrowest? ctx depth (first :: second :: rest) = none := by
  rw [narrowest?, narrowestFrom, narrowestAt_cons, if_pos rfl, narrowestAt_cons,
    if_neg Nat.one_ne_zero, h]
  rfl

theorem narrowestFrom_answers (hall : forall a, a ∈ all -> forall b, b ∈ all ->
      exists v, ctx.fits depth a.result b.result = some v)
    (hrest : forall candidate, candidate ∈ rest -> candidate ∈ all) :
    exists found, narrowestFrom ctx depth all index rest = some found := by
  induction rest generalizing index with
  | nil => exact ⟨none, rfl⟩
  | cons first rest ih =>
      rcases List.forall_mem_cons.mp hrest with ⟨hfirst, hothers⟩
      have hnarrower : forall other, other ∈ all ->
          exists v, narrower ctx depth first.result other.result = some v := by
        intro other hother
        rcases hall other hother first hfirst with ⟨forth, hforth⟩
        rcases hall first hfirst other hother with ⟨back, hback⟩
        exact narrower_answers hforth hback
      rcases narrowestAt_answers hnarrower with ⟨v, hv⟩
      rcases ih hothers with ⟨found, hfound⟩
      rw [narrowestFrom, hv]
      cases v with
      | true => exact ⟨some first, rfl⟩
      | false => exact ⟨found, hfound⟩

end
end Candidate

/-!
## Trials
-/

/-- An option of an undecided call, the answer it got on a copy of the inference, and the
copy afterwards. -/
structure Trial where
  option : CallOption
  answer : Except ExprError Term
  after : Inference

namespace Trial

def Runs (ctx : Context) (depth : Nat) (expected : Option Ty) (i : Inference) (t : Trial) : Prop :=
  (ctx.fit depth expected t.option.term).outcome i = some (t.answer, t.after)

def of? (ctx : Context) (depth : Nat) (expected : Option Ty) (i : Inference)
    (option : CallOption) : Option Trial :=
  ((ctx.fit depth expected option.term).outcome i).map fun r => ⟨option, r.1, r.2⟩

def fits (t : Trial) : Bool :=
  t.answer.isOk

def type (t : Trial) : Ty :=
  t.option.term.type

def candidate (t : Trial) : Candidate where
  term := t.answer.toOption.getD t.option.term
  result := t.type
  description := t.option.description
  inference := t.after

def refusal? (t : Trial) : Option (String × ExprError) :=
  match t.answer with
  | .ok _ => none
  | .error e => some (t.option.description, e)

end Trial

theorem Inferring.outcome_trial {ε δ α : Type} (x : Inferring ε α) (i : Inference) :
    (x.trial : Inferring δ (Except ε α × Inference)).outcome i =
      (x.outcome i).map fun r => (.ok r, i) := by
  show (x.outcome i).bind _ = _
  cases x.outcome i <;> rfl

theorem Inferring.outcome_trial_bind {ε δ α β : Type} (x : Inferring ε α)
    (f : Except ε α × Inference -> Inferring δ β) (i : Inference) :
    ((x.trial : Inferring δ (Except ε α × Inference)) >>= f).outcome i =
      (x.outcome i).bind fun r => (f r).outcome i := by
  rw [outcome_bind, outcome_trial]
  cases x.outcome i <;> rfl

theorem Inferring.outcome_of_bind {ε α β : Type} {x : Inferring ε α} {f : α -> Inferring ε β}
    {i : Inference} {r : Except ε β × Inference} (h : (x >>= f).outcome i = some r) :
    exists s, x.outcome i = some s := by
  cases hx : x.outcome i with
  | none =>
      rw [outcome_bind, hx] at h
      cases h
  | some s => exact ⟨s, rfl⟩

theorem Context.fit_not_internal {ctx : Context} {depth : Nat} {expected : Option Ty} {term : Term}
    {i j : Inference} {e : ExprError}
    (h : (ctx.fit depth expected term).outcome i = some (.error e, j)) :
    ¬ e.value.isInternal = true := by
  cases expected with
  | none => cases h
  | some t =>
      rw [Context.fit, outcome_attempt_bind] at h
      split at h
      · cases h
      · rename_i result k hrun
        cases result with
        | ok type => cases h
        | error reason =>
            cases h
            exact Bool.false_ne_true

theorem Context.fit_extends {ctx : Context} {m n : Nat} (hle : m ≤ n) (expected : Option Ty)
    (term : Term) : Extends (ctx.fit m expected term) (ctx.fit n expected term) := by
  cases expected with
  | none => exact Extends.refl _
  | some t => exact (assign_extends hle .toTarget t term.type).attempt.bind fun _ => Extends.refl _

theorem Trial.Runs.arity {ctx : Context} {depth : Nat} {expected : Option Ty} {i : Inference}
    {t : Trial} (h : t.Runs ctx depth expected i) : t.after.arity = i.arity :=
  (fit_accepts (Inference.stable_arity i.arity) i _ _ rfl h).left

section

variable {ctx : Context} {depth : Nat} {expected : Option Ty} {i : Inference}
  {trials : List Trial} {options : List CallOption}

theorem tried_of_runs (h : forall t, t ∈ trials -> t.Runs ctx depth expected i) :
    (Tried.all CallOption.description (fun option _ => option.term.type)
      (fun option => ctx.fit depth expected option.term) (trials.map Trial.option)).outcome i =
      some (.ok {
        accepted := (trials.filter Trial.fits).map Trial.candidate
        refused := trials.filterMap Trial.refusal? }, i) := by
  induction trials with
  | nil => rfl
  | cons t rest ih =>
      rcases List.forall_mem_cons.mp h with ⟨ht, hrest⟩
      rcases t with ⟨option, answer, after⟩
      rw [List.map_cons, Tried.all, outcome_trial_bind, show _ = some (answer, after) from ht]
      cases answer with
      | ok term =>
          show (Tried.all _ _ _ _ >>= _).outcome i = _
          rw [outcome_bind, ih hrest]
          rfl
      | error e =>
          rw [Option.bind_some]
          dsimp only
          rw [if_neg (Context.fit_not_internal ht)]
          show (Tried.all _ _ _ _ >>= _).outcome i = _
          rw [outcome_bind, ih hrest]
          rfl

theorem runs_of_tried {r : Except ExprError Tried × Inference}
    (h : (Tried.all CallOption.description (fun option _ => option.term.type)
      (fun option => ctx.fit depth expected option.term) options).outcome i = some r) :
    exists trials : List Trial, trials.map Trial.option = options ∧
      forall t, t ∈ trials -> t.Runs ctx depth expected i := by
  induction options generalizing r with
  | nil => exact ⟨[], rfl, List.forall_mem_nil _⟩
  | cons option rest ih =>
      rw [Tried.all, outcome_trial_bind] at h
      rcases Option.bind_eq_some_iff.mp h with ⟨⟨answer, after⟩, hrun, h⟩
      have hothers : exists s, (Tried.all CallOption.description (fun option _ => option.term.type)
          (fun option => ctx.fit depth expected option.term) rest).outcome i = some s := by
        cases answer with
        | ok term => exact outcome_of_bind h
        | error e =>
            dsimp only at h
            rw [if_neg (Context.fit_not_internal hrun)] at h
            exact outcome_of_bind h
      rcases hothers with ⟨s, hs⟩
      rcases ih hs with ⟨trials, hoptions, hruns⟩
      refine ⟨⟨option, answer, after⟩ :: trials, ?_, List.forall_mem_cons.mpr ⟨hrun, hruns⟩⟩
      rw [List.map_cons, hoptions]

theorem filterMap_trialOf (h : forall t, t ∈ trials -> t.Runs ctx depth expected i) :
    (trials.map Trial.option).filterMap (Trial.of? ctx depth expected i) = trials := by
  rw [List.filterMap_map]
  refine (List.filterMap_congr ?_).trans List.filterMap_some
  intro t ht
  show ((ctx.fit depth expected t.option.term).outcome i).map _ = _
  rw [show _ = some (t.answer, t.after) from h t ht]
  rfl

theorem map_option_filterMap (h : forall option, option ∈ options ->
      exists t, Trial.of? ctx depth expected i option = some t) :
    (options.filterMap (Trial.of? ctx depth expected i)).map Trial.option = options := by
  induction options with
  | nil => rfl
  | cons option rest ih =>
      rcases List.forall_mem_cons.mp h with ⟨⟨t, ht⟩, hrest⟩
      have hoption : t.option = option := by
        rcases Option.map_eq_some_iff.mp ht with ⟨r, _, rfl⟩
        rfl
      rw [List.filterMap_cons_some ht, List.map_cons, ih hrest, hoption]

theorem runs_of_perm (h : forall t, t ∈ trials -> t.Runs ctx depth expected i)
    (hperm : (trials.map Trial.option).Perm options) :
    exists trials' : List Trial, trials'.map Trial.option = options ∧ trials.Perm trials' := by
  have hsame := hperm.filterMap (Trial.of? ctx depth expected i)
  rw [filterMap_trialOf h] at hsame
  refine ⟨_, map_option_filterMap ?_, hsame⟩
  intro option hoption
  rcases List.mem_map.mp (hperm.mem_iff.mpr hoption) with ⟨t, ht, rfl⟩
  exact ⟨t, Option.map_eq_some_iff.mpr ⟨_, h t ht, rfl⟩⟩

/-- Where the same options are tried, the trials are the same, whatever their order and
the depth. -/
theorem trials_perm {depth' : Nat} {trials' : List Trial}
    (h : forall t, t ∈ trials -> t.Runs ctx depth expected i)
    (h' : forall t, t ∈ trials' -> t.Runs ctx depth' expected i)
    (hperm : (trials.map Trial.option).Perm (trials'.map Trial.option)) : trials.Perm trials' := by
  have hdeep : forall t, t ∈ trials -> t.Runs ctx (max depth depth') expected i :=
    fun t ht => Context.fit_extends (Nat.le_max_left _ _) expected t.option.term i _ (h t ht)
  have hdeep' : forall t, t ∈ trials' -> t.Runs ctx (max depth depth') expected i :=
    fun t ht => Context.fit_extends (Nat.le_max_right _ _) expected t.option.term i _ (h' t ht)
  rw [<- filterMap_trialOf hdeep, <- filterMap_trialOf hdeep']
  exact hperm.filterMap _

end

/-!
## The choice
-/

/-- How an undecided call is decided by the trials of its options. -/
structure OverloadChoice (ctx : Context) (i : Inference) (span : Span) (trials : List Trial)
    (result : Except ExprError Term) (after : Inference) : Prop where
  refused : trials.filter Trial.fits = [] -> exists reasons,
    List.Forall₂ (fun t reason => t.option.description = reason.1 ∧ t.answer = .error reason.2)
      trials reasons ∧
    result = .error { value := .noneCallable reasons, span := span } ∧ after = i
  single : forall t, trials.filter Trial.fits = [t] ->
    result = t.answer ∧ after = { i with slots := t.after.slots }
  narrowest : 2 ≤ (trials.filter Trial.fits).length -> forall place t,
    (trials.filter Trial.fits)[place]? = some t ->
    ctx.StandsOut ((trials.filter Trial.fits).map Trial.type) place ->
    result = t.answer ∧ after = { i with slots := t.after.slots }
  ambiguous : 2 ≤ (trials.filter Trial.fits).length ->
    (forall place, ¬ ctx.StandsOut ((trials.filter Trial.fits).map Trial.type) place) ->
    result = .error {
      value := .ambiguousCall ((trials.filter Trial.fits).map fun t => t.option.description)
      span := span } ∧ after = i

namespace Trial

variable {t : Trial}

theorem answer_of_fits (h : t.fits = true) : t.answer = .ok t.candidate.term := by
  rcases t with ⟨option, answer, after⟩
  cases answer with
  | ok term => rfl
  | error e => cases h

theorem narrowest?_spec {ctx : Context} {depth : Nat} {fitting : List Trial}
    {found : Option Candidate}
    (h : Candidate.narrowest? ctx depth (fitting.map candidate) = some found) :
    (forall chosen, found = some chosen -> exists place t, fitting[place]? = some t ∧
      t.candidate = chosen ∧ ctx.StandsOut (fitting.map type) place) ∧
    (found = none -> forall place, ¬ ctx.StandsOut (fitting.map type) place) := by
  have htypes : (fitting.map candidate).map Candidate.result = fitting.map type := by
    rw [List.map_map]
    rfl
  rcases Candidate.narrowestFrom_spec rfl h with ⟨hsome, hnone⟩
  rw [htypes] at hsome hnone
  refine ⟨?_, fun hempty place => hnone hempty place (Nat.zero_le place)⟩
  intro chosen hchosen
  rcases hsome chosen hchosen with ⟨place, hplace, hstands⟩
  rw [List.getElem?_map] at hplace
  rcases Option.map_eq_some_iff.mp hplace with ⟨t, ht, hcandidate⟩
  exact ⟨place, t, ht, hcandidate, hstands⟩

theorem forall₂_refusal {trials : List Trial} (h : trials.filter fits = []) :
    List.Forall₂ (fun t reason => t.option.description = reason.1 ∧ t.answer = .error reason.2)
      trials (trials.filterMap refusal?) := by
  induction trials with
  | nil => exact .nil
  | cons t rest ih =>
      rcases t with ⟨option, answer, after⟩
      cases answer with
      | ok term => cases h
      | error e => exact .cons ⟨rfl, rfl⟩ (ih h)

theorem eq_filterMap_refusal {trials : List Trial} {reasons : List (String × ExprError)}
    (h : List.Forall₂ (fun t reason => t.option.description = reason.1 ∧ t.answer = .error reason.2)
      trials reasons) : reasons = trials.filterMap refusal? := by
  induction h with
  | nil => rfl
  | @cons t reason trials reasons hreason _ ih =>
      have hrefusal : t.refusal? = some reason := by
        rw [refusal?, hreason.right, hreason.left]
      rw [List.filterMap_cons_some hrefusal, <- ih]

theorem exists_of_standsOut {ctx : Context} {trials : List Trial} {place : Nat}
    (h : ctx.StandsOut ((trials.filter fits).map type) place) :
    exists t, (trials.filter fits)[place]? = some t ∧ t.fits = true := by
  rcases h with ⟨_, ha, _⟩
  rw [List.getElem?_map] at ha
  rcases Option.map_eq_some_iff.mp ha with ⟨t, ht, _⟩
  exact ⟨t, ht, List.of_mem_filter (List.mem_of_getElem? ht)⟩

end Trial

namespace Checker

variable {c : Checker} {ctx : Context} {expected : Option Ty} {span : Span} {i : Inference}
  {trials : List Trial}

section

variable (hruns : forall t, t ∈ trials -> t.Runs ctx c.depth expected i)

include hruns

theorem settleUndecided_refused (hnone : trials.filter Trial.fits = []) :
    (c.settleUndecided ctx expected (trials.map Trial.option) span).outcome i =
      some (.error {
        value := .noneCallable (trials.filterMap Trial.refusal?)
        span := span }, i) := by
  rw [settleUndecided, outcome_bind, tried_of_runs hruns, hnone]
  rfl

theorem settleUndecided_single {t : Trial} (hone : trials.filter Trial.fits = [t]) :
    (c.settleUndecided ctx expected (trials.map Trial.option) span).outcome i =
      some (t.answer, { i with slots := t.after.slots }) := by
  have hmem : t ∈ trials.filter Trial.fits := hone ▸ List.mem_singleton_self t
  rw [settleUndecided, outcome_bind, tried_of_runs hruns, hone,
    Trial.answer_of_fits (List.of_mem_filter hmem),
    <- Inference.adopt_eq (hruns t (List.mem_of_mem_filter hmem)).arity]
  rfl

theorem settleUndecided_several (hseveral : 2 ≤ (trials.filter Trial.fits).length) :
    (c.settleUndecided ctx expected (trials.map Trial.option) span).outcome i =
      (Candidate.narrowest? ctx c.depth ((trials.filter Trial.fits).map Trial.candidate)).map
        fun found => found.elim
          (.error {
            value := .ambiguousCall ((trials.filter Trial.fits).map fun t => t.option.description)
            span := span }, i)
          fun candidate => (.ok candidate.term, i.adopt candidate.inference) := by
  rw [settleUndecided, outcome_bind, tried_of_runs hruns]
  dsimp only
  generalize trials.filter Trial.fits = fitting at hseveral
  have hdescriptions : (fitting.map fun t => t.option.description) =
      (fitting.map Trial.candidate).map Candidate.description := by
    rw [List.map_map]
    rfl
  rw [hdescriptions]
  rcases fitting with _ | ⟨first, _ | ⟨second, more⟩⟩
  · cases hseveral
  · exact absurd hseveral (by simp)
  · rw [List.map_cons, List.map_cons]
    dsimp only
    rw [outcome_bind]
    cases Candidate.narrowest? ctx c.depth
        (first.candidate :: second.candidate :: more.map Trial.candidate) with
    | none => rfl
    | some found => cases found <;> rfl

end

theorem settleUndecided_choice (hruns : forall t, t ∈ trials -> t.Runs ctx c.depth expected i)
    {result : Except ExprError Term} {after : Inference}
    (h : (c.settleUndecided ctx expected (trials.map Trial.option) span).outcome i =
      some (result, after)) :
    OverloadChoice ctx i span trials result after where
  refused := by
    intro hnone
    rw [settleUndecided_refused hruns hnone] at h
    cases h
    exact ⟨_, Trial.forall₂_refusal hnone, rfl, rfl⟩
  single := by
    intro t hone
    rw [settleUndecided_single hruns hone] at h
    cases h
    exact ⟨rfl, rfl⟩
  narrowest := by
    intro hseveral place t hplace hstands
    rw [settleUndecided_several hruns hseveral] at h
    rcases Option.map_eq_some_iff.mp h with ⟨found, hfound, h⟩
    rcases Trial.narrowest?_spec hfound with ⟨hsome, hnone⟩
    cases found with
    | none => exact absurd hstands (hnone rfl place)
    | some candidate =>
        rcases hsome candidate rfl with ⟨place', t', hplace', rfl, hstands'⟩
        cases hstands.unique hstands'
        cases hplace.symm.trans hplace'
        cases h
        have hmem := List.mem_of_getElem? hplace
        exact ⟨(Trial.answer_of_fits (List.of_mem_filter hmem)).symm,
          Inference.adopt_eq (hruns t (List.mem_of_mem_filter hmem)).arity⟩
  ambiguous := by
    intro hseveral hnone
    rw [settleUndecided_several hruns hseveral] at h
    rcases Option.map_eq_some_iff.mp h with ⟨found, hfound, h⟩
    cases found with
    | none =>
        cases h
        exact ⟨rfl, rfl⟩
    | some candidate =>
        rcases (Trial.narrowest?_spec hfound).left candidate rfl with ⟨place, _, _, _, hstands⟩
        exact absurd hstands (hnone place)

/-- Where every option and every comparison between options that fit answers, the call is
decided. -/
theorem settleUndecided_answers (hruns : forall t, t ∈ trials -> t.Runs ctx c.depth expected i)
    (hcompared : forall a, a ∈ trials.filter Trial.fits ->
      forall b, b ∈ trials.filter Trial.fits -> exists v, ctx.fits c.depth a.type b.type = some v) :
    exists result after,
      (c.settleUndecided ctx expected (trials.map Trial.option) span).outcome i =
        some (result, after) := by
  by_cases hseveral : 2 ≤ (trials.filter Trial.fits).length
  · rw [settleUndecided_several hruns hseveral]
    have hanswers : exists found, Candidate.narrowest? ctx c.depth
        ((trials.filter Trial.fits).map Trial.candidate) = some found := by
      refine Candidate.narrowestFrom_answers ?_ fun _ h => h
      intro a ha b hb
      rcases List.mem_map.mp ha with ⟨t, ht, rfl⟩
      rcases List.mem_map.mp hb with ⟨u, hu, rfl⟩
      exact hcompared t ht u hu
    rcases hanswers with ⟨found, hfound⟩
    rw [hfound]
    exact ⟨_, _, rfl⟩
  · cases hfitting : trials.filter Trial.fits with
    | nil => exact ⟨_, _, settleUndecided_refused hruns hfitting⟩
    | cons t rest =>
        cases rest with
        | nil => exact ⟨_, _, settleUndecided_single hruns hfitting⟩
        | cons second more => exact absurd (by simp [hfitting]) hseveral

end Checker

/-- Results that differ only in the order in which an error lists the options. -/
inductive SameUpToOrder : Except ExprError Term -> Except ExprError Term -> Prop where
  | chosen (term : Term) : SameUpToOrder (.ok term) (.ok term)
  | refused {reasons reasons' : List (String × ExprError)} (perm : reasons.Perm reasons')
      (span : Span) : SameUpToOrder (.error { value := .noneCallable reasons, span := span })
        (.error { value := .noneCallable reasons', span := span })
  | ambiguous {options options' : List String} (perm : options.Perm options') (span : Span) :
      SameUpToOrder (.error { value := .ambiguousCall options, span := span })
        (.error { value := .ambiguousCall options', span := span })

namespace OverloadChoice

variable {ctx : Context} {i : Inference} {span : Span} {trials trials' : List Trial}
  {result result' : Except ExprError Term} {after after' : Inference}

theorem of_standsOut (h : OverloadChoice ctx i span trials result after) {place : Nat} {t : Trial}
    (ht : (trials.filter Trial.fits)[place]? = some t)
    (hstands : ctx.StandsOut ((trials.filter Trial.fits).map Trial.type) place) :
    result = t.answer ∧ after = { i with slots := t.after.slots } := by
  have hlt := (List.getElem?_eq_some_iff.mp ht).choose
  rcases Nat.lt_or_ge (trials.filter Trial.fits).length 2 with hone | hseveral
  · have hlength : (trials.filter Trial.fits).length = 1 := by omega
    rcases List.length_eq_one_iff.mp hlength with ⟨only, honly⟩
    rw [honly] at ht hlt
    cases Nat.lt_one_iff.mp hlt
    cases ht
    exact h.single t honly
  · exact h.narrowest hseveral place t ht hstands

theorem of_not_standsOut (h : OverloadChoice ctx i span trials result after)
    (hsome : trials.filter Trial.fits ≠ [])
    (hnone : forall place, ¬ ctx.StandsOut ((trials.filter Trial.fits).map Trial.type) place) :
    result = .error {
      value := .ambiguousCall ((trials.filter Trial.fits).map fun t => t.option.description)
      span := span } ∧ after = i := by
  have hpos := List.length_pos_of_ne_nil hsome
  rcases Nat.lt_or_ge (trials.filter Trial.fits).length 2 with hone | hseveral
  · have hlength : (trials.filter Trial.fits).length = 1 := by omega
    rcases List.length_eq_one_iff.mp hlength with ⟨only, honly⟩
    have hat : (trials.filter Trial.fits)[0]? = some only := by
      rw [honly]
      rfl
    exact absurd ((Context.standsOut_iff hat).mpr (by simp [honly])) (hnone 0)
  · exact h.ambiguous hseveral hnone

theorem undone (h : OverloadChoice ctx i span trials result after) {e : ExprError}
    (herror : result = .error e) : after = i := by
  by_cases hsome : trials.filter Trial.fits = []
  · rcases h.refused hsome with ⟨_, _, _, hafter⟩
    exact hafter
  · by_cases hstands : exists place,
        ctx.StandsOut ((trials.filter Trial.fits).map Trial.type) place
    · rcases hstands with ⟨place, hstands⟩
      rcases Trial.exists_of_standsOut hstands with ⟨t, ht, hfits⟩
      have hok := (h.of_standsOut ht hstands).left
      rw [herror, Trial.answer_of_fits hfits] at hok
      cases hok
    · exact (h.of_not_standsOut hsome (not_exists.mp hstands)).right

theorem taken (h : OverloadChoice ctx i span trials result after) {term : Term}
    (hok : result = .ok term) :
    exists t, t ∈ trials ∧ t.answer = .ok term ∧ after.slots = t.after.slots := by
  by_cases hsome : trials.filter Trial.fits = []
  · rcases h.refused hsome with ⟨_, _, herror, _⟩
    cases hok.symm.trans herror
  · by_cases hstands : exists place,
        ctx.StandsOut ((trials.filter Trial.fits).map Trial.type) place
    · rcases hstands with ⟨place, hstands⟩
      rcases Trial.exists_of_standsOut hstands with ⟨t, ht, _⟩
      rcases h.of_standsOut ht hstands with ⟨hanswer, rfl⟩
      exact ⟨t, List.mem_of_mem_filter (List.mem_of_getElem? ht), hanswer.symm.trans hok, rfl⟩
    · cases hok.symm.trans (h.of_not_standsOut hsome (not_exists.mp hstands)).left

theorem same_of_perm (h : OverloadChoice ctx i span trials result after)
    (h' : OverloadChoice ctx i span trials' result' after') (hperm : trials.Perm trials') :
    SameUpToOrder result result' ∧ after = after' := by
  have hfitting := hperm.filter Trial.fits
  by_cases hsome : trials.filter Trial.fits = []
  · rcases h.refused hsome with ⟨reasons, hreasons, rfl, rfl⟩
    rcases h'.refused (List.perm_nil.mp (hsome ▸ hfitting.symm)) with
      ⟨reasons', hreasons', rfl, rfl⟩
    refine ⟨.refused ?_ span, rfl⟩
    rw [Trial.eq_filterMap_refusal hreasons, Trial.eq_filterMap_refusal hreasons']
    exact hperm.filterMap _
  · by_cases hstands : exists place,
        ctx.StandsOut ((trials.filter Trial.fits).map Trial.type) place
    · rcases hstands with ⟨place, hstands⟩
      rcases Trial.exists_of_standsOut hstands with ⟨t, ht, hfits⟩
      rcases hstands.perm ht hfitting with ⟨place', ht', hstands'⟩
      rcases h.of_standsOut ht hstands with ⟨rfl, rfl⟩
      rcases h'.of_standsOut ht' hstands' with ⟨rfl, rfl⟩
      rw [Trial.answer_of_fits hfits]
      exact ⟨.chosen _, rfl⟩
    · have hnone : forall place,
          ¬ ctx.StandsOut ((trials'.filter Trial.fits).map Trial.type) place := by
        intro place hplace
        rcases Trial.exists_of_standsOut hplace with ⟨t, ht, _⟩
        rcases hplace.perm ht hfitting.symm with ⟨place', _, hplace'⟩
        exact hstands ⟨place', hplace'⟩
      have hsome' : trials'.filter Trial.fits ≠ [] :=
        fun hempty => hsome (List.perm_nil.mp (hempty ▸ hfitting))
      rcases h.of_not_standsOut hsome (not_exists.mp hstands) with ⟨rfl, rfl⟩
      rcases h'.of_not_standsOut hsome' hnone with ⟨rfl, rfl⟩
      exact ⟨.ambiguous (hfitting.map _) span, rfl⟩

end OverloadChoice

theorem Checker.exists_choice {c : Checker} {ctx : Context} {expected : Option Ty}
    {options : List CallOption} {span : Span} {i after : Inference}
    {result : Except ExprError Term}
    (h : (c.settleUndecided ctx expected options span).outcome i = some (result, after)) :
    exists trials : List Trial, trials.map Trial.option = options ∧
      (forall t, t ∈ trials -> t.Runs ctx c.depth expected i) ∧
      OverloadChoice ctx i span trials result after := by
  rcases outcome_of_bind h with ⟨s, hs⟩
  rcases runs_of_tried hs with ⟨trials, rfl, hruns⟩
  exact ⟨trials, rfl, hruns, settleUndecided_choice hruns h⟩

/-- An undecided call is decided by trying every option alone on a copy of the inference:
it is refused with all the reasons if none fits, and otherwise the option is taken whose own
result type is narrower than those of all others that fit, with the bindings of its trial,
or the call is ambiguous and leaves the inference as it was. No two options stand out. Where
the trials and the comparisons between the results answer, the call is decided in every
order of the options. Whenever it is decided, the order makes no difference. -/
theorem overload_choice_exact {ctx : Context} {expected : Option Ty} {options : List CallOption}
    {span : Span} {i : Inference} (c : Checker) :
    (forall result after,
      (c.settleUndecided ctx expected options span).outcome i = some (result, after) ->
      (exists trials : List Trial, trials.map Trial.option = options ∧
        (forall t, t ∈ trials -> t.Runs ctx c.depth expected i) ∧
        OverloadChoice ctx i span trials result after ∧
        forall term, result = .ok term ->
          exists t, t ∈ trials ∧ t.answer = .ok term ∧ after.slots = t.after.slots) ∧
      (forall e, result = .error e -> after = i)) ∧
    (forall trials : List Trial, trials.map Trial.option = options ->
      (forall t, t ∈ trials -> t.Runs ctx c.depth expected i) ->
      (forall a, a ∈ trials.filter Trial.fits -> forall b, b ∈ trials.filter Trial.fits ->
        exists v, ctx.fits c.depth a.type b.type = some v) ->
      forall (c' : Checker) options', options.Perm options' -> c.depth ≤ c'.depth ->
        exists result after,
          (c'.settleUndecided ctx expected options' span).outcome i = some (result, after)) ∧
    (forall types place place', ctx.StandsOut types place -> ctx.StandsOut types place' ->
      place = place') ∧
    (forall (c' : Checker) options' result after result' after', options.Perm options' ->
      (c.settleUndecided ctx expected options span).outcome i = some (result, after) ->
      (c'.settleUndecided ctx expected options' span).outcome i = some (result', after') ->
      SameUpToOrder result result' ∧ after = after') := by
  refine ⟨?_, ?_, fun _ _ _ => Context.StandsOut.unique, ?_⟩
  · intro result after h
    rcases Checker.exists_choice h with ⟨trials, hoptions, hruns, hdecided⟩
    exact ⟨⟨trials, hoptions, hruns, hdecided, fun term => hdecided.taken⟩,
      fun e => hdecided.undone⟩
  · rintro trials rfl hruns hcompared c' options' hperm hdepth
    rcases runs_of_perm hruns hperm with ⟨trials', rfl, hsame⟩
    apply Checker.settleUndecided_answers
    · intro t ht
      exact Context.fit_extends hdepth expected t.option.term i _ (hruns t (hsame.mem_iff.mpr ht))
    · intro a ha b hb
      have hfitting := hsame.filter Trial.fits
      rcases hcompared a (hfitting.mem_iff.mpr ha) b (hfitting.mem_iff.mpr hb) with ⟨v, hv⟩
      exact ⟨v, fits_extends hdepth hv⟩
  · intro c' options' result after result' after' hperm h h'
    rcases Checker.exists_choice h with ⟨trials, rfl, hruns, hdecided⟩
    rcases Checker.exists_choice h' with ⟨trials', rfl, hruns', hdecided'⟩
    exact hdecided.same_of_perm hdecided' (trials_perm hruns hruns' hperm)

def bareContext : Context where
  module := "Main"
  registry := []
  scope := { module := "Main" }

def optionOf (type : Ty) : CallOption where
  term := { type := type, node := .text "", span := {} }
  description := "f"

/-- Where a pair of `T` and a unit is expected and `T` is inferred, of options for two units,
for one and for no value and a unit the last is taken, and so it is in every other order. It
binds `T` to no value, and the trial that bound it to a unit leaves no trace. -/
theorem never_option_taken :
    let i := Inference.start [{ name := "T", variance := .invariant }] {}
    let expected := Ty.tuple [.param 0 true, .unit]
    let units := Ty.tuple [.unit, .unit]
    let nothing := Ty.tuple [.never, .unit]
    let options := [optionOf units, optionOf .unit, optionOf nothing]
    let after := { i with slots := [some { type := .never, leeway := .mayGrow }] }
    bareContext.StandsOut [units, nothing] 1 ∧
      ((checkerAt 5).settleUndecided bareContext (some expected) options {}).outcome i =
        some (.ok (optionOf nothing).term, after) ∧
      forall (c : Checker) others, options.Perm others -> 5 ≤ c.depth ->
        (c.settleUndecided bareContext (some expected) others {}).outcome i =
          some (.ok (optionOf nothing).term, after) := by
  intro i expected units nothing options after
  let left := { i with slots := [some { type := .unit, leeway := .mayGrow }] }
  let misfit : ExprError := { value := .notAssignable "()" "(T?, ())", span := {} }
  let first : Trial := ⟨optionOf units, .ok (optionOf units).term, left⟩
  let last : Trial := ⟨optionOf nothing, .ok (optionOf nothing).term, after⟩
  let trials : List Trial := [first, ⟨optionOf .unit, .error misfit, i⟩, last]
  have hruns : forall t, t ∈ trials -> t.Runs bareContext 5 (some expected) i := by
    simp only [trials, List.forall_mem_cons]
    exact ⟨rfl, rfl, rfl, List.forall_mem_nil _⟩
  have hfitting : trials.filter Trial.fits = [first, last] := rfl
  have hcompared : forall a, a ∈ trials.filter Trial.fits ->
      forall b, b ∈ trials.filter Trial.fits ->
        exists v, bareContext.fits 5 a.type b.type = some v := by
    simp only [hfitting, List.forall_mem_cons]
    exact ⟨⟨⟨_, rfl⟩, ⟨_, rfl⟩, List.forall_mem_nil _⟩, ⟨⟨_, rfl⟩, ⟨_, rfl⟩, List.forall_mem_nil _⟩,
      List.forall_mem_nil _⟩
  have hstands : bareContext.StandsOut [units, nothing] 1 := by
    refine ⟨nothing, rfl, ?_⟩
    intro other b hne hb
    rcases other with _ | _ | other
    · cases hb
      exact ⟨rfl, ⟨5, rfl⟩, 5, rfl⟩
    · exact absurd rfl hne
    · cases hb
  rcases @overload_choice_exact bareContext (some expected) options {} i (checkerAt 5) with
    ⟨hdecided, hanswers, _, hsame⟩
  rcases hanswers trials rfl hruns hcompared (checkerAt 5) options (.refl _) (Nat.le_refl _) with
    ⟨result, found, hrun⟩
  rcases (hdecided result found hrun).left with ⟨tried, hoptions, htried, hchoice, _⟩
  have heq : tried = trials := by
    rw [<- filterMap_trialOf htried, hoptions]
    exact filterMap_trialOf hruns
  rw [heq] at hchoice
  rcases hchoice.narrowest (Nat.le_refl 2) 1 _ rfl hstands with ⟨rfl, rfl⟩
  refine ⟨hstands, hrun, ?_⟩
  intro c others hperm hdepth
  rcases hanswers trials rfl hruns hcompared c others hperm hdepth with ⟨result, found, hother⟩
  rcases hsame c others _ _ result found hperm hrun hother with ⟨hresult, rfl⟩
  cases hresult
  exact hother

/-!
## Options that are compared in one order only
-/

def loopContext : Context where
  toTypeContext := taggedContext
  scope := { module := "Main" }

/-- Of options for no value, for a pair with a box that opens to itself and for a pair of
units, the first is narrower than the others, which are never compared if it is looked at
first. In another order they are, and that does not end. -/
theorem option_taken_in_one_order :
    let looping := Ty.tuple [Tagged.loop, .unit]
    let units := Ty.tuple [.unit, .unit]
    let options := [optionOf .never, optionOf looping, optionOf units]
    let others := [optionOf looping, optionOf units, optionOf .never]
    loopContext.registry.Declared ∧ options.Perm others ∧
      (forall option, option ∈ options -> option.term.type.isOver loopContext.registry = true) ∧
      ((checkerAt 8).settleUndecided loopContext none options {}).outcome .disabled =
        some (.ok (optionOf .never).term, .disabled) ∧
      forall c : Checker,
        (c.settleUndecided loopContext none others {}).outcome .disabled = none := by
  intro looping units options others
  have hperm : options.Perm others :=
    (List.Perm.swap _ _ _).trans ((List.Perm.swap _ _ _).cons _)
  refine ⟨Tagged.declared, hperm, by decide +kernel, rfl, ?_⟩
  intro c
  let trials : List Trial := others.map fun option => ⟨option, .ok option.term, .disabled⟩
  have hruns : forall t, t ∈ trials -> t.Runs loopContext c.depth none .disabled := by
    simp only [trials, others, List.map_cons, List.map_nil, List.forall_mem_cons]
    exact ⟨rfl, rfl, rfl, List.forall_mem_nil _⟩
  have hseveral : 2 ≤ (trials.filter Trial.fits).length := by decide
  have hnarrower : Candidate.narrower loopContext c.depth looping units = none := by
    rw [Candidate.narrower_eq, if_neg (by decide)]
    rw [show loopContext.fits c.depth units looping = none from Tagged.pair_undecided c.depth]
    rfl
  have hundecided : Candidate.narrowest? loopContext c.depth
      ((trials.filter Trial.fits).map Trial.candidate) = none :=
    Candidate.narrowest?_undecided hnarrower
  have hrun : (c.settleUndecided loopContext none (trials.map Trial.option) {}).outcome
      .disabled = _ := Checker.settleUndecided_several hruns hseveral
  rw [hundecided] at hrun
  exact hrun

end TypeChecker
