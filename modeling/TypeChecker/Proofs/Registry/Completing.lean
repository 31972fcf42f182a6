import TypeChecker.Proofs.Registry.Defaults
import TypeChecker.Proofs.Runs
import TypeChecker.Resolve.Written

/-!
# Filling in defaults

Completing a type fills in the defaults that its references draw, and each default is put
in terms of the arguments before it. The parameters of the default that come later stay
as they are. What the completed type is built with can therefore be told from the formers
of the type and those of the defaults it draws.
-/

namespace TypeChecker

namespace Former

variable {registry : Registry}

def completed (registry : Registry) : Former -> Former
  | .named name given =>
      match Table.get? registry name with
      | some d => .named name (max given d.arity)
      | none => .named name given
  | f => f

/-- The defaults filled in after the given arguments of a reference, each with the
position of its parameter. -/
def drawn (registry : Registry) : Former -> List (Nat × Ty)
  | .named name given =>
      match Table.get? registry name with
      | some d =>
          (List.range d.arity).filterMap fun index =>
            if given ≤ index then (Table.get? d.defaults index).map fun t => (index, t) else none
      | none => []
  | _ => []

theorem mem_drawn {f : Former} {index : Nat} {t : Ty} :
    (index, t) ∈ f.drawn registry ↔
      exists name given d, f = .named name given ∧ Table.get? registry name = some d ∧
        given ≤ index ∧ index < d.arity ∧ Table.get? d.defaults index = some t := by
  cases f with
  | named name given =>
      cases hd : Table.get? registry name with
      | none => simp [drawn, hd]
      | some d => simp [drawn, hd]; grind
  | _ => simp [drawn]

def beyond (n : Nat) (p : Former -> Bool) : Former -> Bool :=
  onParams (fun index inferring => decide (index < n) || p (.param index inferring)) p

end Former

namespace Ty

variable {registry : Registry} {p : Former -> Bool}

/-- The defaults that are filled in when a type is completed. -/
def drawn (registry : Registry) (t : Ty) : List (Nat × Ty) :=
  t.formers.flatMap (Former.drawn registry)

theorem mem_drawn {t : Ty} {item : Nat × Ty} :
    item ∈ t.drawn registry ↔
      item ∈ t.former.drawn registry ∨ exists s, s ∈ t.parts ∧ item ∈ s.drawn registry := by
  simp only [drawn, formers_eq t, List.flatMap_cons, List.mem_append, List.mem_flatMap]
  constructor
  · rintro (hhere | ⟨f, ⟨s, hs, hf⟩, hitem⟩)
    · exact Or.inl hhere
    · exact Or.inr ⟨s, hs, f, hf, hitem⟩
  · rintro (hhere | ⟨s, hs, f, hf, hitem⟩)
    · exact Or.inl hhere
    · exact Or.inr ⟨f, ⟨s, hs, hf⟩, hitem⟩

theorem default_of_drawn {t : Ty} {item : Nat × Ty} (h : item ∈ t.drawn registry) :
    exists name d, Table.get? registry name = some d ∧
      Table.get? d.defaults item.1 = some item.2 := by
  rcases List.mem_flatMap.mp h with ⟨f, _, hdrawn⟩
  rcases Former.mem_drawn.mp hdrawn with ⟨name, _, d, _, hd, _, _, hdefault⟩
  exact ⟨name, d, hd, hdefault⟩

/-- A default that is filled in brings in a parameter, since this is its own or comes
later. -/
def Leaks (registry : Registry) (t : Ty) (index : Nat) (inferring : Bool) : Prop :=
  exists item, item ∈ t.drawn registry ∧ item.1 ≤ index ∧
    Former.param index inferring ∈ item.2.formers

/-!
## Filled-in arguments
-/

theorem everywhere_instantiate_iff {t : Ty} {args : List Ty}
    (hargs : forall s, s ∈ args -> s.everywhere p = true) :
    (t.instantiate args).everywhere p = true ↔
      t.everywhere (Former.beyond args.length p) = true := by
  have hsame :
      (fun index inferring => ((args[index]?).getD (.param index inferring)).everywhere p) =
      fun index inferring => decide (index < args.length) || p (.param index inferring) := by
    funext index inferring
    by_cases hindex : index < args.length
    · simp [hindex, hargs]
    · simp [hindex, everywhere]
  rw [instantiate, everywhere_replace_iff, Former.beyond, hsame]

theorem everywhere_appendDefaults_iff (hany : p .any = true) {defaults : TypeMap} {missing : Nat}
    {args : List Ty} :
    (forall s, s ∈ appendDefaults defaults missing args -> s.everywhere p = true) ↔
      (forall s, s ∈ args -> s.everywhere p = true) ∧
        forall index t, args.length ≤ index -> index < args.length + missing ->
          Table.get? defaults index = some t ->
          t.everywhere (Former.beyond index p) = true := by
  induction missing generalizing args with
  | zero =>
      constructor
      · intro h
        exact ⟨h, fun index t hle hlt => absurd hlt (Nat.not_lt.mpr hle)⟩
      · rintro ⟨hargs, _⟩
        exact hargs
  | succ missing ih =>
      -- the arguments satisfy `p` on either side, so of the next default only the
      -- parameters that are not replaced by them matter
      rw [appendDefaults, ih, List.forall_mem_append, List.forall_mem_singleton,
        List.length_append, List.length_singleton]
      constructor
      · rintro ⟨⟨hargs, hnext⟩, hlater⟩
        refine ⟨hargs, ?_⟩
        intro index t hle hlt ht
        rcases Nat.eq_or_lt_of_le hle with rfl | hless
        · rw [ht] at hnext
          exact (everywhere_instantiate_iff hargs).mp hnext
        · exact hlater index t hless (by omega) ht
      · rintro ⟨hargs, hdefaults⟩
        refine ⟨⟨hargs, ?_⟩, ?_⟩
        · cases hdefault : Table.get? defaults args.length with
          | none => exact hany
          | some t =>
              exact (everywhere_instantiate_iff hargs).mpr
                (hdefaults args.length t (Nat.le_refl _) (by omega) hdefault)
        · intro index t hle hlt ht
          exact hdefaults index t (by omega) (by omega) ht

/-!
## Completed types
-/

theorem completeList_eq (registry : Registry) (ts : List Ty) :
    completeList registry ts = ts.map (complete registry) := by
  induction ts with
  | nil => rfl
  | cons t ts ih => rw [completeList, ih, List.map_cons]

theorem completeFields_eq (registry : Registry) (fields : List (String × Field Ty)) :
    completeFields registry fields =
      fields.map fun item => (item.1, ⟨item.2.slot, item.2.type.complete registry⟩) := by
  induction fields with
  | nil => rfl
  | cons item fields ih =>
      rcases item with ⟨name, ⟨slot, t⟩⟩
      rw [completeFields, ih, List.map_cons]

theorem complete_named (name : Symbol) (args : List Ty) :
    (Ty.named name args).complete registry =
      .named name (match Table.get? registry name with
        | some d =>
            if args.length < d.arity then
              completeArgs d.defaults d.arity (args.map (complete registry))
            else args.map (complete registry)
        | none => args.map (complete registry)) := by
  rw [complete, completeList_eq]
  cases Table.get? registry name with
  | none => rfl
  | some d =>
      dsimp only
      by_cases hless : args.length < d.arity
      · simp [hless]
      · simp [hless]

theorem former_complete (t : Ty) :
    (t.complete registry).former = t.former.completed registry := by
  cases t with
  | named name args =>
      rw [complete_named, former, former, Former.completed]
      cases Table.get? registry name with
      | none => simp
      | some d =>
          dsimp only
          split
          · rename_i hless
            rw [length_completeArgs (by simpa using Nat.le_of_lt hless),
              Nat.max_eq_right (Nat.le_of_lt hless)]
          · rename_i hless
            rw [List.length_map, Nat.max_eq_left (Nat.not_lt.mp hless)]
  | tuple items => simp [complete, completeList_eq, former, Former.completed]
  | bundle fields =>
      simp [complete, completeFields_eq, former, Former.completed, Function.comp_def]
  | _ => rfl

theorem everywhere_parts_complete (hany : p .any = true) (t : Ty) :
    (forall s, s ∈ (t.complete registry).parts -> s.everywhere p = true) ↔
      (forall s, s ∈ t.parts -> (s.complete registry).everywhere p = true) ∧
        forall item, item ∈ t.former.drawn registry ->
          item.2.everywhere (Former.beyond item.1 p) = true := by
  cases t with
  | named name args =>
      have hmap : (forall s, s ∈ args.map (complete registry) -> s.everywhere p = true) ↔
          forall s, s ∈ args -> (s.complete registry).everywhere p = true := List.forall_mem_map
      have hdrawn : (forall item, item ∈ (Former.named name args.length).drawn registry ->
            item.2.everywhere (Former.beyond item.1 p) = true) ↔
          forall d, Table.get? registry name = some d -> forall index t,
            args.length ≤ index -> index < d.arity -> Table.get? d.defaults index = some t ->
              t.everywhere (Former.beyond index p) = true := by
        constructor
        · intro h d hd index t hle hlt ht
          exact h (index, t) (Former.mem_drawn.mpr ⟨name, _, d, rfl, hd, hle, hlt, ht⟩)
        · rintro h ⟨index, t⟩ hitem
          rcases Former.mem_drawn.mp hitem with ⟨_, _, d, heq, hd, hle, hlt, ht⟩
          cases heq
          exact h d hd index t hle hlt ht
      rw [complete_named, former, hdrawn, parts, parts, <- hmap]
      cases Table.get? registry name with
      | none => simp
      | some d =>
          dsimp only
          split
          · rename_i hless
            rw [completeArgs, everywhere_appendDefaults_iff hany,
              List.take_of_length_le (by simpa using Nat.le_of_lt hless), List.length_map,
              Nat.add_sub_cancel' (Nat.le_of_lt hless)]
            simp
          · rename_i hless
            constructor
            · intro h
              refine ⟨h, ?_⟩
              rintro _ ⟨⟩ index t hle hlt
              exact absurd (Nat.lt_of_le_of_lt hle hlt) hless
            · exact And.left
  | tuple items => simp [complete, completeList_eq, parts, former, Former.drawn]
  | bundle fields =>
      simp only [complete, completeFields_eq, parts, former, Former.drawn, List.map_map,
        Function.comp_def, List.forall_mem_map]
      simp
  | func input output => simp [complete, parts, former, Former.drawn]
  | _ => simp [complete, parts, former, Former.drawn]

/-- What a completed type is built with: its own formers, with filled up references, and
those of the defaults that are filled in, apart from the parameters that are replaced. -/
theorem everywhere_complete_iff (hany : p .any = true) {t : Ty} :
    (t.complete registry).everywhere p = true ↔
      (forall f, f ∈ t.formers -> p (f.completed registry) = true) ∧
        forall item, item ∈ t.drawn registry ->
          item.2.everywhere (Former.beyond item.1 p) = true := by
  induction t using induction_parts with
  | step t ih =>
      rw [everywhere_iff, former_complete, everywhere_parts_complete hany]
      constructor
      · rintro ⟨hhere, hparts, hdrawn⟩
        constructor
        · rw [formers_eq, List.forall_mem_cons]
          refine ⟨hhere, ?_⟩
          intro f hf
          rcases List.mem_flatMap.mp hf with ⟨s, hs, hf⟩
          exact ((ih s hs).mp (hparts s hs)).left f hf
        · intro item hitem
          rcases mem_drawn.mp hitem with hitem | ⟨s, hs, hitem⟩
          · exact hdrawn item hitem
          · exact ((ih s hs).mp (hparts s hs)).right item hitem
      · rintro ⟨hformers, hdrawn⟩
        rw [formers_eq, List.forall_mem_cons] at hformers
        refine ⟨hformers.left, ?_, ?_⟩
        · intro s hs
          refine (ih s hs).mpr ⟨?_, ?_⟩
          · exact fun f hf => hformers.right f (List.mem_flatMap.mpr ⟨s, hs, hf⟩)
          · exact fun item hitem => hdrawn item (mem_drawn.mpr (Or.inr ⟨s, hs, hitem⟩))
        · exact fun item hitem => hdrawn item (mem_drawn.mpr (Or.inl hitem))

theorem everywhere_complete (hany : p .any = true)
    (harity : forall name m n, p (.named name m) = p (.named name n))
    (hdefaults : forall name d, Table.get? registry name = some d -> forall index s,
      Table.get? d.defaults index = some s -> s.everywhere p = true)
    {t : Ty} (ht : t.everywhere p = true) : (t.complete registry).everywhere p = true := by
  refine (everywhere_complete_iff hany).mpr ⟨?_, ?_⟩
  · intro f hf
    have hp := everywhere_iff_formers.mp ht f hf
    cases f with
    | named name given =>
        rw [Former.completed]
        split
        · exact (harity name _ _).trans hp
        · exact hp
    | _ => exact hp
  · intro item hitem
    rcases default_of_drawn hitem with ⟨name, d, hd, hdefault⟩
    refine everywhere_mono ?_ (hdefaults name d hd item.1 item.2 hdefault)
    intro g hg
    cases g with
    | param k inferring => exact Bool.or_eq_true_iff.mpr (Or.inr hg)
    | _ => exact hg

/-- The parameters of a completed type are those of the type and those brought in. -/
theorem param_mem_formers_complete {t : Ty} {index : Nat} {inferring : Bool} :
    Former.param index inferring ∈ (t.complete registry).formers ↔
      Former.param index inferring ∈ t.formers ∨ t.Leaks registry index inferring := by
  have hnone : forall s : Ty,
      s.everywhere (fun f => decide (f ≠ .param index inferring)) = true ↔
        Former.param index inferring ∉ s.formers := by
    intro s
    rw [everywhere_iff_formers]
    constructor
    · intro h hmem
      exact of_decide_eq_true (h _ hmem) rfl
    · intro h f hf
      refine decide_eq_true ?_
      rintro rfl
      exact h hf
  -- both sides are negated, since the lemma above is about all formers of a type
  rw [<- not_iff_not, <- hnone, everywhere_complete_iff (by simp), not_or]
  constructor
  · rintro ⟨hformers, hdrawn⟩
    constructor
    · intro hmem
      exact of_decide_eq_true (hformers _ hmem) rfl
    · rintro ⟨item, hitem, hle, hmem⟩
      have hless := everywhere_iff_formers.mp (hdrawn item hitem) _ hmem
      have hless : index < item.1 := by simpa [Former.beyond, Former.onParams] using hless
      exact Nat.not_lt.mpr hle hless
  · rintro ⟨hhere, hdrawn⟩
    constructor
    · intro f hf
      refine decide_eq_true ?_
      cases f with
      | param k b =>
          rintro heq
          exact hhere (heq ▸ hf)
      | named name given =>
          rw [Former.completed]
          split <;> simp
      | _ => simp [Former.completed]
    · intro item hitem
      refine everywhere_iff_formers.mpr ?_
      intro f hf
      cases f with
      | param k b =>
          simp only [Former.beyond, Former.onParams, Bool.or_eq_true, decide_eq_true_eq]
          by_cases hless : k < item.1
          · exact Or.inl hless
          · refine Or.inr ?_
            intro heq
            cases heq
            exact hdrawn ⟨item, hitem, Nat.not_lt.mp hless, hf⟩
      | _ => simp [Former.beyond, Former.onParams]

end Ty

theorem TypeContext.resolve_ok {ctx : TypeContext} {limits : Limits} {depth : Nat}
    {expr : Source.TypeExpr} {t : Ty}
    (h : (ctx.resolve limits depth expr).outcome = some (.ok t)) :
    exists s, (ctx.scope limits).read expr = .ok s ∧ t = s.complete ctx.registry := by
  rcases judge_bind_ok.mp h with ⟨s, hs, h⟩
  rcases judge_bind_ok.mp h with ⟨_, _, h⟩
  cases h
  exact ⟨s, Option.some.inj hs, rfl⟩

def TypeContext.resolved? (ctx : TypeContext) (limits : Limits) (depth : Nat)
    (expr : Source.TypeExpr) : Option Ty :=
  (ctx.resolve limits depth expr).outcome.bind Except.toOption

theorem TypeContext.resolved?_eq_some {ctx : TypeContext} {limits : Limits} {depth : Nat}
    {expr : Source.TypeExpr} {t : Ty} :
    ctx.resolved? limits depth expr = some t ↔
      (ctx.resolve limits depth expr).outcome = some (.ok t) := by
  rw [resolved?, Option.bind_eq_some_iff]
  constructor
  · rintro ⟨outcome, houtcome, ht⟩
    cases outcome with
    | error e => cases ht
    | ok s =>
        cases ht
        exact houtcome
  · intro h
    exact ⟨.ok t, h, rfl⟩

end TypeChecker
