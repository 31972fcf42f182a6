import TypeChecker.Ty.Subst

/-!
# Types as formers with parts

A type is a former (its name, or its kind of structure) applied to parts. Seen
this way the eight kinds of types are one: what holds of a type follows from its
former and from what holds of its parts.
-/

namespace TypeChecker

/-- What a type is, apart from the types inside it. -/
inductive Former where
  | never
  | any
  | param (index : Nat) (inferring : Bool)
  | named (name : Symbol) (arity : Nat)
  | unit
  | tuple (size : Nat)
  | bundle (fields : List (String × Nat))
  | func
  deriving DecidableEq

namespace Former

def isParam : Former -> Bool
  | .param _ _ => true
  | _ => false

end Former

namespace Ty

def former : Ty -> Former
  | .never => .never
  | .any => .any
  | .param index inferring => .param index inferring
  | .named name args => .named name args.length
  | .unit => .unit
  | .tuple items => .tuple items.length
  | .bundle fields => .bundle (fields.map fun item => (item.1, item.2.slot))
  | .func _ _ => .func

def parts : Ty -> List Ty
  | .named _ args => args
  | .tuple items => items
  | .bundle fields => fields.map fun item => item.2.type
  | .func input output => [input, output]
  | _ => []

theorem parts_length_eq {a b : Ty} (h : a.former = b.former) :
    a.parts.length = b.parts.length := by
  cases a <;> cases b <;> simp_all [former, parts]
  have hlen := congrArg List.length h
  simpa using hlen

theorem fields_eq {as bs : List (String × Field Ty)}
    (hheads : as.map (fun item => (item.1, item.2.slot)) =
      bs.map (fun item => (item.1, item.2.slot)))
    (htypes : as.map (fun item => item.2.type) = bs.map (fun item => item.2.type)) :
    as = bs := by
  induction as generalizing bs with
  | nil =>
      cases bs with
      | nil => rfl
      | cons b bs => simp at hheads
  | cons a as ih =>
      cases bs with
      | nil => simp at hheads
      | cons b bs =>
          rcases a with ⟨n, ⟨i, s⟩⟩
          rcases b with ⟨m, ⟨j, t⟩⟩
          simp only [List.map_cons, List.cons.injEq, Prod.mk.injEq] at hheads htypes
          rcases hheads with ⟨⟨hname, hslot⟩, hrest⟩
          rcases htypes with ⟨htype, htypes⟩
          rw [hname, hslot, htype, ih hrest htypes]

theorem eq_of_former_eq {a b : Ty} (hformer : a.former = b.former) (hparts : a.parts = b.parts) :
    a = b := by
  cases a <;> cases b <;> simp_all [former, parts]
  exact fields_eq hformer hparts

theorem eq_of_parts_nil {a b : Ty} (hformer : a.former = b.former) (hb : b.parts = []) :
    a = b := by
  have hlen := parts_length_eq hformer
  rw [hb, List.length_nil, List.length_eq_zero_iff] at hlen
  exact eq_of_former_eq hformer (hlen.trans hb.symm)

theorem sizeOf_type_lt {fields : List (String × Field Ty)} {item : String × Field Ty}
    (h : item ∈ fields) : sizeOf item.2.type < sizeOf fields := by
  have hitem := List.sizeOf_lt_of_mem h
  rcases item with ⟨name, ⟨slot, t⟩⟩
  simp at hitem ⊢
  omega

theorem sizeOf_part_lt {t s : Ty} (h : s ∈ t.parts) : sizeOf s < sizeOf t := by
  cases t with
  | named name args =>
      have := List.sizeOf_lt_of_mem (show s ∈ args from h)
      simp
      omega
  | tuple items =>
      have := List.sizeOf_lt_of_mem (show s ∈ items from h)
      simp
      omega
  | bundle fields =>
      rcases List.mem_map.mp h with ⟨item, hitem, rfl⟩
      have := sizeOf_type_lt hitem
      simp
      omega
  | func input output =>
      simp only [parts, List.mem_cons, List.not_mem_nil, or_false] at h
      rw [func.sizeOf_spec]
      rcases h with rfl | rfl
      · omega
      · omega
  | _ => simp [parts] at h

/-- What holds of a type once it holds of its parts holds of every type. -/
@[elab_as_elim]
theorem induction_parts {motive : Ty -> Prop}
    (step : forall t, (forall s, s ∈ t.parts -> motive s) -> motive t) (t : Ty) : motive t :=
  step t fun s _ => induction_parts step s
termination_by sizeOf t
decreasing_by exact sizeOf_part_lt (by assumption)

/-!
## What holds of every former in a type
-/

mutual

/-- Whether all formers a type is built with satisfy `p`. -/
def everywhere (p : Former -> Bool) : Ty -> Bool
  | .never => p .never
  | .any => p .any
  | .param index inferring => p (.param index inferring)
  | .named name args => p (.named name args.length) && everywhereList p args
  | .unit => p .unit
  | .tuple items => p (.tuple items.length) && everywhereList p items
  | .bundle fields =>
      p (.bundle (fields.map fun item => (item.1, item.2.slot))) && everywhereFields p fields
  | .func input output => p .func && (everywhere p input && everywhere p output)

def everywhereList (p : Former -> Bool) : List Ty -> Bool
  | [] => true
  | t :: rest => everywhere p t && everywhereList p rest

def everywhereFields (p : Former -> Bool) : List (String × Field Ty) -> Bool
  | [] => true
  | (_, ⟨_, t⟩) :: rest => everywhere p t && everywhereFields p rest

end

theorem everywhereList_eq (p : Former -> Bool) (ts : List Ty) :
    everywhereList p ts = ts.all (everywhere p) := by
  induction ts with
  | nil => rfl
  | cons t ts ih => rw [everywhereList, ih, List.all_cons]

theorem everywhereFields_eq (p : Former -> Bool) (fields : List (String × Field Ty)) :
    everywhereFields p fields = (fields.map fun item => item.2.type).all (everywhere p) := by
  induction fields with
  | nil => rfl
  | cons item fields ih =>
      rcases item with ⟨name, ⟨slot, t⟩⟩
      rw [everywhereFields, ih, List.map_cons, List.all_cons]

theorem everywhere_eq (p : Former -> Bool) (t : Ty) :
    t.everywhere p = (p t.former && t.parts.all (everywhere p)) := by
  cases t <;>
    simp [everywhere, former, parts, everywhereList_eq, everywhereFields_eq, List.all_map]

theorem everywhere_iff {p : Former -> Bool} {t : Ty} :
    t.everywhere p = true ↔
      p t.former = true ∧ forall s, s ∈ t.parts -> s.everywhere p = true := by
  rw [everywhere_eq, Bool.and_eq_true, List.all_eq_true]

theorem everywhere_and {p q : Former -> Bool} {t : Ty} :
    t.everywhere (fun f => p f && q f) = true ↔
      t.everywhere p = true ∧ t.everywhere q = true := by
  induction t using induction_parts with
  | step t ih =>
      rw [everywhere_iff, everywhere_iff, everywhere_iff, Bool.and_eq_true]
      constructor
      · rintro ⟨⟨hp, hq⟩, hparts⟩
        exact ⟨⟨hp, fun s hs => ((ih s hs).mp (hparts s hs)).left⟩,
          ⟨hq, fun s hs => ((ih s hs).mp (hparts s hs)).right⟩⟩
      · rintro ⟨⟨hp, hps⟩, ⟨hq, hqs⟩⟩
        exact ⟨⟨hp, hq⟩, fun s hs => (ih s hs).mpr ⟨hps s hs, hqs s hs⟩⟩

/-!
## The formers of a type
-/

mutual

def formers : Ty -> List Former
  | .never => [.never]
  | .any => [.any]
  | .param index inferring => [.param index inferring]
  | .named name args => .named name args.length :: formersList args
  | .unit => [.unit]
  | .tuple items => .tuple items.length :: formersList items
  | .bundle fields =>
      .bundle (fields.map fun item => (item.1, item.2.slot)) :: formersFields fields
  | .func input output => .func :: (formers input ++ formers output)

def formersList : List Ty -> List Former
  | [] => []
  | t :: rest => formers t ++ formersList rest

def formersFields : List (String × Field Ty) -> List Former
  | [] => []
  | (_, ⟨_, t⟩) :: rest => formers t ++ formersFields rest

end

theorem formersList_eq (ts : List Ty) : formersList ts = ts.flatMap formers := by
  induction ts with
  | nil => rfl
  | cons t ts ih => rw [formersList, ih, List.flatMap_cons]

theorem formersFields_eq (fields : List (String × Field Ty)) :
    formersFields fields = (fields.map fun item => item.2.type).flatMap formers := by
  induction fields with
  | nil => rfl
  | cons item fields ih =>
      rcases item with ⟨name, ⟨slot, t⟩⟩
      rw [formersFields, ih, List.map_cons, List.flatMap_cons]

theorem formers_eq (t : Ty) : t.formers = t.former :: t.parts.flatMap formers := by
  cases t <;> simp [formers, former, parts, formersList_eq, formersFields_eq]

theorem everywhere_iff_formers {p : Former -> Bool} {t : Ty} :
    t.everywhere p = true ↔ forall f, f ∈ t.formers -> p f = true := by
  induction t using induction_parts with
  | step t ih =>
      rw [everywhere_iff, formers_eq, List.forall_mem_cons]
      constructor
      · rintro ⟨hhere, hparts⟩
        refine ⟨hhere, ?_⟩
        intro f hf
        rcases List.mem_flatMap.mp hf with ⟨s, hs, hf⟩
        exact (ih s hs).mp (hparts s hs) f hf
      · rintro ⟨hhere, hparts⟩
        refine ⟨hhere, ?_⟩
        intro s hs
        exact (ih s hs).mpr fun f hf => hparts f (List.mem_flatMap.mpr ⟨s, hs, hf⟩)

end Ty
end TypeChecker
