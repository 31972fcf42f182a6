import TypeChecker.Checking.Destructure
import TypeChecker.Proofs.Runs
import TypeChecker.Proofs.Unboxing.Chains
import TypeChecker.Proofs.Unboxing.Hidden

/-!
# Patterns and hidden boxes

A tuple or bundle pattern opens boxes as the current module may, so it cannot tell what
another module hides. A name for the whole value is bound without the weak layers of its
type, and these are stripped without asking who may see through them: a box that is both
weak and hidden shows its inner type to every module.
-/

namespace TypeChecker

def Source.PatternNode.wholeName? : Source.PatternNode -> Option Source.Ident
  | .name whole => some whole
  | .tuple [whole] => some whole
  | _ => none

def Registry.Hides (registry : Registry) (module : String) (name : Symbol) : Prop :=
  exists d boxed, Table.get? registry name = some d ∧ d.boxed? = some boxed ∧
    boxed.hidden = true ∧ name.module ≠ module

namespace Ty

variable {module : String} {registry : Registry}

theorem unbox_hidden {t : Ty} :
    t.unbox module registry = .hidden ↔
      exists name args, t = .named name args ∧ registry.Hides module name := by
  constructor
  · intro h
    cases t with
    | named name args =>
        rw [unbox] at h
        split at h
        · cases h
        · rename_i d hd
          split at h
          · cases h
          · rename_i boxed hboxed
            split at h
            · rename_i hhidden
              simp only [Bool.and_eq_true, bne_iff_ne] at hhidden
              exact ⟨name, args, rfl, d, boxed, hd, hboxed, hhidden.left, hhidden.right⟩
            · cases h
    | _ => cases h
  · rintro ⟨name, args, rfl, d, boxed, hd, hboxed, hhidden, hforeign⟩
    simp [unbox, hd, hboxed, hhidden, hforeign]

/-- Stripping the weak layers of a type goes through a box that is hidden from `module`. -/
inductive Reveals (module : String) (registry : Registry) : Ty -> Prop where
  | here {t inner : Ty} (weak : t.weakInner? registry = some inner)
      (hidden : t.unbox module registry = .hidden) : Reveals module registry t
  | inside {t inner : Ty} (weak : t.weakInner? registry = some inner)
      (rest : Reveals module registry inner) : Reveals module registry t

end Ty

/-!
## Registries that are told apart
-/

def Declaration.withInner (inner : Ty) (d : Declaration) : Declaration :=
  match d.definition with
  | .boxed boxed => { d with definition := .boxed { boxed with inner := inner } }
  | _ => d

def Registry.withInner (name : Symbol) (inner : Ty) (registry : Registry) : Registry :=
  registry.map fun item => (item.1, if item.1 = name then item.2.withInner inner else item.2)

namespace Registry

variable {module : String} {registry : Registry} {name : Symbol} {inner : Ty}

theorem get?_withInner (key : Symbol) :
    Table.get? (registry.withInner name inner) key =
      (Table.get? registry key).map fun d => if key = name then d.withInner inner else d := by
  induction registry with
  | nil => rfl
  | cons item rest ih =>
      rcases item with ⟨k, d⟩
      simp only [withInner, List.map_cons, Table.get?]
      by_cases hk : k = key
      · subst hk
        simp
      · rw [if_neg hk, if_neg hk]
        exact ih

theorem Hides.sameFrom (h : registry.Hides module name) (inner : Ty) :
    SameFrom module registry (registry.withInner name inner) := by
  rcases h with ⟨d, boxed, hd, hboxed, hhidden, hforeign⟩
  intro key
  rw [get?_withInner]
  cases hkey : Table.get? registry key with
  | none => exact .none
  | some found =>
      refine .some ?_
      by_cases hname : key = name
      · subst hname
        cases hd.symm.trans hkey
        have hdefinition := Declaration.boxed?_eq_some.mp hboxed
        refine Or.inr ⟨boxed, inner, hdefinition, hhidden, hforeign, ?_⟩
        simp [Declaration.withInner, hdefinition]
      · exact Or.inl (if_neg hname)

theorem weakInner?_withInner_of_ne {t : Ty}
    (h : forall args, t ≠ .named name args) :
    t.weakInner? (registry.withInner name inner) = t.weakInner? registry := by
  cases t with
  | named other args =>
      have hother : other ≠ name := by
        rintro rfl
        exact h args rfl
      rw [Ty.weakInner?, Ty.weakInner?, get?_withInner]
      simp only [if_neg hother, Option.map_id']
  | _ => rfl

end Registry

/-!
## Names for the whole value
-/

namespace Ty

variable {module : String} {r r' : Registry}

theorem weakInner?_eq (h : Registry.SameFrom module r r') {t : Ty}
    (hseen : t.weakInner? r = none ∨ t.unbox module r ≠ .hidden) :
    t.weakInner? r = t.weakInner? r' := by
  cases t with
  | named name args =>
      have hname := h name
      rw [weakInner?] at hseen
      rw [unbox] at hseen
      rw [weakInner?, weakInner?]
      generalize Table.get? r name = found, Table.get? r' name = found' at hname hseen ⊢
      cases hname with
      | none => rfl
      | some hsame =>
          rcases hsame with rfl | ⟨boxed, inner, hboxed, hhidden, hforeign, rfl⟩
          · rfl
          · simp only [Declaration.boxed?, hboxed] at hseen ⊢
            rcases hseen with hstrong | hvisible
            · have hweak : boxed.weak = false := by
                cases hw : boxed.weak with
                | false => rfl
                | true => simp [Option.filter, hw] at hstrong
              simp [Option.filter, hweak]
            · simp [hhidden, hforeign] at hvisible
  | _ => rfl

theorem stripWeak_eq (h : Registry.SameFrom module r r') (depth : Nat) {t : Ty}
    (ht : ¬ t.Reveals module r) : t.stripWeak r depth = t.stripWeak r' depth := by
  induction depth generalizing t with
  | zero => rfl
  | succ depth ih =>
      have hseen : t.weakInner? r = none ∨ t.unbox module r ≠ .hidden := by
        cases hinner : t.weakInner? r with
        | none => exact Or.inl rfl
        | some inner => exact Or.inr fun hhidden => ht (.here hinner hhidden)
      rw [stripWeak, stripWeak, <- weakInner?_eq h hseen]
      split
      · rename_i inner hinner
        exact ih fun hreveals => ht (.inside hinner hreveals)
      · rfl

theorem weakInner?_stripped {depth : Nat} {t shown : Ty}
    (h : t.stripWeak r depth = some shown) : shown.weakInner? r = none := by
  induction depth generalizing t with
  | zero => cases h
  | succ depth ih =>
      rw [stripWeak] at h
      split at h
      · exact ih h
      · rename_i hbare
        cases h
        exact hbare

theorem stripWeak_withInner {name : Symbol} {args : List Ty} {held inner shown : Ty}
    (hheld : held = .unit ∨ held = .any)
    (hweak : (Ty.named name args).weakInner? r = some inner) {depth : Nat}
    (hshown : (Ty.named name args).stripWeak r depth = some shown) :
    (Ty.named name args).stripWeak (r.withInner name held) depth = some held := by
  rcases inside?_eq_some.mp ((inside?_weak _).trans hweak) with
    ⟨_, _, d, boxed, heq, hd, hboxed, hstrips, _⟩
  cases heq
  have hinner : (Ty.named name args).weakInner? (r.withInner name held) = some held := by
    have hafter : Table.get? (r.withInner name held) name = some (d.withInner held) := by
      rw [Registry.get?_withInner, hd, Option.map_some, if_pos rfl]
    rw [<- inside?_weak, inside?_eq_some]
    refine ⟨name, args, _, { boxed with inner := held }, rfl, hafter, ?_, hstrips, ?_⟩
    · simp [Declaration.withInner, Declaration.boxed?, Declaration.boxed?_eq_some.mp hboxed]
    · rcases hheld with rfl | rfl <;> rfl
  -- The depth is two at least: one for the box, one for what it holds.
  cases depth with
  | zero => cases hshown
  | succ depth =>
      cases depth with
      | zero =>
          rw [stripWeak, hweak] at hshown
          cases hshown
      | succ depth =>
          rw [stripWeak, hinner]
          rcases hheld with rfl | rfl <;> rfl

theorem Reveals.exists_box {t : Ty} (ht : t.Reveals module r) :
    exists name, r.Hides module name ∧
      forall (held shown : Ty) (depth : Nat), held = .unit ∨ held = .any ->
        t.stripWeak r depth = some shown ->
        t.stripWeak (r.withInner name held) depth = some held := by
  induction ht with
  | @here t inner hweak hhidden =>
      rcases unbox_hidden.mp hhidden with ⟨name, args, rfl, hhides⟩
      exact ⟨name, hhides, fun held shown depth hheld hshown =>
        stripWeak_withInner hheld hweak hshown⟩
  | @inside t inner hweak _ ih =>
      rcases ih with ⟨name, hhides, hinner⟩
      refine ⟨name, hhides, ?_⟩
      intro held shown depth hheld hshown
      by_cases hbox : exists args, t = .named name args
      · -- The box comes back inside itself; its outermost layer is stripped first.
        rcases hbox with ⟨args, rfl⟩
        exact stripWeak_withInner hheld hweak hshown
      · cases depth with
        | zero => cases hshown
        | succ depth =>
            rw [stripWeak, hweak] at hshown
            rw [stripWeak, Registry.weakInner?_withInner_of_ne (not_exists.mp hbox), hweak]
            exact hinner held shown depth hheld hshown

/-- A type that reveals a hidden box is shown otherwise under some registry that looks
the same from `module`. -/
theorem Reveals.exists_other {t shown : Ty} (ht : t.Reveals module r) {depth : Nat}
    (hshown : t.stripWeak r depth = some shown) :
    exists r' other, Registry.SameFrom module r r' ∧ t.stripWeak r' depth = some other ∧
      other ≠ shown := by
  rcases ht.exists_box with ⟨name, hhides, hheld⟩
  by_cases hunit : shown = .unit
  · refine ⟨_, .any, hhides.sameFrom .any, hheld .any shown depth (Or.inr rfl) hshown, ?_⟩
    rw [hunit]
    intro h
    cases h
  · exact ⟨_, .unit, hhides.sameFrom .unit, hheld .unit shown depth (Or.inl rfl) hshown,
      fun h => hunit h.symm⟩

end Ty

/-!
## Patterns
-/

namespace Context

theorem destructure_whole {pattern : Source.Pattern} {name : Source.Ident}
    (hname : pattern.value.wholeName? = some name) (ctx : Context) (depth : Nat) (input : Ty) :
    (ctx.destructure depth pattern input).outcome =
      (input.stripWeak ctx.registry depth).map fun shown =>
        .ok { value := .whole name.name shown, span := pattern.span } := by
  have hwhole : ctx.destructure depth pattern input =
      (do return { value := ← ctx.bindWhole depth name input, span := pattern.span }) := by
    rcases pattern with ⟨node, span⟩
    rcases node with whole | names | fields
    · cases hname
      rfl
    · rcases names with _ | ⟨first, _ | ⟨second, rest⟩⟩ <;> cases hname
      rfl
    · cases hname
  rw [hwhole, bindWhole]
  cases input.stripWeak ctx.registry depth <;> rfl

theorem destructure_parts {pattern : Source.Pattern} (hname : pattern.value.wholeName? = none) :
    (exists names, forall (ctx : Context) depth input, ctx.destructure depth pattern input =
      (do return { value := ← ctx.bindTuple depth names input pattern.span
                   span := pattern.span })) ∨
    (exists fields, forall (ctx : Context) depth input, ctx.destructure depth pattern input =
      (do return { value := ← ctx.bindBundle depth fields input pattern.span
                   span := pattern.span })) := by
  rcases pattern with ⟨node, span⟩
  rcases node with whole | names | fields
  · cases hname
  · refine Or.inl ⟨names, ?_⟩
    intro ctx depth input
    rcases names with _ | ⟨first, _ | ⟨second, rest⟩⟩
    · rfl
    · cases hname
    · rfl
  · exact Or.inr ⟨fields, fun _ _ _ => rfl⟩

variable {ctx : Context} {r' : Registry}

variable (r') in
theorem fields_eq (input : Ty) (declared : Table String (Field Ty)) (bound : List String)
    (names : List (Source.Ident × Source.Ident)) :
    Destructure.fields ctx input declared bound names =
      Destructure.fields { ctx with registry := r' } input declared bound names := by
  induction names generalizing bound with
  | nil => rfl
  | cons item rest ih =>
      rcases item with ⟨field, name⟩
      simp only [Destructure.fields, ih]
      rfl

theorem destructure_parts_eq (h : Registry.SameFrom ctx.module ctx.registry r')
    {pattern : Source.Pattern} (hname : pattern.value.wholeName? = none) (depth : Nat)
    (input : Ty) :
    ctx.destructure depth pattern input =
      { ctx with registry := r' }.destructure depth pattern input := by
  rcases destructure_parts hname with ⟨names, htuple⟩ | ⟨fields, hbundle⟩
  · rw [htuple, htuple]
    unfold bindTuple tupleBehind
    simp only [h.find_eq]
    rfl
  · rw [hbundle, hbundle]
    unfold bindBundle bundleBehind
    simp only [h.find_eq, fields_eq r']

theorem destructure_hidden {pattern : Source.Pattern} {input : Ty}
    (h : input.unbox ctx.module ctx.registry = .hidden)
    (hname : pattern.value.wholeName? = none) (depth : Nat) :
    exists e, (ctx.destructure (depth + 1) pattern input).outcome = some (.error e) ∧
      (e.value = .matchHiddenTuple ∨ e.value = .matchHiddenBundle) := by
  have hfind : forall {α : Type} (pick : Ty -> Option α),
      Shape.find pick ctx.module ctx.registry (depth + 1) false input = some .hidden := by
    intro α pick
    rcases Ty.unbox_hidden.mp h with ⟨name, args, rfl, _⟩
    simp only [Shape.find, h]
    rfl
  rcases destructure_parts hname with ⟨names, htuple⟩ | ⟨fields, hbundle⟩
  · refine ⟨{ value := .matchHiddenTuple, span := pattern.span }, ?_, Or.inl rfl⟩
    rw [htuple, bindTuple, tupleBehind, hfind]
    rfl
  · refine ⟨{ value := .matchHiddenBundle, span := pattern.span }, ?_, Or.inr rfl⟩
    rw [hbundle, bindBundle, bundleBehind, hfind]
    rfl

end Context

/-- What another module hides comes to light by binding a name to the whole value of a
type whose weak layers include a hidden box, and in no other way. Any other pattern, over
any type, gives the same result under registries that differ only in hidden inner types.
In particular a value of a hidden type is not taken apart, and the name for the whole
value has that type itself, unless the box is weak. -/
theorem patterns_hide_unless_weak (ctx : Context) (depth : Nat) (pattern : Source.Pattern)
    (input : Ty) :
    (pattern.value.wholeName? = none ∨ ¬ input.Reveals ctx.module ctx.registry ->
      forall r', Registry.SameFrom ctx.module ctx.registry r' ->
        (ctx.destructure depth pattern input).outcome =
          ({ ctx with registry := r' }.destructure depth pattern input).outcome) ∧
    (pattern.value.wholeName? ≠ none -> input.Reveals ctx.module ctx.registry ->
      (ctx.destructure depth pattern input).outcome ≠ none ->
      exists r', Registry.SameFrom ctx.module ctx.registry r' ∧
        (ctx.destructure depth pattern input).outcome ≠
          ({ ctx with registry := r' }.destructure depth pattern input).outcome) ∧
    (input.unbox ctx.module ctx.registry = .hidden ->
      (pattern.value.wholeName? = none ->
        exists e, (ctx.destructure (depth + 1) pattern input).outcome = some (.error e) ∧
          (e.value = .matchHiddenTuple ∨ e.value = .matchHiddenBundle)) ∧
      (forall name, pattern.value.wholeName? = some name ->
        ((ctx.destructure (depth + 1) pattern input).outcome =
            some (.ok { value := .whole name.name input, span := pattern.span }) ↔
          input.weakInner? ctx.registry = none))) := by
  refine ⟨?_, ?_, ?_⟩
  · intro hblind r' hsame
    cases hname : pattern.value.wholeName? with
    | none => rw [Context.destructure_parts_eq hsame hname]
    | some name =>
        have hveiled : ¬ input.Reveals ctx.module ctx.registry := by
          rcases hblind with hnone | hveiled
          · rw [hname] at hnone
            cases hnone
          · exact hveiled
        rw [Context.destructure_whole hname, Context.destructure_whole hname,
          Ty.stripWeak_eq hsame depth hveiled]
  · intro hwhole hreveals hanswers
    rcases Option.ne_none_iff_exists'.mp hwhole with ⟨name, hname⟩
    rw [Context.destructure_whole hname] at hanswers
    cases hshown : input.stripWeak ctx.registry depth with
    | none =>
        rw [hshown] at hanswers
        exact absurd rfl hanswers
    | some shown =>
        rcases hreveals.exists_other hshown with ⟨r', other, hsame, hother, hne⟩
        refine ⟨r', hsame, ?_⟩
        rw [Context.destructure_whole hname, Context.destructure_whole hname, hshown, hother]
        intro heq
        injection heq with heq
        injection heq with heq
        injection heq with heq
        injection heq with _ heq
        exact hne heq.symm
  · intro hhidden
    refine ⟨fun hname => Context.destructure_hidden hhidden hname depth, ?_⟩
    intro name hname
    rw [Context.destructure_whole hname]
    constructor
    · intro hkept
      rcases Option.map_eq_some_iff.mp hkept with ⟨shown, hshown, heq⟩
      injection heq with heq
      injection heq with heq
      injection heq with _ heq
      rw [heq] at hshown
      exact Ty.weakInner?_stripped hshown
    · intro hbare
      simp only [Ty.stripWeak, hbare, Option.map_some]

def tokenRegistry (weak : Bool) (inner : Ty) : Registry :=
  [(⟨"Lib", "Token"⟩, { definition := .boxed { inner := inner, weak := weak, hidden := true } }),
    (⟨"Main", "Handle"⟩,
      { definition := .boxed { inner := .named ⟨"Lib", "Token"⟩ [], weak := true } })]

def tokenContext (weak : Bool) : Context where
  module := "Main"
  registry := tokenRegistry weak (Ty.core "Int")
  scope := { module := "Main" }

theorem tokenRegistry_sameFrom (weak : Bool) (inner inner' : Ty) :
    Registry.SameFrom "Main" (tokenRegistry weak inner) (tokenRegistry weak inner') := by
  intro name
  simp only [tokenRegistry, Table.get?]
  split
  · rename_i hname
    subst hname
    exact .some (Or.inr ⟨_, _, rfl, rfl, by decide, rfl⟩)
  · split
    · exact .some (Or.inl rfl)
    · exact .none

/-- A box of `Lib` that is hidden but not weak stays closed inside the weak box of `Main`,
whatever it holds. -/
theorem handle_shows_token :
    let handle := Ty.named ⟨"Main", "Handle"⟩ []
    let token := Ty.named ⟨"Lib", "Token"⟩ []
    let pattern : Source.Pattern := { value := .name { name := "x" } }
    ¬ handle.Reveals "Main" (tokenContext false).registry ∧
      ((tokenContext false).destructure 2 pattern handle).outcome =
        some (.ok { value := .whole "x" token }) ∧
      forall inner, ((tokenContext false).destructure 2 pattern handle).outcome =
        ({ tokenContext false with registry := tokenRegistry false inner }.destructure 2 pattern
          handle).outcome := by
  intro handle token pattern
  have hveiled : ¬ handle.Reveals "Main" (tokenContext false).registry := by
    intro hreveals
    cases hreveals with
    | here hweak hhidden => cases hhidden
    | inside hweak hinner =>
        cases hweak
        cases hinner with
        | here hweak _ => cases hweak
        | inside hweak _ => cases hweak
  refine ⟨hveiled, rfl, ?_⟩
  intro inner
  exact (patterns_hide_unless_weak (tokenContext false) 2 pattern handle).left (Or.inr hveiled) _
    (tokenRegistry_sameFrom false _ inner)

/-- If the box of `Lib` is weak, `Main` binds a name to its value and reads off what `Lib`
hides: the name has the inner type, and another one if the box holds something else. -/
theorem weak_token_reveals_inner :
    let token := Ty.named ⟨"Lib", "Token"⟩ []
    let pattern : Source.Pattern := { value := .name { name := "x" } }
    let changed := tokenRegistry true (Ty.core "String")
    token.unbox "Main" (tokenContext true).registry = .hidden ∧
      Registry.SameFrom "Main" (tokenContext true).registry changed ∧
      ((tokenContext true).destructure 2 pattern token).outcome =
        some (.ok { value := .whole "x" (Ty.core "Int") }) ∧
      ({ tokenContext true with registry := changed }.destructure 2 pattern token).outcome =
        some (.ok { value := .whole "x" (Ty.core "String") }) := by
  intro token pattern changed
  exact ⟨rfl, tokenRegistry_sameFrom true _ _, rfl, rfl⟩

end TypeChecker
