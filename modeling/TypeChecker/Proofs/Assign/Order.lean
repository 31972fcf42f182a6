import TypeChecker.Proofs.Assign.Rules

/-!
# The order behind assignability

One type is below another if the rules of assignment lead from the one to the other.
The number of boxes opened on any one way through a derivation is kept, since opening
is the only rule that does not pass on to parts.

Assignments that accept show types to be below each other, and types below each other
are never refused.
-/

namespace TypeChecker

open Assign

/-- The smaller type `a` may stand for `b`, with at most `n` boxes opened on any way
through the types. -/
inductive Below (ctx : TypeContext) : Nat -> Ty -> Ty -> Prop where
  | never (n : Nat) (b : Ty) : Below ctx n .never b
  | any (n : Nat) (a : Ty) : Below ctx n a .any
  | parts {n : Nat} {a b : Ty} (former : a.former = b.former)
      (covariant : forall (k : Nat) x y,
        (b.former.positions ctx.registry)[k]? = some .covariant ->
        a.parts[k]? = some x -> b.parts[k]? = some y -> Below ctx n x y)
      (contravariant : forall (k : Nat) x y,
        (b.former.positions ctx.registry)[k]? = some .contravariant ->
        a.parts[k]? = some x -> b.parts[k]? = some y -> Below ctx n y x)
      (fixed : forall (k : Nat) v x y, (b.former.positions ctx.registry)[k]? = some v ->
        v ≠ .covariant -> v ≠ .contravariant ->
        a.parts[k]? = some x -> b.parts[k]? = some y -> x = y) :
      Below ctx n a b
  | opened {n : Nat} {a inner b : Ty} (unboxes : a.unbox ctx.module ctx.registry = .inner inner)
      (rest : Below ctx n inner b) : Below ctx (n + 1) a b

namespace Below

variable {ctx : TypeContext} {n m : Nat} {a b : Ty}

theorem mono (h : Below ctx n a b) (hle : n ≤ m) : Below ctx m a b := by
  induction h generalizing m with
  | never n b => exact Below.never m b
  | any n a => exact Below.any m a
  | parts former _ _ fixed ihco ihcontra =>
      exact Below.parts former (fun k x y hv hx hy => ihco k x y hv hx hy hle)
        (fun k x y hv hx hy => ihcontra k x y hv hx hy hle) fixed
  | opened unboxes _ ih =>
      cases m with
      | zero => omega
      | succ m => exact Below.opened unboxes (ih (by omega))

theorem refl (n : Nat) (t : Ty) : Below ctx n t t := by
  induction t using Ty.induction_parts with
  | step t ih =>
      refine Below.parts rfl ?_ ?_ ?_
      · intro k x y _ hx hy
        cases hx.symm.trans hy
        exact ih x (List.mem_of_getElem? hx)
      · intro k x y _ hx hy
        cases hx.symm.trans hy
        exact ih x (List.mem_of_getElem? hx)
      · intro k v x y _ _ _ hx hy
        exact Option.some.inj (hx.symm.trans hy)

end Below

def Direction.HoldsWithin (ctx : TypeContext) (n : Nat) (d : Direction) (target given : Ty) :
    Prop :=
  match d with
  | .toTarget => Below ctx n given target
  | .fromTarget => Below ctx n target given
  | .exact => target = given

def Direction.Holds (ctx : TypeContext) (d : Direction) (target given : Ty) : Prop :=
  exists n, d.HoldsWithin ctx n target given

theorem exists_common_bound {p : Nat -> Nat -> Prop}
    (hmono : forall k n m, n ≤ m -> p k n -> p k m) (length : Nat)
    (h : forall k, k < length -> exists n, p k n) :
    exists n, forall k, k < length -> p k n := by
  induction length with
  | zero => exact ⟨0, fun k hk => absurd hk (Nat.not_lt_zero k)⟩
  | succ length ih =>
      rcases ih fun k hk => h k (Nat.lt_succ_of_lt hk) with ⟨n, hn⟩
      rcases h length (Nat.lt_succ_self length) with ⟨m, hm⟩
      refine ⟨max n m, ?_⟩
      intro k hk
      rcases Nat.lt_succ_iff_lt_or_eq.mp hk with hk | rfl
      · exact hmono k n _ (Nat.le_max_left n m) (hn k hk)
      · exact hmono k m _ (Nat.le_max_right n m) hm

theorem exists_common_parts {registry : Registry} {target given : Ty}
    {P : Variance -> Ty -> Ty -> Nat -> Prop} (hformer : target.former = given.former)
    (hmono : forall v x y m n, m ≤ n -> P v x y m -> P v x y n)
    (h : forall (k : Nat) v x y, (target.former.positions registry)[k]? = some v ->
      target.parts[k]? = some x -> given.parts[k]? = some y -> exists n, P v x y n) :
    exists n, forall (k : Nat) v x y, (target.former.positions registry)[k]? = some v ->
      target.parts[k]? = some x -> given.parts[k]? = some y -> P v x y n := by
  let related := fun (k n : Nat) => forall v x y,
    (target.former.positions registry)[k]? = some v -> target.parts[k]? = some x ->
    given.parts[k]? = some y -> P v x y n
  have hrelated : forall k m n, m ≤ n -> related k m -> related k n :=
    fun k m n hle hm v x y hv hx hy => hmono v x y m n hle (hm v x y hv hx hy)
  have hsome : forall k, k < target.parts.length -> exists n, related k n := by
    intro k hk
    have hkg : k < given.parts.length := Ty.parts_length_eq hformer ▸ hk
    have hkv : k < (target.former.positions registry).length := by
      rw [Ty.length_positions]
      exact hk
    rcases h k _ _ _ (List.getElem?_eq_getElem hkv) (List.getElem?_eq_getElem hk)
      (List.getElem?_eq_getElem hkg) with ⟨n, hn⟩
    refine ⟨n, ?_⟩
    intro v x y hv hx hy
    rw [List.getElem?_eq_getElem hkv] at hv
    rw [List.getElem?_eq_getElem hk] at hx
    rw [List.getElem?_eq_getElem hkg] at hy
    cases hv
    cases hx
    cases hy
    exact hn
  rcases exists_common_bound hrelated target.parts.length hsome with ⟨n, hn⟩
  refine ⟨n, ?_⟩
  intro k v x y hv hx hy
  exact hn k (List.getElem?_eq_some_iff.mp hx).choose v x y hv hx hy

namespace Direction

variable {ctx : TypeContext} {n m : Nat} {d : Direction} {target given : Ty}

theorem HoldsWithin.mono (h : d.HoldsWithin ctx n target given) (hle : n ≤ m) :
    d.HoldsWithin ctx m target given := by
  cases d with
  | toTarget => exact Below.mono h hle
  | fromTarget => exact Below.mono h hle
  | exact => exact h

theorem holdsWithin_self (n : Nat) (d : Direction) (t : Ty) : d.HoldsWithin ctx n t t := by
  cases d with
  | toTarget => exact Below.refl n t
  | fromTarget => exact Below.refl n t
  | exact => rfl

theorem HoldsWithin.inverse (h : d.inverse.HoldsWithin ctx n target given) :
    d.HoldsWithin ctx n given target := by
  cases d with
  | toTarget => exact h
  | fromTarget => exact h
  | exact => exact h.symm

theorem below_of_parts (hformer : given.former = target.former)
    (hparts : forall (k : Nat) v t g, (target.former.positions ctx.registry)[k]? = some v ->
      target.parts[k]? = some t -> given.parts[k]? = some g ->
        (Direction.ofVariance v).HoldsWithin ctx n t g) :
    Below ctx n given target := by
  refine Below.parts hformer ?_ ?_ ?_
  · intro k x y hv hx hy
    exact hparts k _ y x hv hy hx
  · intro k x y hv hx hy
    exact hparts k _ y x hv hy hx
  · intro k v x y hv hco hcontra hx hy
    have hholds := hparts k v y x hv hy hx
    cases v with
    | covariant => exact absurd rfl hco
    | contravariant => exact absurd rfl hcontra
    | invariant => exact hholds.symm
    | bivariant => exact hholds.symm

theorem holdsWithin_of_parts (hformer : target.former = given.former)
    (hparts : forall (k : Nat) v t g, (target.former.positions ctx.registry)[k]? = some v ->
      target.parts[k]? = some t -> given.parts[k]? = some g ->
        (d.within v).HoldsWithin ctx n t g) :
    d.HoldsWithin ctx n target given := by
  cases d with
  | toTarget => exact below_of_parts hformer.symm hparts
  | fromTarget =>
      show Below ctx n target given
      apply below_of_parts hformer
      intro k v t g hv ht hg
      rw [<- hformer] at hv
      exact (hparts k v g t hv hg ht).inverse
  | exact =>
      refine Ty.eq_of_former_eq hformer (List.ext_getElem? ?_)
      intro k
      have hlen := Ty.parts_length_eq hformer
      by_cases hk : k < target.parts.length
      · have hkg : k < given.parts.length := hlen ▸ hk
        have hkv : k < (target.former.positions ctx.registry).length := by
          rw [Ty.length_positions]
          exact hk
        rw [List.getElem?_eq_getElem hk, List.getElem?_eq_getElem hkg]
        exact congrArg some (hparts k _ _ _ (List.getElem?_eq_getElem hkv)
          (List.getElem?_eq_getElem hk) (List.getElem?_eq_getElem hkg))
      · rw [List.getElem?_eq_none (Nat.le_of_not_lt hk),
          List.getElem?_eq_none (hlen ▸ Nat.le_of_not_lt hk)]

theorem holds_self (d : Direction) (t : Ty) : d.Holds ctx t t :=
  ⟨0, holdsWithin_self 0 d t⟩

theorem holds_of_parts (hformer : target.former = given.former)
    (hparts : forall (k : Nat) v t g, (target.former.positions ctx.registry)[k]? = some v ->
      target.parts[k]? = some t -> given.parts[k]? = some g ->
        (d.within v).Holds ctx t g) :
    d.Holds ctx target given := by
  have hmono : forall v t g m n, m ≤ n -> (d.within v).HoldsWithin ctx m t g ->
      (d.within v).HoldsWithin ctx n t g := fun v t g m n hle h => h.mono hle
  rcases exists_common_parts hformer hmono hparts with ⟨n, hn⟩
  exact ⟨n, holdsWithin_of_parts hformer hn⟩

end Direction

/-!
## Accepted assignments
-/

section

variable {ctx : TypeContext} {d : Direction} {target given t : Ty}

theorem Derives.holds (h : Derives ctx d target given t) : d.Holds ctx target given := by
  induction h with
  | param => exact Direction.holds_self _ _
  | @parts d target given results _ former _ length _ ih =>
      apply Direction.holds_of_parts former
      intro k v x y hv hx hy
      have hk : k < results.length := by
        rw [length]
        exact (List.getElem?_eq_some_iff.mp hx).choose
      exact ih k v x y _ hv hx hy (List.getElem?_eq_getElem hk)
  | never => exact ⟨0, Below.never 0 _⟩
  | any => exact ⟨0, Below.any 0 _⟩
  | opened unboxes _ ih =>
      rcases ih with ⟨n, hn⟩
      exact ⟨n + 1, Below.opened unboxes hn⟩
  | fromNever => exact ⟨0, Below.never 0 _⟩
  | fromAny => exact ⟨0, Below.any 0 _⟩
  | fromOpened unboxes _ ih =>
      rcases ih with ⟨n, hn⟩
      exact ⟨n + 1, Below.opened unboxes hn⟩

theorem Registry.Stores.plain {registry : Registry}
    (h : registry.Stores (Former.isKnown registry)) : registry.Stores Former.isPlain :=
  fun name d hd t ht => Ty.plain_of_known (h name d hd t ht)

/-- An accepted assignment shows that the types stand as its direction asks for. -/
theorem assign_holds (hbounds : ctx.bounds = {})
    (hstores : ctx.registry.Stores (Former.isKnown ctx.registry)) {depth : Nat} {i j : Inference}
    (htarget : target.everywhere (Former.isKnown ctx.registry) = true)
    (hgiven : given.everywhere (Former.isKnown ctx.registry) = true)
    (h : (assign ctx depth d target given).outcome i = some (.ok t, j)) :
    d.Holds ctx target given :=
  (assign_derives hbounds hstores.plain (Ty.plain_of_known htarget) (Ty.plain_of_known hgiven)
    h).holds

/-- A type below another is refused neither as the given type nor as the target. -/
theorem Below.admits
    (hstores : ctx.registry.Stores (Former.isKnown ctx.registry)) {n : Nat} {a b : Ty}
    (ha : a.everywhere (Former.isKnown ctx.registry) = true)
    (hb : b.everywhere (Former.isKnown ctx.registry) = true) (h : Below ctx n a b) :
    Admits ctx .toTarget b a ∧ Admits ctx .fromTarget a b := by
  induction h with
  | never n b => exact ⟨Admits.never (Ty.hasInferring_eq_false hb), Admits.from_never⟩
  | any n a => exact ⟨Admits.any, Admits.from_any⟩
  | @parts n a b former _ _ fixed ihco ihcontra =>
      rcases Ty.everywhere_iff.mp ha with ⟨haHere, haParts⟩
      rcases Ty.everywhere_iff.mp hb with ⟨hbHere, hbParts⟩
      cases hparam : b.former.isParam with
      | true =>
          rcases Ty.former_eq_param hparam with ⟨index, inferring, rfl⟩
          rcases Ty.former_eq_param (former ▸ hparam) with ⟨index', inferring', rfl⟩
          cases former
          exact ⟨Admits.self _ hb, Admits.self _ hb⟩
      | false =>
          have hparamA : a.former.isParam = false := former ▸ hparam
          constructor
          · apply Admits.of_parts hparam former.symm haHere
            intro k v y x hv hy hx
            have hxKnown := haParts x (List.mem_of_getElem? hx)
            have hyKnown := hbParts y (List.mem_of_getElem? hy)
            cases v with
            | covariant => exact (ihco k x y hv hx hy hxKnown hyKnown).left
            | contravariant => exact (ihcontra k x y hv hx hy hyKnown hxKnown).right
            | invariant =>
                cases fixed k _ x y hv (by simp) (by simp) hx hy
                exact Admits.self _ hxKnown
            | bivariant =>
                cases fixed k _ x y hv (by simp) (by simp) hx hy
                exact Admits.self _ hxKnown
          · apply Admits.of_parts hparamA former hbHere
            intro k v x y hv hx hy
            rw [former] at hv
            have hxKnown := haParts x (List.mem_of_getElem? hx)
            have hyKnown := hbParts y (List.mem_of_getElem? hy)
            cases v with
            | covariant => exact (ihco k x y hv hx hy hxKnown hyKnown).right
            | contravariant => exact (ihcontra k x y hv hx hy hyKnown hxKnown).left
            | invariant =>
                cases fixed k _ x y hv (by simp) (by simp) hx hy
                exact Admits.self _ hxKnown
            | bivariant =>
                cases fixed k _ x y hv (by simp) (by simp) hx hy
                exact Admits.self _ hxKnown
  | opened unboxes _ ih =>
      rcases ih (Ty.everywhere_unbox hstores ha unboxes) hb with ⟨hto, hfrom⟩
      exact ⟨Admits.opened unboxes hto, Admits.from_opened unboxes hfrom⟩

theorem Direction.Holds.admits
    (hstores : ctx.registry.Stores (Former.isKnown ctx.registry))
    (htarget : target.everywhere (Former.isKnown ctx.registry) = true)
    (hgiven : given.everywhere (Former.isKnown ctx.registry) = true)
    (h : d.Holds ctx target given) : Admits ctx d target given := by
  rcases h with ⟨n, h⟩
  cases d with
  | toTarget => exact (Below.admits hstores hgiven htarget h).left
  | fromTarget => exact (Below.admits hstores htarget hgiven h).right
  | exact =>
      cases h
      exact Admits.self _ htarget

end

end TypeChecker
