import TypeChecker.Proofs.Registry.Stored

/-!
# Arguments filled up with defaults

A reference may leave out last arguments that have defaults. A type at such arguments
is the type at the arguments filled up, if the defaults that are filled in mention only
parameters whose arguments are given.
-/

namespace TypeChecker

/-- No default of a parameter that a type mentions beyond the first `n` mentions a
parameter beyond the first `n` in turn. -/
def Ty.ChainsNone (t : Ty) (defaults : TypeMap) (n : Nat) : Prop :=
  forall k default, n ≤ k -> t.anyParam (fun index _ => index == k) = true ->
    Table.get? defaults k = some default ->
    default.anyParam (fun index _ => decide (n ≤ index)) = false

namespace Ty

variable {defaults : TypeMap} {arity : Nat} {args : List Ty}

theorem length_appendDefaults (missing : Nat) (args : List Ty) :
    (appendDefaults defaults missing args).length = args.length + missing := by
  induction missing generalizing args with
  | zero => rfl
  | succ missing ih =>
      rw [appendDefaults, ih, List.length_append, List.length_singleton]
      omega

theorem length_completeArgs (h : args.length ≤ arity) :
    (completeArgs defaults arity args).length = arity := by
  rw [completeArgs, length_appendDefaults, List.length_take]
  omega

theorem completeArgs_full (h : args.length = arity) : completeArgs defaults arity args = args := by
  subst h
  rw [completeArgs, Nat.sub_self, List.take_length, appendDefaults]

theorem instantiate_append {t : Ty} {n : Nat}
    (h : t.anyParam (fun index _ => decide (n ≤ index)) = false) {given extra : List Ty}
    (hgiven : given.length = n) : t.instantiate (given ++ extra) = t.instantiate given := by
  apply replace_congr (anyParam_eq_false.mp h)
  intro index inferring hindex
  have hlt : index < given.length := by simpa [hgiven] using hindex
  rw [List.getElem?_append_left hlt]

theorem appendDefaults_given (missing : Nat) (args : List Ty) {k : Nat} (hk : k < args.length) :
    (appendDefaults defaults missing args)[k]? = args[k]? := by
  induction missing generalizing args with
  | zero => rfl
  | succ missing ih =>
      rw [appendDefaults, ih _ (by simp; omega), List.getElem?_append_left hk]

theorem appendDefaults_at (missing : Nat) (args : List Ty) {k : Nat} {t : Ty}
    (hk : args.length ≤ k) (hmissing : k < args.length + missing)
    (hdefault : Table.get? defaults k = some t) :
    exists extra, (appendDefaults defaults missing args)[k]? =
      some (t.instantiate (args ++ extra)) := by
  induction missing generalizing args with
  | zero => omega
  | succ missing ih =>
      rw [appendDefaults]
      by_cases hfirst : k = args.length
      · subst hfirst
        refine ⟨[], ?_⟩
        rw [appendDefaults_given missing _ (by simp), hdefault]
        simp
      · generalize ((Table.get? defaults args.length).map
          fun t => t.instantiate args).getD .any = next
        rcases ih (args ++ [next]) (by simp; omega) (by simp; omega) with ⟨extra, hat⟩
        refine ⟨next :: extra, ?_⟩
        rw [hat, List.append_assoc]
        rfl

theorem completeArgs_given (h : args.length ≤ arity) {k : Nat} (hk : k < args.length) :
    (completeArgs defaults arity args)[k]? = args[k]? := by
  rw [completeArgs, List.take_of_length_le h, appendDefaults_given _ _ hk]

theorem completeArgs_at (h : args.length ≤ arity) {k : Nat} {t : Ty} (hk : args.length ≤ k)
    (hlt : k < arity) (hdefault : Table.get? defaults k = some t)
    (hmentions : t.anyParam (fun index _ => decide (args.length ≤ index)) = false) :
    (completeArgs defaults arity args)[k]? = some (t.instantiate args) := by
  rw [completeArgs, List.take_of_length_le h]
  rcases appendDefaults_at (arity - args.length) args hk (by omega) hdefault with ⟨extra, hat⟩
  rw [hat, instantiate_append hmentions rfl]

end Ty

/-!
## Types at filled up arguments
-/

theorem Declaration.contains_default {d : Declaration} {k : Nat} (hmin : d.minArity ≤ k)
    (hk : k < d.arity) : exists t, Table.get? d.defaults k = some t := by
  have hcontains : forall n, n - defaultedBefore d.defaults n ≤ k -> k < n ->
      Table.contains d.defaults k = true := by
    intro n
    induction n with
    | zero => omega
    | succ n ih =>
        intro hle hlt
        rw [defaultedBefore] at hle
        split at hle
        · rename_i hlast
          by_cases hkn : k = n
          · exact hkn ▸ hlast
          · exact ih (by omega) (by omega)
        · omega
  exact Option.isSome_iff_exists.mp (hcontains d.arity hmin hk)

theorem Ty.instantiateWith_eq {defaults : TypeMap} {args : List Ty}
    (hdefaults : forall index t, Table.get? defaults index = some t -> index < args.length)
    (t : Ty) : t.instantiateWith defaults args = t.instantiate args := by
  unfold Ty.instantiateWith Ty.instantiate
  congr 1
  funext index _
  cases harg : args[index]? with
  | some arg => rfl
  | none =>
      cases hdefault : Table.get? defaults index with
      | none => rfl
      | some default =>
          have hlt := hdefaults index default hdefault
          have hge := List.getElem?_eq_none_iff.mp harg
          omega

section

variable {registry : Registry} (hlawful : registry.Lawful) {name : Symbol} {d : Declaration}
  (hd : Table.get? registry name = some d) {args : List Ty}

include hlawful hd

theorem Ty.instantiateWith_full (hargs : args.length = d.arity) (t : Ty) :
    t.instantiateWith d.defaults args = t.instantiate args :=
  Ty.instantiateWith_eq (hargs ▸ hlawful.defaulted name d hd) t

/-- A type at given arguments is the type at the arguments filled up, unless defaults
chain. -/
theorem Ty.instantiateWith_completeArgs {t : Ty} (hchains : t.ChainsNone d.defaults args.length)
    (hmin : d.minArity ≤ args.length) (hmax : args.length ≤ d.arity) :
    t.instantiateWith d.defaults (completeArgs d.defaults d.arity args) =
      t.instantiateWith d.defaults args := by
  rw [instantiateWith_full hlawful hd (length_completeArgs hmax)]
  apply replace_congr (everywhere_mentions t)
  intro index inferring hmentioned
  by_cases hgiven : index < args.length
  · rw [completeArgs_given hmax hgiven, List.getElem?_eq_getElem hgiven]
  · have hnone : args[index]? = none := List.getElem?_eq_none_iff.mpr (by omega)
    rw [hnone]
    by_cases hindex : index < d.arity
    · rcases Declaration.contains_default (by omega : d.minArity ≤ index) hindex with
        ⟨default, hdefault⟩
      have hmentions := hchains index default (by omega) hmentioned hdefault
      rw [completeArgs_at hmax (by omega) hindex hdefault hmentions, hdefault]
      rfl
    · have hbeyond : (completeArgs d.defaults d.arity args)[index]? = none := by
        rw [List.getElem?_eq_none_iff, length_completeArgs hmax]
        omega
      rw [hbeyond]
      cases hdefault : Table.get? d.defaults index with
      | none => rfl
      | some default => exact absurd (hlawful.defaulted name d hd index default hdefault) hindex

end

end TypeChecker
