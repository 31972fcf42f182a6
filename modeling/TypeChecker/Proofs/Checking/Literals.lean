import TypeChecker.Checking.Number
import TypeChecker.Proofs.Number.Reading
import TypeChecker.Proofs.Runs

/-!
# Integer literals at numeric types

A literal takes the numeric type it is used at if that type holds what it denotes, and is
reported to overflow it otherwise. A floating type holds the integers that are exact in it,
and the bits that such a literal gets are those of the very integer.
-/

namespace TypeChecker
namespace Number

variable {v : Int}

/-!
## Integer types
-/

/-- The sized integer types, each with its least and its greatest value. -/
def sizedRanges : List (String × Int × Int) :=
  [("Byte", 0, 255), ("Word", 0, 65535), ("Int32", -2147483648, 2147483647),
    ("Uint32", 0, 4294967295), ("Int64", -9223372036854775808, 9223372036854775807),
    ("Uint64", 0, 18446744073709551615)]

theorem Width.holds_iff (w : Width) (v : Int) : w.holds v = true ↔
    if w.signed then
      -Int.ofNat (Nat.pow 2 (w.bits - 1)) ≤ v ∧ v < Int.ofNat (Nat.pow 2 (w.bits - 1))
    else 0 ≤ v ∧ v < Int.ofNat (Nat.pow 2 w.bits) := by
  rcases w with ⟨bits, signed⟩
  cases v with
  | ofNat n =>
      cases signed
      · simp only [holds, Nat.blt_eq, Bool.false_eq_true, if_false, Int.ofNat_eq_natCast]
        omega
      · simp only [holds, Nat.blt_eq, if_true, Int.ofNat_eq_natCast]
        omega
  | negSucc n =>
      cases signed
      · simp [holds]
      · simp only [holds, Bool.true_and, Nat.blt_eq, if_true, Int.ofNat_eq_natCast]
        omega

theorem sizedRanges_widths : forall item, item ∈ sizedRanges ->
    item.1 ≠ "Int" ∧ (item.1 = "Float" || item.1 = "Number") = false ∧
      exists w, Width.named? item.1 = some w ∧
        if w.signed then item.2.1 = -Int.ofNat (Nat.pow 2 (w.bits - 1)) ∧
          item.2.2 + 1 = Int.ofNat (Nat.pow 2 (w.bits - 1))
        else item.2.1 = 0 ∧ item.2.2 + 1 = Int.ofNat (Nat.pow 2 w.bits) := by
  intro item hitem
  simp only [sizedRanges, List.mem_cons, List.not_mem_nil, or_false] at hitem
  rcases hitem with rfl | rfl | rfl | rfl | rfl | rfl
  all_goals
    refine ⟨by decide, by decide, _, rfl, ?_⟩
    decide

theorem literalAt?_sized {kind : String} {low high : Int} (h : (kind, low, high) ∈ sizedRanges) :
    (low ≤ v ∧ v ≤ high -> literalAt? kind v = some (some (.int v))) ∧
      (¬ (low ≤ v ∧ v ≤ high) -> literalAt? kind v = some none) := by
  rcases sizedRanges_widths _ h with ⟨hint, hfloat, w, hw, hrange⟩
  have hholds : w.holds v = true ↔ low ≤ v ∧ v ≤ high := by
    rw [w.holds_iff v]
    cases hsigned : w.signed <;> rw [hsigned] at hrange <;> simp at hrange ⊢ <;> omega
  have hat : literalAt? kind v = some (if w.holds v then some (.int v) else none) := by
    rw [literalAt?, if_neg hint, hfloat, if_neg Bool.false_ne_true, hw]
    rfl
  rw [hat]
  constructor
  · intro hin
    rw [if_pos (hholds.mpr hin)]
  · intro hout
    rw [if_neg (mt hholds.mp hout)]

/-!
## Floating types
-/

@[irreducible] def leastExponent : Nat := 1074

def unitsOfFields (fields : Nat) : Nat :=
  let exponent := fields / Nat.pow 2 52
  let fraction := fields % Nat.pow 2 52
  if exponent = 0 then fraction else (Nat.pow 2 52 + fraction) * Nat.pow 2 (exponent - 1)

/-- The number with a finite bit pattern, in units of the least positive one. The highest
bit is the sign. -/
def binary64Units (bits : UInt64) : Int :=
  if bits.toNat < Nat.pow 2 63 then Int.ofNat (unitsOfFields bits.toNat)
  else -Int.ofNat (unitsOfFields (bits.toNat - Nat.pow 2 63))

theorem two_pow_mul (a b : Nat) : Nat.pow 2 a * Nat.pow 2 b = Nat.pow 2 (a + b) :=
  (Nat.pow_add 2 a b).symm

/-- An integer of at most 53 bits has just the magnitude that its fields are made for. -/
theorem unitsOfFields_binary64Magnitude {n : Nat} (h : n < Nat.pow 2 53) :
    unitsOfFields (binary64Magnitude n) = n * Nat.pow 2 leastExponent ∧
      binary64Magnitude n < Nat.pow 2 63 := by
  unfold binary64Magnitude
  split
  · rename_i hzero
    subst hzero
    constructor
    · rw [Nat.zero_mul]
      rfl
    · exact Nat.pow_pos Nat.two_pos
  · rename_i hpos
    dsimp only
    have hlow : Nat.pow 2 n.log2 ≤ n := Nat.log2_self_le hpos
    have hhigh : n < Nat.pow 2 (n.log2 + 1) := Nat.lt_log2_self
    have hexp : n.log2 < 53 := (Nat.log2_lt hpos).mpr h
    generalize n.log2 = e at hlow hhigh hexp ⊢
    have hsplit : Nat.pow 2 e * Nat.pow 2 (52 - e) = Nat.pow 2 52 := by
      rw [two_pow_mul, Nat.add_sub_cancel' (Nat.le_of_lt_succ hexp)]
    have hrest : n - Nat.pow 2 e < Nat.pow 2 e := by
      have hdouble : Nat.pow 2 (e + 1) = Nat.pow 2 e * 2 := rfl
      omega
    have hfraction : (n - Nat.pow 2 e) * Nat.pow 2 (52 - e) < Nat.pow 2 52 := by
      rw [<- hsplit]
      exact Nat.mul_lt_mul_of_pos_right hrest (Nat.pow_pos Nat.two_pos)
    have hwhole : Nat.pow 2 52 + (n - Nat.pow 2 e) * Nat.pow 2 (52 - e) =
        n * Nat.pow 2 (52 - e) := by
      rw [<- hsplit, <- Nat.add_mul, Nat.add_sub_cancel' hlow]
    have hscale : Nat.pow 2 (52 - e) * Nat.pow 2 (e + 1022) = Nat.pow 2 leastExponent := by
      have hsum : 52 - e + (e + 1022) = leastExponent := by
        unfold leastExponent
        omega
      rw [two_pow_mul, hsum]
    have hunit : 0 < Nat.pow 2 52 := Nat.pow_pos Nat.two_pos
    generalize (n - Nat.pow 2 e) * Nat.pow 2 (52 - e) = fraction at hfraction hwhole
    constructor
    · have hdiv : ((e + 1023) * Nat.pow 2 52 + fraction) / Nat.pow 2 52 = e + 1023 := by
        rw [Nat.mul_comm, Nat.mul_add_div hunit, Nat.div_eq_of_lt hfraction, Nat.add_zero]
      have hmod : ((e + 1023) * Nat.pow 2 52 + fraction) % Nat.pow 2 52 = fraction := by
        rw [Nat.mul_comm, Nat.mul_add_mod, Nat.mod_eq_of_lt hfraction]
      have hless : e + 1023 - 1 = e + 1022 := by omega
      unfold unitsOfFields
      dsimp only
      rw [hdiv, hmod, if_neg (by omega), hless, hwhole, Nat.mul_assoc, hscale]
    · have htop : Nat.pow 2 63 = 2048 * Nat.pow 2 52 := rfl
      rw [htop]
      have hle : (e + 1023) * Nat.pow 2 52 ≤ 1075 * Nat.pow 2 52 :=
        Nat.mul_le_mul_right _ (by omega)
      omega

theorem binary64Units_binary64OfInt (h : v.natAbs < Nat.pow 2 53) :
    binary64Units (binary64OfInt v) = v * Int.ofNat (Nat.pow 2 leastExponent) := by
  have hsize : UInt64.size = Nat.pow 2 63 + Nat.pow 2 63 := rfl
  cases v with
  | ofNat n =>
      have hn : n < Nat.pow 2 53 := h
      rcases unitsOfFields_binary64Magnitude hn with ⟨hunits, hlt⟩
      have hbits : (binary64OfInt (.ofNat n)).toNat = binary64Magnitude n := by
        rw [binary64OfInt]
        exact UInt64.toNat_ofNat_of_lt' (by omega)
      rw [binary64Units, hbits, if_pos hlt, hunits]
      exact Int.natCast_mul n _
  | negSucc n =>
      have hn : n + 1 < Nat.pow 2 53 := h
      rcases unitsOfFields_binary64Magnitude hn with ⟨hunits, hlt⟩
      have hbits : (binary64OfInt (.negSucc n)).toNat =
          Nat.pow 2 63 + binary64Magnitude (n + 1) := by
        rw [binary64OfInt]
        exact UInt64.toNat_ofNat_of_lt' (by omega)
      rw [binary64Units, hbits, if_neg (by omega), Nat.add_sub_cancel_left, hunits,
        Int.negSucc_eq, Int.neg_mul]
      exact congrArg Neg.neg (Int.natCast_mul (n + 1) _)

theorem literalAt?_floating {kind : String} (h : kind = "Float" ∨ kind = "Number") :
    (v.natAbs ≤ Nat.pow 2 53 - 1 ->
        literalAt? kind v = some (some (.float (binary64OfInt v)))) ∧
      (¬ v.natAbs ≤ Nat.pow 2 53 - 1 -> literalAt? kind v = some none) := by
  have hint : kind ≠ "Int" := by
    rcases h with rfl | rfl <;> decide
  have hfloat : (kind = "Float" || kind = "Number") = true := by simpa using h
  have hat : literalAt? kind v =
      some (if isExact v then some (.float (binary64OfInt v)) else none) := by
    rw [literalAt?, if_neg hint, if_pos hfloat]
  have hexact : isExact v = true ↔ v.natAbs ≤ Nat.pow 2 53 - 1 := by
    rw [isExact, Nat.ble_eq]
    rfl
  rw [hat]
  constructor
  · intro hsmall
    rw [if_pos (hexact.mpr hsmall)]
  · intro hlarge
    rw [if_neg (mt hexact.mp hlarge)]

end Number

/-!
## Settling literals
-/

namespace Checker

open Number

variable {ctx : Context} {i : Inference} {expected : Ty} {kind literal : String} {v : Int}
  {span : Span}

theorem outcome_requireCertain {t certain : Ty} (h : i.certain? t = some certain) :
    (requireCertain t span).outcome i = some (.ok certain, i) := by
  unfold requireCertain
  rw [Inferring.outcome_bind, Inferring.outcome_state]
  dsimp only
  rw [h]
  rfl

theorem outcome_settleInteger (hcertain : i.certain? expected = some (Ty.core kind)) :
    (forall node, literalAt? kind v = some (some node) ->
        (settleInteger ctx (some expected) v span).outcome i =
          some (.ok { type := Ty.core kind, node, span }, i)) ∧
      (literalAt? kind v = some none ->
        (settleInteger ctx (some expected) v span).outcome i =
          some (.error { value := .integerOverflow kind, span }, i)) := by
  have hname : coreName? (Ty.core kind) = some kind := rfl
  have htype : (liftM (requireType (some expected) span) : Inferring ExprError Ty).outcome i =
      some (.ok expected, i) := rfl
  unfold settleInteger
  rw [Inferring.outcome_bind, htype]
  dsimp only
  rw [Inferring.outcome_bind, outcome_requireCertain hcertain]
  dsimp only
  rw [hname, Option.bind_some]
  constructor
  · intro node hnode
    rw [hnode]
    rfl
  · intro hoverflow
    rw [hoverflow]
    rfl

theorem certain?_core (i : Inference) (kind : String) :
    i.certain? (Ty.core kind) = some (Ty.core kind) := rfl

theorem draftInteger_eq_ok (h : Denotes literal v) :
    draftInteger literal span = .ok { value := .integer v, span } := by
  rw [draftInteger, readLiteral?_eq_some.mpr h]
  rfl

theorem draftInteger_eq_error (h : forall v, ¬ Denotes literal v) :
    draftInteger literal span = .error { value := .badInteger literal, span } := by
  have hnone : readLiteral? literal = none := by
    cases hread : readLiteral? literal with
    | none => rfl
    | some v => exact absurd (readLiteral?_eq_some.mp hread) (h v)
  rw [draftInteger, hnone]
  rfl

/-- Where the core type `kind` is expected, a literal of value `v` is settled with this type
and one of the given nodes if it fits, and overflows the type otherwise. -/
def TakenAs (ctx : Context) (i : Inference) (v : Int) (span : Span) (kind : String)
    (fits : Prop) (isNode : Node -> Prop) : Prop :=
  forall expected, i.certain? expected = some (Ty.core kind) ->
    (fits -> exists node, isNode node ∧
      (settleInteger ctx (some expected) v span).outcome i =
        some (.ok { type := Ty.core kind, node, span }, i)) ∧
    (¬ fits -> (settleInteger ctx (some expected) v span).outcome i =
      some (.error { value := .integerOverflow kind, span }, i))

theorem takenAs_of_literalAt? {fits : Prop} {isNode : Node -> Prop} {node : Node}
    (hnode : fits -> isNode node)
    (hkind : (fits -> literalAt? kind v = some (some node)) ∧
      (¬ fits -> literalAt? kind v = some none)) :
    TakenAs ctx i v span kind fits isNode := by
  intro expected hcertain
  rcases outcome_settleInteger hcertain with ⟨haccepts, hoverflows⟩
  constructor
  · intro hfits
    exact ⟨node, hnode hfits, haccepts node (hkind.left hfits)⟩
  · intro hout
    exact hoverflows (hkind.right hout)

/-- A literal reads as what it denotes, whose magnitude stays below `2 ^ 127`, and is
refused if it denotes nothing. At a sized type it is taken just if the value lies in the
range of the type, at `Int` always, and at a floating type just if it is exact there. -/
theorem literals_mean_their_value (literal : String) (span : Span) :
    (forall v, readLiteral? literal = some v ↔ Denotes literal v) ∧
    readLiteral? literal ≠ some (-Int.ofNat (Nat.pow 2 127)) ∧
    ((forall v, ¬ Denotes literal v) -> readLiteral? literal = none ∧
      draftInteger literal span = .error { value := .badInteger literal, span }) ∧
    forall v, Denotes literal v ->
      v.natAbs ≤ Nat.pow 2 127 - 1 ∧
      draftInteger literal span = .ok { value := .integer v, span } ∧
      forall (ctx : Context) (i : Inference),
        (forall kind low high, (kind, low, high) ∈ sizedRanges ->
          TakenAs ctx i v span kind (low ≤ v ∧ v ≤ high) fun node => node = .int v) ∧
        (TakenAs ctx i v span "Int" True fun node => node = .int v) ∧
        forall kind, kind = "Float" ∨ kind = "Number" ->
          TakenAs ctx i v span kind (v.natAbs ≤ Nat.pow 2 53 - 1) fun node =>
            exists bits, node = .float bits ∧
              binary64Units bits = v * Int.ofNat (Nat.pow 2 leastExponent) := by
  constructor
  · exact fun v => readLiteral?_eq_some
  constructor
  · intro hread
    have hlt := (readLiteral?_eq_some.mp hread).natAbs_lt
    rw [Int.natAbs_neg] at hlt
    exact Nat.lt_irrefl _ hlt
  constructor
  · intro hnone
    refine ⟨?_, draftInteger_eq_error hnone⟩
    exact Option.eq_none_iff_forall_ne_some.mpr fun v hread =>
      hnone v (readLiteral?_eq_some.mp hread)
  · intro v hdenotes
    refine ⟨Nat.le_sub_one_of_lt hdenotes.natAbs_lt, draftInteger_eq_ok hdenotes, ?_⟩
    intro ctx i
    constructor
    · intro kind low high hsized
      exact takenAs_of_literalAt? (fun _ => rfl) (literalAt?_sized hsized)
    constructor
    · exact takenAs_of_literalAt? (fun _ => rfl)
        ⟨fun _ => rfl, fun hfalse => absurd trivial hfalse⟩
    · intro kind hfloating
      apply takenAs_of_literalAt? ?_ (literalAt?_floating hfloating)
      intro hexact
      have hlt := Nat.lt_of_le_sub_one (Nat.pow_pos Nat.two_pos) hexact
      exact ⟨_, rfl, binary64Units_binary64OfInt hlt⟩

/-- The least `Int32` in hexadecimal. It is taken as `Int32`, overflows `Uint32`, and is
exact as a `Float`. -/
theorem least_int32_in_hexadecimal :
    let ctx : Context := { module := "Main", registry := [], scope := { module := "Main" } }
    let least : Int := -2147483648
    Denotes "-0X80000000" least ∧
    (settleInteger ctx (some (Ty.core "Int32")) least {}).outcome .disabled =
      some (.ok { type := Ty.core "Int32", node := .int least, span := {} }, .disabled) ∧
    (settleInteger ctx (some (Ty.core "Uint32")) least {}).outcome .disabled =
      some (.error { value := .integerOverflow "Uint32", span := {} }, .disabled) ∧
    exists bits, (settleInteger ctx (some (Ty.core "Float")) least {}).outcome .disabled =
        some (.ok { type := Ty.core "Float", node := .float bits, span := {} }, .disabled) ∧
      binary64Units bits = least * Int.ofNat (Nat.pow 2 leastExponent) := by
  intro ctx least
  rcases literals_mean_their_value "-0X80000000" {} with ⟨hreads, _, _, htaken⟩
  have hdenotes : Denotes "-0X80000000" least := (hreads _).mp (by decide +kernel)
  rcases htaken _ hdenotes with ⟨_, _, hat⟩
  rcases hat ctx .disabled with ⟨hsized, _, hfloating⟩
  have hint32 := hsized "Int32" (-2147483648) 2147483647 (by decide) _ (certain?_core _ _)
  have huint32 := hsized "Uint32" 0 4294967295 (by decide) _ (certain?_core _ _)
  rcases hint32.left (by decide) with ⟨_, rfl, haccepts⟩
  rcases (hfloating "Float" (Or.inl rfl) _ (certain?_core _ _)).left (by decide) with
    ⟨_, ⟨bits, rfl, hbits⟩, hexact⟩
  exact ⟨hdenotes, haccepts, huint32.right (by decide), bits, hexact, hbits⟩

end Checker
end TypeChecker
