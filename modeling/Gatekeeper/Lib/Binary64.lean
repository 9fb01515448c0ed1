import Mathlib.Algebra.Order.Floor.Semifield
import Mathlib.Data.Int.Log
import Mathlib.Data.Rat.Floor
import Mathlib.Tactic.FieldSimp
import Mathlib.Tactic.Linarith
import Gatekeeper.Lib.Double

/-!
# Binary64 rounding of rational numbers

The double nearest to a rational number, ties to even, subnormal ones included. A number with
a significand of 53 bits is not rounded, so rounding twice is rounding once; on natural numbers
this is `Double.round`. The two zeros are one.
-/

namespace Binary64

/-! ## The nearest integer -/

/-- The integer nearest to `x`; of two equally near ones, the even one. -/
def roundEven (x : ℚ) : ℤ :=
  if x - ⌊x⌋ < 1 / 2 then ⌊x⌋
  else if 1 / 2 < x - ⌊x⌋ then ⌊x⌋ + 1
  else if ⌊x⌋ % 2 = 0 then ⌊x⌋
  else ⌊x⌋ + 1

theorem roundEven_eq (x : ℚ) : roundEven x = ⌊x⌋ ∨ roundEven x = ⌊x⌋ + 1 := by
  unfold roundEven
  split_ifs <;> simp

@[simp] theorem roundEven_intCast (n : ℤ) : roundEven n = n := by
  rw [roundEven, Int.floor_intCast, if_pos (by norm_num)]

theorem roundEven_nonneg {x : ℚ} (h : 0 ≤ x) : 0 ≤ roundEven x := by
  have hfloor : 0 ≤ ⌊x⌋ := Int.floor_nonneg.mpr h
  rcases roundEven_eq x with h | h <;> omega

theorem roundEven_le {x : ℚ} {n : ℤ} (h : x < n) : roundEven x ≤ n := by
  have hfloor : ⌊x⌋ < n := Int.floor_lt.mpr h
  rcases roundEven_eq x with h | h <;> omega

/-! ## The nearest double -/

/-- The exponent of the distance between neighbouring doubles at `q`. -/
def unitExp (q : ℚ) : ℤ := max (Int.log 2 q - 52) (-1074)

/-- The distance itself. -/
def unit (q : ℚ) : ℚ := 2 ^ unitExp q

/-- The nearest double to a number that is not negative. -/
def roundAbs (q : ℚ) : ℚ := roundEven (q / unit q) * unit q

/-- The nearest double, without an upper bound on the exponent. -/
def round (q : ℚ) : ℚ := if q < 0 then -roundAbs (-q) else roundAbs q

theorem unit_pos (q : ℚ) : 0 < unit q := zpow_pos (by norm_num) _

theorem roundAbs_nonneg {q : ℚ} (h : 0 ≤ q) : 0 ≤ roundAbs q := by
  have hm : 0 ≤ roundEven (q / unit q) := roundEven_nonneg (div_nonneg h (unit_pos q).le)
  exact mul_nonneg (by exact_mod_cast hm) (unit_pos q).le

/-- A whole number of units is not rounded. -/
theorem roundAbs_of_units {q : ℚ} {k : ℤ} (h : q = k * unit q) : roundAbs q = q := by
  have hdiv : q / unit q = k := by
    rw [div_eq_iff (unit_pos q).ne']
    exact h
  rw [roundAbs, hdiv, roundEven_intCast]
  exact h.symm

/-- A number of 53 bits, scaled by a power of two that is not too small. -/
def Significand (q : ℚ) : Prop := ∃ (k : ℕ) (e : ℤ), k ≤ 2 ^ 53 ∧ -1074 ≤ e ∧ q = k * 2 ^ e

/-- The unit of a scaled number divides its scale, or the number is a power of two. -/
theorem unitExp_le {k : ℕ} {e : ℤ} (hk : 0 < k) (hlt : k < 2 ^ 53) (he : -1074 ≤ e) :
    unitExp ((k : ℚ) * 2 ^ e) ≤ e := by
  have htwo : (0 : ℚ) < 2 ^ e := zpow_pos (by norm_num) e
  have hpos : (0 : ℚ) < k * 2 ^ e := mul_pos (by exact_mod_cast hk) htwo
  have hlog : Int.log 2 ((k : ℚ) * 2 ^ e) < e + 53 := by
    rw [← Int.lt_zpow_iff_log_lt (by norm_num) hpos]
    have hk' : (k : ℚ) < 2 ^ 53 := by exact_mod_cast hlt
    calc (k : ℚ) * 2 ^ e < 2 ^ 53 * 2 ^ e := mul_lt_mul_of_pos_right hk' htwo
      _ = ((2 : ℕ) : ℚ) ^ (e + 53) := by
        rw [zpow_add₀ (by norm_num), mul_comm]
        norm_num
  exact max_le (by omega) he

theorem roundAbs_of_significand {q : ℚ} (h : Significand q) : roundAbs q = q := by
  obtain ⟨k, e, hk, he, rfl⟩ := h
  rcases Nat.eq_zero_or_pos k with rfl | hpos
  · simp [roundAbs, roundEven]
  rcases hk.lt_or_eq with hlt | rfl
  · have hle := unitExp_le hpos hlt he
    -- the scale is a whole number of units
    apply roundAbs_of_units (k := k * 2 ^ (e - unitExp ((k : ℚ) * 2 ^ e)).toNat)
    have hsplit : (2 : ℚ) ^ e = 2 ^ (e - unitExp ((k : ℚ) * 2 ^ e)).toNat *
        2 ^ unitExp ((k : ℚ) * 2 ^ e) := by
      rw [← zpow_natCast, ← zpow_add₀ (by norm_num)]
      congr 1
      omega
    rw [unit]
    push_cast
    rw [mul_assoc, ← hsplit]
  -- `2 ^ 53` units make a power of two, whose own unit is twice as large
  · have hlog : Int.log 2 (((2 ^ 53 : ℕ) : ℚ) * 2 ^ e) = e + 53 := by
      have hpow : ((2 ^ 53 : ℕ) : ℚ) * 2 ^ e = ((2 : ℕ) : ℚ) ^ (e + 53) := by
        rw [zpow_add₀ (by norm_num), mul_comm]
        norm_num
      rw [hpow, Int.log_zpow (by norm_num)]
    have hunit : unit (((2 ^ 53 : ℕ) : ℚ) * 2 ^ e) = 2 ^ (e + 1) := by
      rw [unit, unitExp, hlog, max_eq_left (by omega)]
      congr 1
      omega
    apply roundAbs_of_units (k := 2 ^ 52)
    rw [hunit, zpow_add₀ (by norm_num)]
    push_cast
    ring

/-- What rounding makes is a number of 53 bits. -/
theorem significand_roundAbs {q : ℚ} (h : 0 ≤ q) : Significand (roundAbs q) := by
  have hm : 0 ≤ roundEven (q / unit q) := roundEven_nonneg (div_nonneg h (unit_pos q).le)
  refine ⟨(roundEven (q / unit q)).toNat, unitExp q, ?_, le_max_right _ _, ?_⟩
  · have hle : roundEven (q / unit q) ≤ 2 ^ 53 := by
      apply roundEven_le
      rw [div_lt_iff₀ (unit_pos q)]
      push_cast
      -- `q` is below the next power of two, which is at most `2 ^ 53` units
      calc q < ((2 : ℕ) : ℚ) ^ (Int.log 2 q + 1) := Int.lt_zpow_succ_log_self (by norm_num) q
        _ ≤ (2 : ℚ) ^ (53 + unitExp q) := by
          push_cast
          apply zpow_le_zpow_right₀ (by norm_num)
          have := le_max_left (Int.log 2 q - 52) (-1074)
          rw [unitExp]
          omega
        _ = 2 ^ 53 * unit q := by
          rw [zpow_add₀ (by norm_num), unit]
          norm_num
    omega
  · rw [← Int.cast_natCast, Int.toNat_of_nonneg hm]
    rfl

theorem round_of_nonneg {q : ℚ} (h : 0 ≤ q) : round q = roundAbs q := if_neg (not_lt.mpr h)

@[simp] theorem round_zero : round 0 = 0 := by simp [round, roundAbs, roundEven]

theorem round_neg (q : ℚ) : round (-q) = -round q := by
  rcases lt_trichotomy q 0 with h | rfl | h
  · rw [round_of_nonneg (by linarith), round, if_pos h, neg_neg]
  · rw [neg_zero, round_zero, neg_zero]
  · rw [round_of_nonneg h.le, round, if_pos (by linarith), neg_neg]

/-- Rounding a rounded number changes nothing. -/
theorem round_round (q : ℚ) : round (round q) = round q := by
  have hsplit : ∀ p : ℚ, 0 ≤ p → roundAbs (roundAbs p) = roundAbs p := fun p hp =>
    roundAbs_of_significand (significand_roundAbs hp)
  rcases le_or_gt 0 q with h | h
  · rw [round_of_nonneg h, round_of_nonneg (roundAbs_nonneg h), hsplit q h]
  · have hneg : 0 ≤ -q := by linarith
    have hround : round q = -roundAbs (-q) := if_pos h
    rw [hround, round_neg, round_of_nonneg (roundAbs_nonneg hneg), hsplit _ hneg]

/-! ## Natural numbers -/

theorem roundAbs_natCast_of_lt {n : ℕ} (h : n < 2 ^ 53) : roundAbs (n : ℚ) = n :=
  roundAbs_of_significand ⟨n, 0, h.le, by norm_num, by simp⟩

/-- The nearest multiple of a unit, as a number of units. -/
theorem roundEven_div {n u : ℕ} (hu : 0 < u) :
    roundEven ((n : ℚ) / u) * u = Double.nearestMultiple n u := by
  have hu' : (0 : ℚ) < u := by exact_mod_cast hu
  have hfloor : ⌊(n : ℚ) / u⌋ = (n / u : ℕ) := by
    rw [← Int.natCast_floor_eq_floor (div_nonneg n.cast_nonneg hu'.le), Nat.floor_div_natCast,
      Nat.floor_natCast]
  -- what is cut off, in units
  have hfract : (n : ℚ) / u - (n / u : ℕ) = (n % u : ℕ) / u := by
    rw [eq_div_iff hu'.ne', sub_mul, div_mul_cancel₀ _ hu'.ne', sub_eq_iff_eq_add]
    exact_mod_cast (Nat.mod_add_div' n u).symm
  have hlt : ((n % u : ℕ) : ℚ) / u < 1 / 2 ↔ 2 * (n % u) < u := by
    rw [div_lt_div_iff₀ hu' (by norm_num), one_mul, mul_comm]
    exact_mod_cast Iff.rfl
  have hgt : 1 / 2 < ((n % u : ℕ) : ℚ) / u ↔ u < 2 * (n % u) := by
    rw [div_lt_div_iff₀ (by norm_num) hu', one_mul, mul_comm]
    exact_mod_cast Iff.rfl
  rw [roundEven, hfloor, Double.nearestMultiple]
  simp only [Int.cast_natCast, hfract, hlt, hgt]
  split_ifs
  all_goals first
    | push_cast; rfl
    | omega

/-- On natural numbers this is the rounding of `Double`. -/
theorem round_natCast (n : ℕ) : round (n : ℚ) = Double.round n := by
  rw [round_of_nonneg n.cast_nonneg]
  rcases Nat.lt_or_ge n (2 ^ 53) with hlt | hge
  · rw [roundAbs_natCast_of_lt hlt, Double.round_of_lt hlt]
  · have hlog : 53 ≤ Nat.log2 n := (Nat.le_log2 (by omega)).mpr hge
    have hunit : unit (n : ℚ) = (Double.ulp n : ℕ) := by
      rw [unit, unitExp, Int.log_natCast, ← Nat.log2_eq_log_two, max_eq_left (by omega),
        Double.ulp]
      push_cast
      rw [← zpow_natCast]
      congr 1
      omega
    have h := @roundEven_div n _ (Double.ulp_pos n)
    rw [roundAbs, hunit, Double.round]
    exact_mod_cast h

/-- Rounding keeps a whole number when `Double` keeps its magnitude. -/
theorem round_intCast_iff {n : ℤ} :
    round (n : ℚ) = n ↔ Double.round n.natAbs = n.natAbs := by
  have hnat : ∀ k : ℕ, round (k : ℚ) = k ↔ Double.round k = k := by
    intro k
    rw [round_natCast]
    exact_mod_cast Iff.rfl
  obtain ⟨k, rfl | rfl⟩ := Int.eq_nat_or_neg n
  · simpa using hnat k
  · simpa [round_neg] using hnat k

/-! ## Doubles -/

/-- A finite double. -/
structure Finite where
  val : ℚ
  rounded : round val = val
  bounded : |val| < 2 ^ 1024
deriving DecidableEq

@[ext] theorem Finite.ext {x y : Finite} (h : x.val = y.val) : x = y := by
  cases x
  cases y
  cases h
  rfl

/-- A double from `2 ^ 53` on is a whole number. -/
theorem exists_nat_of_le (x : Finite) (h : (2 ^ 53 : ℕ) ≤ x.val) :
    ∃ n : ℕ, x.val = n ∧ Double.round n = n := by
  have hpos : 0 ≤ x.val := le_trans (Nat.cast_nonneg _) h
  have hrounded := x.rounded
  rw [round_of_nonneg hpos] at hrounded
  obtain ⟨k, e, hk, -, hval⟩ := significand_roundAbs hpos
  rw [hrounded] at hval
  -- 53 bits reach that far only with a scale of at least one
  have he : 0 ≤ e := by
    by_contra hneg
    have hlt : (2 : ℚ) ^ e < 1 := by
      rw [← zpow_zero (2 : ℚ)]
      exact zpow_lt_zpow_right₀ (by norm_num) (by omega)
    have hk' : (k : ℚ) ≤ (2 ^ 53 : ℕ) := Nat.cast_le.mpr hk
    have hprod : (k : ℚ) * 2 ^ e < (2 ^ 53 : ℕ) := by
      calc (k : ℚ) * 2 ^ e ≤ (2 ^ 53 : ℕ) * 2 ^ e :=
            mul_le_mul_of_nonneg_right hk' (zpow_nonneg (by norm_num) e)
        _ < (2 ^ 53 : ℕ) * 1 := mul_lt_mul_of_pos_left hlt (by norm_num)
        _ = (2 ^ 53 : ℕ) := mul_one _
    rw [← hval] at hprod
    exact absurd h (not_le.mpr hprod)
  obtain ⟨j, rfl⟩ := Int.eq_ofNat_of_zero_le he
  have hnat : x.val = (k * 2 ^ j : ℕ) := by
    rw [hval, zpow_natCast, Nat.cast_mul, Nat.cast_pow, Nat.cast_ofNat]
  refine ⟨k * 2 ^ j, hnat, ?_⟩
  have hround := x.rounded
  rw [hnat, round_natCast, Nat.cast_inj] at hround
  exact hround

/-- Rounding a natural number moves it past no double. -/
theorem round_le_of_le {x : Finite} {n : ℕ} (h : (n : ℚ) ≤ x.val) :
    (Double.round n : ℚ) ≤ x.val := by
  rcases Nat.lt_or_ge n (2 ^ 53) with hlt | hge
  · rwa [Double.round_of_lt hlt]
  · obtain ⟨m, hm, hround⟩ := exists_nat_of_le x (le_trans (Nat.cast_le.mpr hge) h)
    rw [hm, Nat.cast_le] at h ⊢
    rw [← hround]
    exact Double.round_mono h

theorem le_round_of_lt {x : Finite} {n : ℕ} (h : x.val < n) : x.val ≤ Double.round n := by
  rcases Nat.lt_or_ge n (2 ^ 53) with hlt | hge
  · rw [Double.round_of_lt hlt]
    exact h.le
  rcases lt_or_ge x.val ((2 ^ 53 : ℕ) : ℚ) with hsmall | hlarge
  · exact hsmall.le.trans (Nat.cast_le.mpr (Double.le_round hge))
  · obtain ⟨m, hm, hround⟩ := exists_nat_of_le x hlarge
    rw [hm, Nat.cast_lt] at h
    rw [hm, Nat.cast_le, ← hround]
    exact Double.round_mono h.le

end Binary64
