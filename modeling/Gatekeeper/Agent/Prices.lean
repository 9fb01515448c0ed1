import Gatekeeper.Agent.Cents
import Gatekeeper.Agent.SamplePaywall

/-!
# The price the gate is shown

`amountToCents` divides exactly and rounds up, but hands over a double. The gate reads the
digits that double is printed with: all of them below `2 ^ 53`, none from `2 ^ 64 - 1024` on,
and in between a number that may be smaller than the price.
-/

namespace Gatekeeper.Agent

open Js

/-! ## Prices the gate cannot read -/

theorem shortest_two_pow_64 : Double.shortest (2 ^ 64) = 18446744073709552000 := by
  decide +kernel

/-- A double below `2 ^ 64` is not printed as more. -/
theorem shortest_lt_of_lt {x : ℕ} (hx : Double.round x = x) (h : x < 2 ^ 64) :
    Double.shortest x < 2 ^ 64 := by
  by_contra hge
  have hround : 2 ^ 64 ≤ Double.round (Double.shortest x) :=
    Double.two_pow_le_round (Nat.le_of_not_lt hge)
  rw [Double.round_shortest hx] at hround
  omega

/-- Nor a double from `2 ^ 64` on as less. -/
theorem le_shortest_of_le {x : ℕ} (hx : Double.round x = x) (h : 2 ^ 64 ≤ x) :
    2 ^ 64 ≤ Double.shortest x := by
  by_contra hlt
  have hround : Double.round (Double.shortest x) ≤ 2 ^ 64 :=
    Double.round_le_two_pow (Nat.lt_of_not_le hlt)
  rw [Double.round_shortest hx] at hround
  -- the one double left is `2 ^ 64` itself, which is printed as more
  obtain rfl : x = 2 ^ 64 := by omega
  rw [shortest_two_pow_64] at hlt
  omega

/-- The doubles next below `2 ^ 64` are 2048 apart. -/
theorem two_pow_64_le_round_iff {c : ℕ} : 2 ^ 64 ≤ Double.round c ↔ 2 ^ 64 - 1024 ≤ c := by
  rcases Nat.lt_or_ge c (2 ^ 63) with hlt | hge
  · have hround := Double.round_le_two_pow hlt
    omega
  rcases Nat.lt_or_ge c (2 ^ 64) with hlt | hge'
  · have hlog : Nat.log2 c = 63 := by
      have hc : c ≠ 0 := by omega
      have hle : 63 ≤ Nat.log2 c := (Nat.le_log2 hc).mpr hge
      have hlt' : Nat.log2 c < 64 := (Nat.log2_lt hc).mpr hlt
      omega
    rw [Double.round, Double.ulp, hlog]
    unfold Double.nearestMultiple
    split_ifs <;> omega
  · have hround := Double.two_pow_le_round hge'
    omega

theorem two_pow_64_le_printed_iff {c : ℕ} : 2 ^ 64 ≤ printed c ↔ 2 ^ 64 - 1024 ≤ c := by
  rw [← two_pow_64_le_round_iff, printed]
  constructor
  · intro h
    by_contra hlt
    have hshort := shortest_lt_of_lt (Double.round_round c) (Nat.lt_of_not_le hlt)
    omega
  · exact le_shortest_of_le (Double.round_round c)

/-- What the gate reads for a number of cents: the printed number, below `2 ^ 64 - 1024`. -/
theorem jsonU64_ofNat_iff {c : ℕ} {u : UInt64} :
    jsonU64 (Number.ofNat c) = some u ↔ c < 2 ^ 64 - 1024 ∧ u.toNat = printed c := by
  constructor
  · intro h
    have hu := jsonU64_ofNat h
    refine ⟨?_, hu⟩
    by_contra hge
    have hle := two_pow_64_le_printed_iff.mpr (Nat.le_of_not_lt hge)
    have hlt := u.toNat_lt
    omega
  · rintro ⟨hc, hu⟩
    have hround : Double.round c < 2 ^ 64 := by
      by_contra hge
      have := two_pow_64_le_round_iff.mp (Nat.le_of_not_lt hge)
      omega
    have hshort : Double.shortest (Double.round c) < 2 ^ 64 :=
      shortest_lt_of_lt (Double.round_round c) hround
    have hlog : Nat.log2 (Double.round c) < 1024 := by
      have := Double.log2_lt_of_lt (k := 63) hround
      omega
    rw [Number.ofNat, dif_pos hlog, jsonU64,
      if_pos ⟨by simp, by simp; omega, by simpa using hshort⟩]
    have hof : UInt64.ofNat (Double.shortest (Double.round c)) = u := by
      apply UInt64.toNat_inj.mp
      rw [UInt64.toNat_ofNat_of_lt' hshort, hu, printed]
    simpa using hof

/-- A number of cents is read as it is, or not at all, unless it lies in between and is printed
as another. -/
theorem shown_eq_iff {c : ℕ} :
    (∀ u, jsonU64 (Number.ofNat c) = some u → u.toNat = c) ↔
      2 ^ 64 - 1024 ≤ c ∨ c < 2 ^ 53 ∨ printed c = c := by
  simp only [jsonU64_ofNat_iff]
  constructor
  · intro h
    rcases Nat.lt_or_ge c (2 ^ 64 - 1024) with hlt | hge
    · have hfits : printed c < 2 ^ 64 := by
        by_contra hge
        have := two_pow_64_le_printed_iff.mp (Nat.le_of_not_lt hge)
        omega
      have hu : (UInt64.ofNat (printed c)).toNat = printed c := UInt64.toNat_ofNat_of_lt' hfits
      have hshown := h (UInt64.ofNat (printed c)) ⟨hlt, hu⟩
      exact .inr (.inr (hu.symm.trans hshown))
    · exact .inl hge
  · rintro h u ⟨hlt, hu⟩
    rw [hu]
    rcases h with hge | hsmall | hshort
    · omega
    · exact printed_of_lt hsmall
    · exact hshort

/-! ## The least number of cents -/

theorem isLeast_wholeCents {atomic perCent : ℕ} (hp : 0 < perCent) :
    IsLeast {c | atomic ≤ c * perCent} (wholeCents atomic perCent) :=
  ⟨le_wholeCents_mul hp, fun _ hc => (wholeCents_le_iff hp).mpr hc⟩

/-- `amountToCents` of an integer at integer decimals. -/
theorem amountToCents_integer (P : Platform) {amount : Value} {a : ℕ} {w : Whole}
    (ha : amount.toBigInt = .ok (a : ℤ)) (hw : 2 ≤ w.val) :
    amountToCents P amount (.number (.whole w)) =
      (pow10 P (w.val.toNat - 2)).map fun perCent => Number.ofNat (wholeCents a perCent) := by
  have hd : declaredDecimals (.number (.whole w)) = some w.val.toNat := if_neg (by omega)
  have hneg : ¬ (a : ℤ) < 0 := by omega
  rw [amountToCents, hd]
  simp only [ha, bind, Except.bind, hneg, if_false, Int.toNat_natCast]
  cases pow10 P (w.val.toNat - 2) <;> rfl

/-- The prices that reach the gate as they are, or not at all: those past the engine's or the
gate's limit, and those that are the shortest decimal of their double, as all below `2 ^ 53`
are. -/
def ShownOrRefused (P : Platform) (a d : ℕ) : Prop :=
  P.maxPow < d - 2 ∨ 2 ^ 64 - 1024 ≤ wholeCents a (10 ^ (d - 2)) ∨
    wholeCents a (10 ^ (d - 2)) < 2 ^ 53 ∨
    Double.shortest (Double.round (wholeCents a (10 ^ (d - 2)))) = wholeCents a (10 ^ (d - 2))

/-- The gate reads the least whole price that covers the amount, or nothing. -/
theorem price_shown_iff (P : Platform) {amount : Value} {a : ℕ} {w : Whole}
    (ha : amount.toBigInt = .ok (a : ℤ)) (hw : 2 ≤ w.val) :
    (∀ cents u, amountToCents P amount (.number (.whole w)) = .ok cents →
      jsonU64 cents = some u → IsLeast {c | a ≤ c * 10 ^ (w.val.toNat - 2)} u.toNat) ↔
    ShownOrRefused P a w.val.toNat := by
  rw [amountToCents_integer P ha hw, ShownOrRefused, pow10]
  by_cases hpow : w.val.toNat - 2 ≤ P.maxPow
  · have hleast := @isLeast_wholeCents a (10 ^ (w.val.toNat - 2)) (Nat.pow_pos (by norm_num))
    rw [if_pos hpow, or_iff_right (Nat.not_lt.mpr hpow), ← printed, ← shown_eq_iff]
    constructor
    · intro h u hu
      exact (h _ u rfl hu).unique hleast
    · rintro h cents u ⟨⟩ hu
      rw [h u hu]
      exact hleast
  · rw [if_neg hpow]
    constructor
    · exact fun _ => .inl (Nat.lt_of_not_le hpow)
    · rintro - cents u ⟨⟩

def sixDecimals : Whole := ⟨6, by decide⟩

/-- A price of just under two dollars, at the six decimals of the token. -/
theorem price_shown_usdc :
    amountToCents samplePlatform (.string "1999999") (.number (.whole sixDecimals)) =
      .ok (Number.ofNat 200) ∧
    IsLeast {c : ℕ | 1999999 ≤ c * 10 ^ 4} 200 := by
  have hamount : (Value.string "1999999").toBigInt = .ok ((1999999 : ℕ) : ℤ) := by decide
  have hcents : amountToCents samplePlatform (.string "1999999") (.number (.whole sixDecimals)) =
      .ok (Number.ofNat 200) := by
    rw [amountToCents_integer samplePlatform hamount (by decide)]
    rfl
  have hread : jsonU64 (Number.ofNat 200) = some 200 :=
    jsonU64_ofNat_iff.mpr ⟨by decide, (printed_of_lt (by decide)).symm⟩
  have hshown : ShownOrRefused samplePlatform 1999999 sixDecimals.val.toNat :=
    .inr (.inr (.inl (by decide)))
  exact ⟨hcents, (price_shown_iff samplePlatform hamount (by decide)).mpr hshown _ 200 hcents hread⟩

def twoDecimals : Whole := ⟨2, by decide⟩

/-- A price of `2 ^ 53 + 1` cents is shown to the gate one cent too low. -/
theorem price_shown_smaller :
    ¬ ∀ (P : Platform) (amount : Value) (a : ℕ) (w : Whole), amount.toBigInt = .ok (a : ℤ) →
      2 ≤ w.val → ∀ cents u, amountToCents P amount (.number (.whole w)) = .ok cents →
      jsonU64 cents = some u → IsLeast {c | a ≤ c * 10 ^ (w.val.toNat - 2)} u.toNat := by
  intro h
  have hamount : (Value.string "9007199254740993").toBigInt = .ok ((9007199254740993 : ℕ) : ℤ) := by
    decide
  have hcents : amountToCents samplePlatform (.string "9007199254740993")
      (.number (.whole twoDecimals)) = .ok (Number.ofNat 9007199254740993) := by
    rw [amountToCents_integer samplePlatform hamount (by decide)]
    rfl
  have hprinted : printed 9007199254740993 = 9007199254740992 := by decide +kernel
  have hread : jsonU64 (Number.ofNat 9007199254740993) = some 9007199254740992 :=
    jsonU64_ofNat_iff.mpr ⟨by decide, hprinted.symm⟩
  have hleast := h samplePlatform _ _ twoDecimals hamount (by decide) _ _ hcents hread
  exact absurd hleast.1 (by decide)

end Gatekeeper.Agent
