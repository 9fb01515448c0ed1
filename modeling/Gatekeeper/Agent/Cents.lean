import Mathlib.Algebra.Order.Floor.Div
import Gatekeeper.Agent.X402
import Gatekeeper.Lib.JsValueTheorems

/-!
# Cents and token units

The mandate is shown a price in whole cents, at the decimals a server declares; the signature
moves token units, at the decimals the token has. `covers_iff` says when the one covers the
other.
-/

namespace Gatekeeper.Agent

open Js

/-! ## Rounding up -/

section Cents

variable {atomic perCent : ℕ}

theorem wholeCents_le_iff (hp : 0 < perCent) {k : ℕ} :
    wholeCents atomic perCent ≤ k ↔ atomic ≤ k * perCent := by
  rw [wholeCents, ← Nat.ceilDiv_eq_add_pred_div, ceilDiv_le_iff_le_mul hp, Nat.mul_comm]

theorem le_wholeCents_mul (hp : 0 < perCent) : atomic ≤ wholeCents atomic perCent * perCent :=
  (wholeCents_le_iff hp).mp le_rfl

theorem wholeCents_mul_lt (hp : 0 < perCent) :
    wholeCents atomic perCent * perCent < atomic + perCent := by
  have h : wholeCents atomic perCent * perCent ≤ atomic + perCent - 1 := Nat.div_mul_le_self _ _
  omega

end Cents

/-! ## The price of a requirement -/

theorem two_le_of_declaredDecimals {decimals : Value} {d : ℕ}
    (h : declaredDecimals decimals = some d) : 2 ≤ d := by
  unfold declaredDecimals at h
  split at h
  · split_ifs at h
    cases h
    omega
  · cases h

/-- A price is computed from a big integer that is not negative, at declared decimals. -/
theorem amountToCents_spec {P : Platform} {amount decimals : Value} {cents : Number}
    (h : amountToCents P amount decimals = .ok cents) :
    ∃ d price : ℕ, declaredDecimals decimals = some d ∧ amount.toBigInt = .ok (price : ℤ) ∧
      cents = Number.ofNat (wholeCents price (10 ^ (d - 2))) := by
  rw [amountToCents] at h
  split at h
  · obtain ⟨_, _, h⟩ := bind_eq_ok.mp h
    cases h
  -- a negative amount and an exponent past the engine's limit both throw
  · rename_i d hd
    obtain ⟨atomic, hatomic, h⟩ := bind_eq_ok.mp h
    split_ifs at h with hneg
    obtain ⟨perCent, hpow, h⟩ := bind_eq_ok.mp h
    rw [pow10] at hpow
    split_ifs at hpow
    cases hpow
    cases h
    exact ⟨d, atomic.toNat, hd, by rw [hatomic, Int.toNat_of_nonneg (by omega)], rfl⟩

/-- The price in an action that the caller gives no decimals for. -/
theorem actionForRequirement_spec {P : Platform} {requirement : Value} {action : PayAction}
    (h : actionForRequirement P requirement .undefined = .ok action) :
    ∃ d price : ℕ, declaredDecimals ((requirement.get? "extra").get? "decimals") = some d ∧
      (requirement.get "amount" >>= Value.toBigInt) = .ok (price : ℤ) ∧
      action.amountCents = Number.ofNat (wholeCents price (10 ^ (d - 2))) ∧
      requirement.get "payTo" = .ok action.counterparty := by
  obtain ⟨amount, hamount, h⟩ := bind_eq_ok.mp h
  obtain ⟨cents, hcents, h⟩ := bind_eq_ok.mp h
  obtain ⟨payTo, hpayTo, h⟩ := bind_eq_ok.mp h
  cases h
  obtain ⟨d, price, hd, hprice, rfl⟩ := amountToCents_spec hcents
  exact ⟨d, price, hd, bind_eq_ok.mpr ⟨amount, hamount, hprice⟩, rfl, hpayTo⟩

/-! ## Two scales -/

section Covers

variable {value price d D : ℕ}

/-- The cents the gate reads for a price in units of `perCent`. -/
def shownCents (price perCent : ℕ) : ℕ := printed (wholeCents price perCent)

theorem one_le_shownCents {perCent : ℕ} (hp : 0 < perCent) (h : 0 < price) :
    1 ≤ shownCents price perCent := by
  have hle := @le_wholeCents_mul price perCent hp
  have hpos : 0 < wholeCents price perCent := by
    rcases Nat.eq_zero_or_pos (wholeCents price perCent) with h0 | h0
    · rw [h0, Nat.zero_mul] at hle
      omega
    · exact h0
  have hnear := (near_printed (wholeCents price perCent)).2
  rw [shownCents]
  omega

/-- A value of at most one real cent is covered by any price. -/
theorem covers_of_le_cent {perCent unit : ℕ} (hp : 0 < perCent) (hnear : Near value price)
    (h : value ≤ unit) : value ≤ shownCents price perCent * unit := by
  rcases Nat.eq_zero_or_pos value with rfl | hvalue
  · exact Nat.zero_le _
  · have hprice : 0 < price := by
      have := hnear.1
      omega
    calc value ≤ 1 * unit := by omega
      _ ≤ shownCents price perCent * unit :=
        Nat.mul_le_mul_right _ (one_le_shownCents hp hprice)

/-- Where fewer decimals are declared than the asset has, the mandate sees ten times the
value or more. -/
theorem covers_of_lt {perCent k : ℕ} (hp : 0 < perCent) (hk : 10 ≤ k) (hnear : Near value price) :
    value ≤ shownCents price perCent * (perCent * k) := by
  have hprice := @le_wholeCents_mul price perCent hp
  have hshown := (near_printed (wholeCents price perCent)).2
  have hvalue := hnear.1
  -- the rounding of the price costs less than the factor of ten gains
  have hscaled : 63 * (wholeCents price perCent * perCent) ≤
      65 * (shownCents price perCent * perCent) := by
    calc 63 * (wholeCents price perCent * perCent)
        = 63 * wholeCents price perCent * perCent := by ring
      _ ≤ 65 * shownCents price perCent * perCent := Nat.mul_le_mul_right _ hshown
      _ = 65 * (shownCents price perCent * perCent) := by ring
  have htimes : 10 * (shownCents price perCent * perCent) ≤
      shownCents price perCent * (perCent * k) := by
    calc 10 * (shownCents price perCent * perCent)
        ≤ k * (shownCents price perCent * perCent) := Nat.mul_le_mul_right _ hk
      _ = shownCents price perCent * (perCent * k) := by ring
  omega

/-- Where more decimals are declared than the asset has, a value of more than one real cent
is not covered. -/
theorem not_covers_of_lt {unit k : ℕ} (hu : 0 < unit) (hk : 10 ≤ k) (hnear : Near value price)
    (h : unit < value) : shownCents price (unit * k) * unit < value := by
  have hp : 0 < unit * k := Nat.mul_pos hu (by omega)
  have hshown := (near_printed (wholeCents price (unit * k))).1
  have hvalue := hnear.2
  rcases Nat.lt_or_ge (unit * k) price with hlt | hle
  · have hcents := @wholeCents_mul_lt price (unit * k) hp
    -- past one declared cent the factor of ten outweighs rounding up and printing
    have hscaled : 63 * (shownCents price (unit * k) * unit) ≤
        65 * (wholeCents price (unit * k) * unit) := by
      calc 63 * (shownCents price (unit * k) * unit)
          = 63 * shownCents price (unit * k) * unit := by ring
        _ ≤ 65 * wholeCents price (unit * k) * unit := Nat.mul_le_mul_right _ hshown
        _ = 65 * (wholeCents price (unit * k) * unit) := by ring
    have htimes : 10 * (wholeCents price (unit * k) * unit) ≤
        wholeCents price (unit * k) * (unit * k) := by
      calc 10 * (wholeCents price (unit * k) * unit)
          ≤ k * (wholeCents price (unit * k) * unit) := Nat.mul_le_mul_right _ hk
        _ = wholeCents price (unit * k) * (unit * k) := by ring
    omega
  -- up to one declared cent the gate sees one cent, and the value is more than one real cent
  · have hone : wholeCents price (unit * k) ≤ 1 := (wholeCents_le_iff hp).mpr (by omega)
    have hshown' : shownCents price (unit * k) ≤ 1 := by
      rw [shownCents]
      omega
    calc shownCents price (unit * k) * unit ≤ 1 * unit := Nat.mul_le_mul_right _ hshown'
      _ < value := by omega

/-- When the cents the gate reads at `d` declared decimals cover a value at `D` real ones. -/
theorem covers_iff (hd : 2 ≤ d) (hD : 2 ≤ D) (hnear : Near value price) :
    value ≤ shownCents price (10 ^ (d - 2)) * 10 ^ (D - 2) ↔
      value ≤ 10 ^ (D - 2) ∨ d < D ∨
        (d = D ∧ wholeCents value (10 ^ (d - 2)) ≤ shownCents price (10 ^ (d - 2))) := by
  have hunit : 0 < 10 ^ (D - 2) := Nat.pow_pos (by norm_num)
  have hp : 0 < 10 ^ (d - 2) := Nat.pow_pos (by norm_num)
  -- one decimal of difference is a factor of ten at least
  have hten : ∀ a b : ℕ, 2 ≤ a → a < b → ∃ k, 10 ≤ k ∧ 10 ^ (b - 2) = 10 ^ (a - 2) * k := by
    intro a b ha hab
    refine ⟨10 ^ (b - a), ?_, ?_⟩
    · calc 10 = 10 ^ 1 := (pow_one 10).symm
        _ ≤ 10 ^ (b - a) := Nat.pow_le_pow_right (by norm_num) (by omega)
    · rw [← pow_add]
      congr 1
      omega
  constructor
  · intro h
    rcases Nat.lt_or_ge (10 ^ (D - 2)) value with hlt | hle
    · rcases Nat.lt_trichotomy d D with hdD | rfl | hDd
      · exact .inr (.inl hdD)
      · exact .inr (.inr ⟨rfl, (wholeCents_le_iff hp).mpr h⟩)
      · obtain ⟨k, hk, hpow⟩ := hten D d hD hDd
        rw [hpow] at h
        have := not_covers_of_lt hunit hk hnear hlt
        omega
    · exact .inl hle
  · rintro (h | h | ⟨rfl, h⟩)
    · exact covers_of_le_cent hp hnear h
    · obtain ⟨k, hk, hpow⟩ := hten d D hd h
      rw [hpow]
      exact covers_of_lt hp hk hnear
    · exact (wholeCents_le_iff hp).mp h

end Covers

end Gatekeeper.Agent
