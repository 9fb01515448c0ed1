import Mathlib.Tactic.Ring
import Mathlib.Data.Nat.Log

/-!
# Whole numbers as binary64 doubles

The natural numbers a double holds exactly, the rounding of a natural number to the nearest
of them, and the natural number with the fewest significant decimal digits that rounds to a
given one, which is what a shortest decimal text shows.
-/

namespace Double

/-! ## The nearest multiple -/

/-- The multiple of `u` nearest to `n`; of two equally near ones, the even multiple. -/
def nearestMultiple (n u : ℕ) : ℕ :=
  if 2 * (n % u) < u then n / u * u
  else if u < 2 * (n % u) then (n / u + 1) * u
  else if n / u % 2 = 0 then n / u * u
  else (n / u + 1) * u

theorem nearestMultiple_eq (n u : ℕ) :
    nearestMultiple n u = n / u * u ∨ nearestMultiple n u = (n / u + 1) * u := by
  unfold nearestMultiple
  split_ifs <;> simp

theorem nearestMultiple_of_dvd {n u : ℕ} (hu : 0 < u) (h : u ∣ n) : nearestMultiple n u = n := by
  have hmod : n % u = 0 := Nat.mod_eq_zero_of_dvd h
  simp [nearestMultiple, hmod, hu, Nat.div_mul_cancel h]

/-- The nearest multiple is less than one unit away. -/
theorem nearestMultiple_near {n u : ℕ} (hu : 0 < u) :
    nearestMultiple n u ≤ n + u ∧ n ≤ nearestMultiple n u + u := by
  have hdiv : n / u * u + n % u = n := Nat.div_add_mod' n u
  have hmod : n % u < u := Nat.mod_lt n hu
  -- `omega` knows no products, so the next multiple is spelled out for it
  have hsucc : (n / u + 1) * u = n / u * u + u := by ring
  rcases nearestMultiple_eq n u with h | h <;> omega

theorem nearestMultiple_mono {a b u : ℕ} (hu : 0 < u) (h : a ≤ b) :
    nearestMultiple a u ≤ nearestMultiple b u := by
  rcases (Nat.div_le_div_right h : a / u ≤ b / u).lt_or_eq with hlt | heq
  -- a whole multiple lies between the two
  · have hle : (a / u + 1) * u ≤ b / u * u := Nat.mul_le_mul_right u hlt
    have hsucc : ∀ q : ℕ, (q + 1) * u = q * u + u := fun q => by ring
    rcases nearestMultiple_eq a u with ha | ha <;> rcases nearestMultiple_eq b u with hb | hb <;>
      grind
  -- between the same multiples, the remainders decide
  · have ha : a / u * u + a % u = a := Nat.div_add_mod' a u
    have hb : b / u * u + b % u = b := Nat.div_add_mod' b u
    have hmul : a / u * u ≤ (a / u + 1) * u := Nat.mul_le_mul_right u (Nat.le_succ _)
    rw [← heq] at hb
    unfold nearestMultiple
    rw [← heq]
    split_ifs <;> omega

/-! ## Rounding -/

/-- The distance between neighbouring doubles at `n`, for `n` at least `2 ^ 52`. -/
def ulp (n : ℕ) : ℕ := 2 ^ (Nat.log2 n - 52)

/-- The double nearest to `n`, ties to even. -/
def round (n : ℕ) : ℕ := nearestMultiple n (ulp n)

/-- A finite double holds `n` exactly. -/
def IsDouble (n : ℕ) : Prop := round n = n ∧ Nat.log2 n < 1024

instance (n : ℕ) : Decidable (IsDouble n) := inferInstanceAs (Decidable (_ ∧ _))

theorem ulp_pos (n : ℕ) : 0 < ulp n := Nat.two_pow_pos _

theorem log2_lt_of_lt {n k : ℕ} (h : n < 2 ^ (k + 1)) : Nat.log2 n ≤ k := by
  by_cases hn : n = 0
  · simp [hn]
  · have := (Nat.log2_lt hn).mpr h
    omega

theorem log2_lt_iff {n k : ℕ} (hk : 0 < k) : Nat.log2 n < k ↔ n < 2 ^ k := by
  by_cases hn : n = 0
  · simp [hn, hk]
  · exact Nat.log2_lt hn

theorem ulp_of_lt {n : ℕ} (h : n < 2 ^ 53) : ulp n = 1 := by
  have hlog : Nat.log2 n ≤ 52 := log2_lt_of_lt h
  simp [ulp, Nat.sub_eq_zero_of_le hlog]

/-- Numbers below `2 ^ 53` are not rounded. -/
theorem round_of_lt {n : ℕ} (h : n < 2 ^ 53) : round n = n := by
  rw [round, ulp_of_lt h]
  exact nearestMultiple_of_dvd Nat.one_pos (one_dvd n)

theorem isDouble_of_lt {n : ℕ} (h : n < 2 ^ 53) : IsDouble n := by
  have hlog : Nat.log2 n ≤ 52 := log2_lt_of_lt h
  exact ⟨round_of_lt h, by omega⟩

/-- A number of at least `2 ^ 53` lies between `2 ^ 52` and `2 ^ 53` of its units. -/
theorem ulp_spec {n : ℕ} (h : 2 ^ 53 ≤ n) :
    2 ≤ ulp n ∧ 2 ^ 52 * ulp n ≤ n ∧ n < 2 ^ 53 * ulp n := by
  have hn : n ≠ 0 := by omega
  have hlog : 53 ≤ Nat.log2 n := (Nat.le_log2 hn).mpr h
  have hle : 2 ^ Nat.log2 n ≤ n := Nat.log2_self_le hn
  have hlt : n < 2 ^ (Nat.log2 n + 1) := Nat.lt_log2_self
  -- at this size the exponent `log2 n - 52` is not cut off
  have hbase : 2 ^ 52 * ulp n = 2 ^ Nat.log2 n := by
    rw [ulp, ← pow_add]
    congr 1
    omega
  have htwo : 2 ^ 1 ≤ ulp n := Nat.pow_le_pow_right (by norm_num) (by omega)
  refine ⟨by simpa using htwo, by omega, ?_⟩
  rw [pow_succ] at hlt
  omega

/-- The quotient of the rounded number by the unit. -/
theorem round_quotient {n : ℕ} (h : 2 ^ 53 ≤ n) :
    ∃ q, round n = q * ulp n ∧ 2 ^ 52 ≤ q ∧ q ≤ 2 ^ 53 := by
  obtain ⟨_, hlo, hhi⟩ := ulp_spec h
  have hqlo : 2 ^ 52 ≤ n / ulp n := (Nat.le_div_iff_mul_le (ulp_pos n)).mpr hlo
  have hqhi : n / ulp n < 2 ^ 53 := (Nat.div_lt_iff_lt_mul (ulp_pos n)).mpr hhi
  rcases nearestMultiple_eq n (ulp n) with h | h
  · exact ⟨_, h, hqlo, by omega⟩
  · exact ⟨_, h, by omega, by omega⟩

theorem le_round {n : ℕ} (h : 2 ^ 53 ≤ n) : 2 ^ 53 ≤ round n := by
  obtain ⟨q, hq, hlo, _⟩ := round_quotient h
  have htwo := (ulp_spec h).1
  calc 2 ^ 53 = 2 ^ 52 * 2 := by norm_num
    _ ≤ q * ulp n := Nat.mul_le_mul hlo htwo
    _ = round n := hq.symm

/-- A multiple of `2 ^ e` with a quotient of 53 bits has a unit that divides it. -/
theorem ulp_dvd {q e : ℕ} (hlo : 2 ^ 52 ≤ q) (hhi : q ≤ 2 ^ 53) :
    ulp (q * 2 ^ e) ∣ q * 2 ^ e := by
  have hq : q ≠ 0 := by omega
  rcases hhi.lt_or_eq with hlt | rfl
  -- the unit is at most `2 ^ e`, which divides the product
  · have hlog : Nat.log2 (q * 2 ^ e) ≤ 52 + e := by
      apply log2_lt_of_lt
      calc q * 2 ^ e < 2 ^ 53 * 2 ^ e := Nat.mul_lt_mul_of_pos_right hlt (Nat.two_pow_pos e)
        _ = 2 ^ (52 + e + 1) := by ring
    exact (Nat.pow_dvd_pow 2 (by omega)).trans (Nat.dvd_mul_left _ q)
  -- rounded up to a power of two, whose unit is one step larger
  · have hlog : Nat.log2 (2 ^ 53 * 2 ^ e) ≤ 53 + e := by
      apply log2_lt_of_lt
      rw [← pow_add]
      exact Nat.pow_lt_pow_right (by norm_num) (by omega)
    rw [← pow_add]
    rw [← pow_add] at hlog
    exact Nat.pow_dvd_pow 2 (by omega)

/-- Rounding a rounded number changes nothing. -/
theorem round_round (n : ℕ) : round (round n) = round n := by
  rcases Nat.lt_or_ge n (2 ^ 53) with h | h
  · rw [round_of_lt h, round_of_lt h]
  · obtain ⟨q, hq, hlo, hhi⟩ := round_quotient h
    -- the rounded number is a multiple of its own unit too, even if it reached a power of two
    have hdvd : ulp (round n) ∣ round n := by
      rw [hq]
      exact ulp_dvd hlo hhi
    exact nearestMultiple_of_dvd (ulp_pos _) hdvd

theorem isDouble_round {n : ℕ} (h : Nat.log2 (round n) < 1024) : IsDouble (round n) :=
  ⟨round_round n, h⟩

/-- Rounding moves a number by a small part of it only. -/
theorem round_near (n : ℕ) : 64 * round n ≤ 65 * n ∧ 63 * n ≤ 64 * round n := by
  rcases Nat.lt_or_ge n (2 ^ 53) with h | h
  · rw [round_of_lt h]
    omega
  · obtain ⟨hle, hge⟩ := @nearestMultiple_near n _ (ulp_pos n)
    have hunit := (ulp_spec h).2.1
    rw [round]
    omega

/-- Rounding goes below no power of two. -/
theorem two_pow_le_round {n k : ℕ} (h : 2 ^ k ≤ n) : 2 ^ k ≤ round n := by
  rcases Nat.lt_or_ge n (2 ^ 53) with hlt | hge
  · rwa [round_of_lt hlt]
  · obtain ⟨q, hq, hlo, -⟩ := round_quotient hge
    have hn : n ≠ 0 := by omega
    have hk : k ≤ Nat.log2 n := (Nat.le_log2 hn).mpr h
    have hlog : 53 ≤ Nat.log2 n := (Nat.le_log2 hn).mpr hge
    calc 2 ^ k ≤ 2 ^ (52 + (Nat.log2 n - 52)) := Nat.pow_le_pow_right (by norm_num) (by omega)
      _ = 2 ^ 52 * ulp n := by rw [pow_add, ulp]
      _ ≤ q * ulp n := Nat.mul_le_mul_right _ hlo
      _ = round n := hq.symm

/-- Nor above one. -/
theorem round_le_two_pow {n k : ℕ} (h : n < 2 ^ k) : round n ≤ 2 ^ k := by
  rcases Nat.lt_or_ge n (2 ^ 53) with hlt | hge
  · rw [round_of_lt hlt]
    omega
  · obtain ⟨q, hq, -, hhi⟩ := round_quotient hge
    have hn : n ≠ 0 := by omega
    have hk : Nat.log2 n < k := (Nat.log2_lt hn).mpr h
    have hlog : 53 ≤ Nat.log2 n := (Nat.le_log2 hn).mpr hge
    calc round n = q * ulp n := hq
      _ ≤ 2 ^ 53 * ulp n := Nat.mul_le_mul_right _ hhi
      _ = 2 ^ (53 + (Nat.log2 n - 52)) := by rw [pow_add, ulp]
      _ ≤ 2 ^ k := Nat.pow_le_pow_right (by norm_num) (by omega)

/-- Rounding keeps the order. -/
theorem round_mono {a b : ℕ} (h : a ≤ b) : round a ≤ round b := by
  by_cases hzero : a = 0
  · rw [hzero, round_of_lt (by norm_num)]
    exact Nat.zero_le _
  have hne : b ≠ 0 := by omega
  have hle : Nat.log2 a ≤ Nat.log2 b := (Nat.le_log2 hne).mpr ((Nat.log2_self_le hzero).trans h)
  rcases hle.lt_or_eq with hlt | heq
  · calc round a ≤ 2 ^ Nat.log2 b := round_le_two_pow ((Nat.log2_lt hzero).mp hlt)
      _ ≤ round b := two_pow_le_round (Nat.log2_self_le hne)
  · have hulp : ulp a = ulp b := by rw [ulp, ulp, heq]
    rw [round, round, hulp]
    exact nearestMultiple_mono (ulp_pos b) h

/-- A number much smaller than a double is lost when it is added to it. -/
theorem round_add_of_small {a b : ℕ} (hb : round b = b) (h : 2 * a < ulp b) :
    round (a + b) = b := by
  rcases Nat.lt_or_ge b (2 ^ 53) with hlt | hge
  · rw [ulp_of_lt hlt] at h
    obtain rfl : a = 0 := by omega
    rw [Nat.zero_add, hb]
  have hdvd : ulp b ∣ b := by
    obtain ⟨q, hq, -⟩ := round_quotient hge
    exact ⟨q, by rw [Nat.mul_comm, ← hq, hb]⟩
  obtain ⟨q, hq⟩ := hdvd
  have hne : b ≠ 0 := by omega
  -- the sum has the exponent of `b`, since the next power of two is a multiple of the unit too
  have hnext : b + ulp b ≤ 2 ^ (Nat.log2 b + 1) := by
    have hlog : 53 ≤ Nat.log2 b := (Nat.le_log2 hne).mpr hge
    have hpow : 2 ^ (Nat.log2 b + 1) = ulp b * 2 ^ 53 := by
      rw [ulp, ← pow_add]
      congr 1
      omega
    have hq53 : q < 2 ^ 53 := by
      have hlt : ulp b * q < ulp b * 2 ^ 53 := by
        rw [← hq, ← hpow]
        exact Nat.lt_log2_self
      exact Nat.lt_of_mul_lt_mul_left hlt
    calc b + ulp b = ulp b * (q + 1) := by rw [Nat.mul_add, ← hq, Nat.mul_one]
      _ ≤ ulp b * 2 ^ 53 := Nat.mul_le_mul_left _ hq53
      _ = 2 ^ (Nat.log2 b + 1) := hpow.symm
  have hlog : Nat.log2 (a + b) = Nat.log2 b := by
    have hle := Nat.log2_self_le hne
    rw [Nat.log2_eq_iff (by omega)]
    omega
  have hulp : ulp (a + b) = ulp b := by rw [ulp, ulp, hlog]
  have hmod : (a + b) % ulp b = a := by
    have hzero : b % ulp b = 0 := Nat.mod_eq_zero_of_dvd ⟨q, hq⟩
    rw [Nat.add_mod, hzero, Nat.add_zero, Nat.mod_mod, Nat.mod_eq_of_lt (by omega)]
  have hdiv : (a + b) / ulp b * ulp b = b := by
    have hsplit := Nat.div_add_mod' (a + b) (ulp b)
    omega
  rw [round, hulp, nearestMultiple, hmod, if_pos h, hdiv]

/-! ## The shortest decimal -/

/-- The multiples of `10 ^ z` next to `n` that round to `n`: the nearer one, and of two
equally near ones the even multiple. -/
def decimalNear (n z : ℕ) : Option ℕ :=
  let low := n / 10 ^ z * 10 ^ z
  let high := (n / 10 ^ z + 1) * 10 ^ z
  if round low = n then
    if round high = n then some (nearestMultiple n (10 ^ z)) else some low
  else if round high = n then some high
  else none

/-- The search for the largest power of ten, from `10 ^ z` down. -/
def shortestFrom (n : ℕ) : ℕ → ℕ
  | 0 => n
  | z + 1 => (decimalNear n (z + 1)).getD (shortestFrom n z)

/-- The number with the fewest significant digits that rounds to the double `n`, the nearest
one to `n` among them. -/
def shortest (n : ℕ) : ℕ := shortestFrom n (Nat.toDigits 10 n).length

theorem round_decimalNear {n z m : ℕ} (h : decimalNear n z = some m) : round m = n := by
  simp only [decimalNear] at h
  split_ifs at h with hlow hhigh hhigh
  · cases h
    rcases nearestMultiple_eq n (10 ^ z) with heq | heq
    · rw [heq, hlow]
    · rw [heq, hhigh]
  · cases h
    exact hlow
  · cases h
    exact hhigh

theorem round_shortestFrom {n : ℕ} (hn : round n = n) (z : ℕ) : round (shortestFrom n z) = n := by
  induction z with
  | zero => exact hn
  | succ z ih =>
    rw [shortestFrom]
    cases h : decimalNear n (z + 1) with
    | none => exact ih
    | some m => exact round_decimalNear h

/-- The shortest decimal reads back to the double it was made for. -/
theorem round_shortest {n : ℕ} (hn : round n = n) : round (shortest n) = n :=
  round_shortestFrom hn _

/-- Below `2 ^ 53` every digit is shown. -/
theorem shortest_of_lt {n : ℕ} (h : n < 2 ^ 53) : shortest n = n := by
  have hround := round_shortest (round_of_lt h)
  rcases Nat.lt_or_ge (shortest n) (2 ^ 53) with hs | hs
  · rwa [round_of_lt hs] at hround
  -- a shortest decimal from `2 ^ 53` on would round to a number from `2 ^ 53` on
  · have := le_round hs
    omega

/-- A shortest decimal is close to its double. -/
theorem shortest_near {n : ℕ} (hn : round n = n) :
    64 * n ≤ 65 * shortest n ∧ 63 * shortest n ≤ 64 * n := by
  have h := round_near (shortest n)
  rwa [round_shortest hn] at h

example : shortest (2 ^ 60) = 1152921504606847000 := by decide +kernel

end Double
