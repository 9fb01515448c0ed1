import Gatekeeper.Lib.NumberText

/-!
# Texts of whole numbers

The text of a whole double by the search for the shortest digits of a rational number is the one
by the search for the shortest whole number: seventeen digits tell a double.
-/

namespace Double

/-! ## Seventeen digits -/

theorem nearestMultiple_sub {a b u : ℕ} (hu : u ∣ b) (h : 2 * a < u) (hab : a ≤ b) :
    nearestMultiple (b - a) u = b := by
  obtain ⟨q, rfl⟩ := hu
  rcases Nat.eq_zero_or_pos a with rfl | ha
  · exact nearestMultiple_of_dvd (by omega) (dvd_mul_right u q)
  obtain ⟨p, rfl⟩ : ∃ p, q = p + 1 := by
    cases q with
    | zero => omega
    | succ p => exact ⟨p, rfl⟩
  have hsub : u * (p + 1) - a = u - a + u * p := by
    rw [Nat.mul_add, Nat.mul_one]
    omega
  have hmod : (u - a + u * p) % u = u - a := by
    rw [Nat.add_mul_mod_self_left, Nat.mod_eq_of_lt (by omega)]
  have hdiv : (u - a + u * p) / u = p := by
    rw [Nat.add_mul_div_left _ _ (by omega), Nat.div_eq_of_lt (by omega), Nat.zero_add]
  rw [hsub, nearestMultiple, hmod, hdiv, if_neg (by omega), if_pos (by omega), Nat.mul_comm]

theorem ulp_dvd_self {b : ℕ} (hb : round b = b) (h : 2 ^ 53 ≤ b) : ulp b ∣ b := by
  obtain ⟨q, hq, -⟩ := round_quotient h
  exact ⟨q, by rw [Nat.mul_comm, ← hq, hb]⟩

/-- A number much smaller than a double is lost when it is taken from it. -/
theorem round_sub_of_small {a b : ℕ} (hb : round b = b) (h : 2 ^ 54 * a < b) :
    round (b - a) = b := by
  rcases Nat.eq_zero_or_pos a with rfl | ha
  · exact hb
  have hlarge : 2 ^ 53 ≤ b := by omega
  have hne : b ≠ 0 := by omega
  have hdvd := ulp_dvd_self hb hlarge
  have hle := Nat.log2_self_le hne
  have hlt := @Nat.lt_log2_self b
  have hlog : 53 ≤ Nat.log2 b := (Nat.le_log2 hne).mpr hlarge
  obtain ⟨e, he⟩ : ∃ e, Nat.log2 b = e + 53 := ⟨Nat.log2 b - 53, by omega⟩
  have hulp : ulp b = 2 * 2 ^ e := by
    rw [ulp, he, ← pow_succ']
    congr 1
  rw [he] at hle hlt
  have hpow : 2 ^ (e + 53) = 2 ^ 53 * 2 ^ e := by rw [pow_add, Nat.mul_comm]
  have hpow' : 2 ^ (e + 53 + 1) = 2 ^ 54 * 2 ^ e := by
    rw [pow_succ, hpow, Nat.mul_comm, ← Nat.mul_assoc]
    rfl
  rcases Nat.lt_or_ge (b - a) (2 ^ (e + 53)) with hc | hc
  -- below a power of two the unit is half as large
  · have hpower : b - 2 ^ (e + 53) = 0 := by
      refine Nat.eq_zero_of_dvd_of_lt (Nat.dvd_sub hdvd ?_) (show _ < ulp b by omega)
      rw [hulp, hpow]
      exact Nat.mul_dvd_mul_right (by decide) _
    have hhalf : 2 ^ (e + 53) = 2 * 2 ^ (e + 52) := pow_succ' 2 (e + 52)
    have hlog' : Nat.log2 (b - a) = e + 52 := by
      rw [Nat.log2_eq_iff (by omega)]
      omega
    have hulp' : ulp (b - a) = 2 ^ e := by
      rw [ulp, hlog', Nat.add_sub_cancel]
    rw [round, hulp']
    refine nearestMultiple_sub ?_ (by omega) (by omega)
    exact (Dvd.intro_left 2 hulp.symm).trans hdvd
  · have hlog' : Nat.log2 (b - a) = e + 53 := by
      rw [Nat.log2_eq_iff (by omega)]
      omega
    have hulp' : ulp (b - a) = ulp b := by rw [ulp, ulp, hlog', he]
    rw [round, hulp']
    exact nearestMultiple_sub hdvd (by omega) (by omega)

theorem isSome_decimalNear {n z : ℕ} (hn : round n = n) (h : 10 ^ 16 * 10 ^ z ≤ n) :
    (decimalNear n z).isSome := by
  have hpow : 0 < 10 ^ z := Nat.pow_pos (by decide)
  have hsplit := Nat.div_add_mod' n (10 ^ z)
  have hmod := Nat.mod_lt n hpow
  have hspec := @ulp_spec n (by omega)
  have hnext : (n / 10 ^ z + 1) * 10 ^ z = n / 10 ^ z * 10 ^ z + 10 ^ z := Nat.succ_mul _ _
  rcases Nat.lt_or_ge (10 ^ z) (2 * (n % 10 ^ z)) with hr | hr
  -- the multiple above is the nearer one
  · have hhigh : round ((n / 10 ^ z + 1) * 10 ^ z) = n := by
      have hsum := @round_add_of_small (10 ^ z - n % 10 ^ z) n hn (by omega)
      rwa [show 10 ^ z - n % 10 ^ z + n = (n / 10 ^ z + 1) * 10 ^ z by omega] at hsum
    rw [decimalNear]
    simp only [hhigh, if_true]
    split_ifs <;> rfl
  · have hlow : round (n / 10 ^ z * 10 ^ z) = n := by
      have hsub := @round_sub_of_small (n % 10 ^ z) n hn (by omega)
      rwa [show n - n % 10 ^ z = n / 10 ^ z * 10 ^ z by omega] at hsub
    rw [decimalNear]
    simp only [hlow, if_true]
    split_ifs <;> rfl

/-- A power of ten above a number is found among the multiples of the power before it. -/
theorem decimalNear_of_round {n L : ℕ} (h : round (10 ^ (L + 1)) = n) (hhigh : n < 10 ^ (L + 1)) :
    decimalNear n L = some (10 ^ (L + 1)) := by
  have hpow : 10 ^ (L + 1) = 10 * 10 ^ L := pow_succ' 10 L
  have hnear := round_near (10 ^ (L + 1))
  rw [h] at hnear
  have hdiv : n / 10 ^ L = 9 := by
    rw [Nat.div_eq_iff (by omega)]
    omega
  have hlow : round (9 * 10 ^ L) ≠ n := by
    have hnear' := round_near (9 * 10 ^ L)
    omega
  rw [decimalNear]
  simp only [hdiv]
  rw [if_neg hlow, ← hpow, if_pos h]

theorem shortestFrom_succ {n L : ℕ} (hhigh : n < 10 ^ (L + 1)) (hn : n ≠ 0) :
    shortestFrom n (L + 1) = shortestFrom n L := by
  rw [shortestFrom]
  cases hM : decimalNear n (L + 1) with
  | none => rfl
  | some M =>
    have hround : round (10 ^ (L + 1)) = n ∧ M = 10 ^ (L + 1) := by
      have hzero : round (0 * 10 ^ (L + 1)) ≠ n := by
        rw [Nat.zero_mul, round_of_lt (by decide)]
        exact Ne.symm hn
      simp only [decimalNear, Nat.div_eq_of_lt hhigh] at hM
      rw [if_neg hzero, Nat.zero_add, Nat.one_mul] at hM
      split_ifs at hM with hround
      exact ⟨hround, (Option.some.inj hM).symm⟩
    obtain ⟨hround, rfl⟩ := hround
    have hfound := decimalNear_of_round hround hhigh
    cases L with
    | zero =>
      rw [round_of_lt (by decide)] at hround
      omega
    | succ L =>
      rw [shortestFrom, hfound]
      rfl

end Double

namespace Js

/-! ## Digits of multiples of powers of ten -/

theorem toDigits_mul_ten {m : ℕ} (hm : m ≠ 0) :
    Nat.toDigits 10 (m * 10) = Nat.toDigits 10 m ++ ['0'] := by
  rw [Nat.toDigits_of_base_le (by decide) (by omega), Nat.mul_div_cancel m (by decide),
    Nat.mul_mod_left]
  rfl

theorem toDigits_mul_pow {m : ℕ} (hm : m ≠ 0) (z : ℕ) :
    Nat.toDigits 10 (m * 10 ^ z) = Nat.toDigits 10 m ++ List.replicate z '0' := by
  induction z with
  | zero => rw [pow_zero, Nat.mul_one, List.replicate_zero, List.append_nil]
  | succ z ih =>
    rw [pow_succ, ← Nat.mul_assoc, toDigits_mul_ten (by positivity), ih, List.append_assoc,
      List.replicate_succ']

/-! ## The two searches -/

theorem decimalNear_natCast (n z : ℕ) :
    decimalNear (n : ℚ) z = (Double.decimalNear n z).map fun M => M / 10 ^ z := by
  have hpow : 0 < 10 ^ z := Nat.pow_pos (by decide)
  have hcast : (10 : ℚ) ^ (z : ℤ) = (10 ^ z : ℕ) := by
    rw [zpow_natCast]
    push_cast
    rfl
  have hfloor : ⌊(n : ℚ) / (10 ^ z : ℕ)⌋₊ = n / 10 ^ z := by
    rw [Nat.floor_div_natCast, Nat.floor_natCast]
  have hround : ∀ m : ℕ,
      Binary64.round (m * (10 ^ z : ℕ)) = n ↔ Double.round (m * 10 ^ z) = n := by
    intro m
    rw [← Nat.cast_mul, Binary64.round_natCast, Nat.cast_inj]
  have hcancel : ∀ q : ℕ, q * 10 ^ z / 10 ^ z = q := fun q => Nat.mul_div_cancel q hpow
  have heven : Binary64.roundEven ((n : ℚ) / (10 ^ z : ℕ)) = (n / 10 ^ z : ℕ) ↔
      Double.nearestMultiple n (10 ^ z) = n / 10 ^ z * 10 ^ z := by
    have hdiv := @Binary64.roundEven_div n _ hpow
    rw [← Nat.cast_inj (R := ℤ), ← hdiv, Nat.cast_mul]
    exact (mul_left_inj' (by exact_mod_cast hpow.ne')).symm
  rw [decimalNear, Double.decimalNear]
  simp only [hcast, hfloor, hround, heven]
  split_ifs with hlow hhigh hnear hhigh
  · rw [Option.map_some, hnear, hcancel]
  · rw [Option.map_some, (Double.nearestMultiple_eq n (10 ^ z)).resolve_left hnear, hcancel]
  · rw [Option.map_some, hcancel]
  · rw [Option.map_some, hcancel]
  · rfl

/-- A multiple of the power of ten. -/
theorem dvd_of_decimalNear {n z M : ℕ} (h : Double.decimalNear n z = some M) : 10 ^ z ∣ M := by
  simp only [Double.decimalNear] at h
  split_ifs at h
  all_goals
    obtain rfl := Option.some.inj h
  · rcases Double.nearestMultiple_eq n (10 ^ z) with heq | heq <;> rw [heq] <;>
      exact dvd_mul_left _ _
  · exact dvd_mul_left _ _
  · exact dvd_mul_left _ _

theorem decimalNear_zero {n : ℕ} (hn : Double.round n = n) : Double.decimalNear n 0 = some n := by
  have hone : n / 10 ^ 0 * 10 ^ 0 = n := by rw [pow_zero, Nat.div_one, Nat.mul_one]
  rw [Double.decimalNear]
  simp only [hone, hn, if_true]
  rw [pow_zero, Double.nearestMultiple_of_dvd Nat.one_pos (one_dvd n), ite_self]

/-- Both searches stop at the same power of ten, when the first gets far enough down. -/
theorem shortestFrom_natCast {n stop : ℕ} (hn : Double.round n = n)
    (hstop : (Double.decimalNear n stop).isSome) (z k : ℕ) (hz : stop ≤ z) (hk : z < stop + k) :
    ∃ m e : ℕ, shortestFrom (n : ℚ) k z = (m, (e : ℤ)) ∧ m * 10 ^ e = Double.shortestFrom n z := by
  obtain ⟨k, rfl⟩ : ∃ j, k = j + 1 := ⟨k - 1, by omega⟩
  induction z generalizing k with
  | zero =>
    refine ⟨n, 0, ?_, ?_⟩
    · rw [shortestFrom, decimalNear_natCast, decimalNear_zero hn]
      simp
    · rw [pow_zero, Nat.mul_one, Double.shortestFrom]
  | succ z ih =>
    rw [shortestFrom, decimalNear_natCast, Double.shortestFrom]
    cases hM : Double.decimalNear n (z + 1) with
    | some M =>
      refine ⟨M / 10 ^ (z + 1), z + 1, rfl, ?_⟩
      rw [Nat.div_mul_cancel (dvd_of_decimalNear hM)]
      rfl
    | none =>
      have hne : stop ≠ z + 1 := by
        rintro rfl
        rw [hM] at hstop
        cases hstop
      obtain ⟨j, rfl⟩ : ∃ j, k = j + 1 := ⟨k - 1, by omega⟩
      obtain ⟨m, e, hm, he⟩ := ih (by omega) j (by omega)
      refine ⟨m, e, ?_, he⟩
      rw [← hm]
      simp

theorem length_toDigits {n : ℕ} (hn : n ≠ 0) :
    (Nat.toDigits 10 n).length = Nat.log 10 n + 1 := by
  have hlow := Nat.pow_log_le_self 10 hn
  have hhigh := Nat.lt_pow_succ_log_self (b := 10) (by decide) n
  refine le_antisymm ((Nat.length_toDigits_le_iff (by decide) (Nat.succ_pos _)).mpr hhigh) ?_
  by_contra hlt
  rw [not_le, Nat.lt_succ_iff] at hlt
  rcases Nat.eq_zero_or_pos (Nat.log 10 n) with hzero | hpos
  · rw [hzero, Nat.le_zero, List.length_eq_zero_iff] at hlt
    exact Nat.toDigits_ne_nil hlt
  · have := (Nat.length_toDigits_le_iff (by decide) hpos).mp hlt
    omega

/-- The shortest digits of a whole double. -/
theorem shortest_natCast {n : ℕ} (hn : Double.round n = n) (hne : n ≠ 0) :
    ∃ m e : ℕ, shortest (n : ℚ) = (m, (e : ℤ)) ∧ m * 10 ^ e = Double.shortest n := by
  have hlow := Nat.pow_log_le_self 10 hne
  have hhigh := Nat.lt_pow_succ_log_self (b := 10) (by decide) n
  rw [shortest, Int.log_natCast, Double.shortest, length_toDigits hne,
    Double.shortestFrom_succ hhigh hne]
  rcases Nat.lt_or_ge (Nat.log 10 n) 17 with hsmall | hlarge
  · refine @shortestFrom_natCast n 0 hn ?_ _ _ (Nat.zero_le _) (by omega)
    rw [decimalNear_zero hn]
    rfl
  · refine @shortestFrom_natCast n (Nat.log 10 n - 16) hn ?_ _ _ (by omega) (by omega)
    refine Double.isSome_decimalNear hn ?_
    rwa [← pow_add, Nat.add_sub_cancel' (by omega)]

/-! ## The texts -/

theorem mantissa_eq (ds : List Char) : mantissa ds = ds.take 1 ++ fractionText (ds.drop 1) := by
  match ds with
  | [] => rfl
  | [d] => rfl
  | d :: e :: rest => rfl

theorem significant_append_zeros (ds : List Char) (z : ℕ) :
    significant (ds ++ List.replicate z '0') = significant ds := by
  rw [significant, significant, List.reverse_append, List.reverse_replicate,
    List.dropWhile_append_of_pos fun c hc => beq_iff_eq.mpr (List.eq_of_mem_replicate hc)]

/-- Digits and zeros, laid out. -/
theorem layout_text {m e : ℕ} (hm : m ≠ 0) :
    (layout (significant (Nat.toDigits 10 m)) ((Nat.toDigits 10 m).length + e)).text =
      if (Nat.toDigits 10 (m * 10 ^ e)).length ≤ 21 then Nat.toDigits 10 (m * 10 ^ e)
      else (scientific (Nat.toDigits 10 (m * 10 ^ e))).toList := by
  obtain ⟨k, hk⟩ := significant_append (Nat.toDigits 10 m)
  have hlength := congrArg List.length hk
  rw [List.length_append, List.length_replicate] at hlength
  rw [toDigits_mul_pow hm, List.length_append, List.length_replicate]
  have hpos : 0 < (Nat.toDigits 10 m).length := List.length_pos_iff.mpr Nat.toDigits_ne_nil
  split_ifs with hsmall
  · have hzeros : (((Nat.toDigits 10 m).length + e : ℤ) -
        (significant (Nat.toDigits 10 m)).length).toNat = k + e := by omega
    rw [layout, if_pos (by omega), Literal.text, fractionText, if_pos rfl, exponentText,
      List.append_nil, List.append_nil, hzeros]
    calc significant (Nat.toDigits 10 m) ++ List.replicate (k + e) '0'
        = (significant (Nat.toDigits 10 m) ++ List.replicate k '0') ++ List.replicate e '0' := by
          rw [List.append_assoc, List.replicate_append_replicate]
      _ = Nat.toDigits 10 m ++ List.replicate e '0' := by rw [← hk]
  · have hexp : ((Nat.toDigits 10 m).length + e : ℤ) - 1 =
        Int.ofNat ((Nat.toDigits 10 m).length + e - 1) := by
      rw [Int.ofNat_eq_natCast]
      omega
    rw [layout, if_neg (by omega), if_neg (by omega), if_neg (by omega), Literal.text,
      toList_scientific, ← significant, significant_append_zeros, mantissa_eq, List.append_assoc,
      hexp, exponentText, List.length_append, List.length_replicate]

/-- Both searches give a number of the same size. -/
theorem shortest_lt_iff {n : ℕ} (hn : Double.round n = n) :
    Double.shortest n < 10 ^ 21 ↔ n < 10 ^ 21 := by
  have hround := Double.round_shortest hn
  have hten : Double.round (10 ^ 21) = 10 ^ 21 := by decide +kernel
  constructor
  · intro h
    have hle := Double.round_mono h.le
    rw [hround, hten] at hle
    refine lt_of_le_of_ne hle ?_
    rintro rfl
    exact absurd h (by decide +kernel)
  · intro h
    by_contra hge
    have hle := Double.round_mono (not_lt.mp hge)
    rw [hround, hten] at hle
    omega

/-- The text of a whole double. -/
theorem literalOf_natCast {n : ℕ} (hn : Double.round n = n) :
    (literalOf (n : ℚ)).text = (wholeText n).toList := by
  by_cases hne : n = 0
  · rw [hne]
    decide +kernel
  obtain ⟨m, e, hm, he⟩ := shortest_natCast hn hne
  have hm0 : m ≠ 0 := by
    rintro rfl
    have hround := Double.round_shortest hn
    rw [← he, Nat.zero_mul, Double.round_of_lt (by decide)] at hround
    exact hne hround.symm
  rw [literalOf, if_neg (by exact_mod_cast hne), hm]
  dsimp only
  rw [layout_text hm0, he, wholeText]
  have hsize : (Nat.toDigits 10 (Double.shortest n)).length ≤ 21 ↔ n < 10 ^ 21 := by
    rw [Nat.length_toDigits_le_iff (by decide) (by decide), shortest_lt_iff hn]
  simp only [hsize]
  split_ifs
  · exact Nat.toList_repr.symm
  · rfl

/-- The text of a whole number is the one of its value. -/
theorem text_toFinite (n : Whole) :
    (Numeric.finite n.toFinite).text = (Number.whole n).text.toList := by
  have hn := n.isDouble.1
  have hval : n.toFinite.val = (n.val : ℚ) := rfl
  rw [Numeric.text, Number.text, hval]
  by_cases hneg : n.val < 0
  · have hcast : -(n.val : ℚ) = (n.val.natAbs : ℕ) := by
      rw [← Int.cast_natCast, Int.ofNat_natAbs_of_nonpos hneg.le, Int.cast_neg]
    rw [if_pos (by exact_mod_cast hneg), if_pos hneg, hcast, literalOf_natCast hn,
      String.toList_append]
    rfl
  · have hcast : (n.val : ℚ) = (n.val.natAbs : ℕ) := by
      rw [← Int.cast_natCast, Int.natAbs_of_nonneg (not_lt.mp hneg)]
    rw [if_neg (by exact_mod_cast hneg), if_neg hneg, hcast, literalOf_natCast hn]

theorem wholeText_of_lt {n : ℕ} (h : n < 2 ^ 53) : wholeText n = toString n := by
  rw [wholeText, if_pos (by omega), Double.shortest_of_lt h]

/-- A whole number of ordinary size is shown with all its digits. -/
theorem text_ofRat {z : ℤ} (h : z.natAbs < 2 ^ 53) :
    String.ofList (Numeric.ofRat z).text = toString z := by
  have hvalue := toNum_whole ⟨z, Double.isDouble_of_lt h⟩
  rw [← hvalue, Number.toNum, text_toFinite, String.ofList_toList, Number.text,
    wholeText_of_lt h]
  cases z with
  | ofNat n => rw [if_neg (by simp)]; rfl
  | negSucc n => rw [if_pos (by simp)]; rfl

end Js
