import Gatekeeper.Lib.JsNumber

/-!
# The text of a number

`Number::toString` of every double, with the shortest digits that round to it, and the reader
of numbers in JSON. Reading the text of a finite number gives the number back.
-/

namespace Js

/-! ## Decimal literals -/

/-- A decimal literal: its digits before and behind the point, and the exponent it states. -/
structure Literal where
  whole : List Char
  frac : List Char
  exponent : Option ℤ
deriving DecidableEq

def Literal.value (l : Literal) : ℚ :=
  Nat.ofDigitChars 10 (l.whole ++ l.frac) 0 * 10 ^ (l.exponent.getD 0 - l.frac.length)

def fractionText (frac : List Char) : List Char := if frac = [] then [] else '.' :: frac

def exponentText : Option ℤ → List Char
  | none => []
  | some (.ofNat n) => 'e' :: '+' :: Nat.toDigits 10 n
  | some (.negSucc n) => 'e' :: '-' :: Nat.toDigits 10 (n + 1)

def Literal.text (l : Literal) : List Char :=
  l.whole ++ (fractionText l.frac ++ exponentText l.exponent)

/-- Digits without a zero at their front, or a zero alone. -/
def WholeDigits (ds : List Char) : Prop := ds = ['0'] ∨ ds ≠ [] ∧ ds.head? ≠ some '0'

instance (ds : List Char) : Decidable (WholeDigits ds) := inferInstanceAs (Decidable (_ ∨ _))

/-- A literal of JSON, whose exponent has a sign. -/
structure Literal.WellFormed (l : Literal) : Prop where
  whole : WholeDigits l.whole
  wholeDigits : ∀ c ∈ l.whole, c.isDigit = true
  fracDigits : ∀ c ∈ l.frac, c.isDigit = true

/-! ## Reading -/

def readWhole (cs : List Char) : Option (List Char × List Char) :=
  let ds := cs.takeWhile Char.isDigit
  if WholeDigits ds then some (ds, cs.drop ds.length) else none

def readFraction : List Char → Option (List Char × List Char)
  | '.' :: cs =>
    let ds := cs.takeWhile Char.isDigit
    if ds = [] then none else some (ds, cs.drop ds.length)
  | cs => some ([], cs)

/-- The digits of an exponent, behind its sign. -/
def readExponentDigits (negative : Bool) (cs : List Char) : Option (Option ℤ × List Char) :=
  let ds := cs.takeWhile Char.isDigit
  let n : ℤ := Nat.ofDigitChars 10 ds 0
  if ds = [] then none else some (some (if negative then -n else n), cs.drop ds.length)

def readExponent : List Char → Option (Option ℤ × List Char)
  | 'e' :: '-' :: cs | 'E' :: '-' :: cs => readExponentDigits true cs
  | 'e' :: '+' :: cs | 'E' :: '+' :: cs => readExponentDigits false cs
  | 'e' :: cs | 'E' :: cs => readExponentDigits false cs
  | cs => some (none, cs)

def readLiteral (cs : List Char) : Option (Literal × List Char) := do
  let (whole, cs) ← readWhole cs
  let (frac, cs) ← readFraction cs
  let (exponent, cs) ← readExponent cs
  return ({ whole, frac, exponent }, cs)

/-- A number at the front of a JSON text. -/
def readNumber : List Char → Option (Numeric × List Char)
  | '-' :: cs => (readLiteral cs).map fun (l, r) => (.ofRat (-l.value), r)
  | cs => (readLiteral cs).map fun (l, r) => (.ofRat l.value, r)

/-! ## The shortest digits -/

/-- The multiple of `10 ^ z` next to `q` that rounds to `q`: the nearer one, and of two equally
near ones the even multiple. -/
def decimalNear (q : ℚ) (z : ℤ) : Option ℕ :=
  let low := ⌊q / 10 ^ z⌋₊
  if Binary64.round (low * 10 ^ z) = q then
    if Binary64.round ((low + 1 : ℕ) * 10 ^ z) = q then
      if Binary64.roundEven (q / 10 ^ z) = low then some low else some (low + 1)
    else some low
  else if Binary64.round ((low + 1 : ℕ) * 10 ^ z) = q then some (low + 1)
  else none

/-- The search for the largest power of ten, from `10 ^ z` down. Every double is a multiple of
the last one. -/
def shortestFrom (q : ℚ) : ℕ → ℤ → ℕ × ℤ
  | 0, _ => (⌊q * 10 ^ 1074⌋₊, -1074)
  | k + 1, z =>
    match decimalNear q z with
    | some m => (m, z)
    | none => shortestFrom q k (z - 1)

/-- A number with the fewest digits that rounds to the double `q`, and its power of ten. -/
def shortest (q : ℚ) : ℕ × ℤ := shortestFrom q 17 (Int.log 10 q)

/-- The digits without the zeros at their end. -/
def significant (ds : List Char) : List Char := (ds.reverse.dropWhile (· == '0')).reverse

/-- The digits `ds` with the point behind the first `n`. -/
def layout (ds : List Char) (n : ℤ) : Literal :=
  if ds.length ≤ n ∧ n ≤ 21 then ⟨ds ++ List.replicate (n - ds.length).toNat '0', [], none⟩
  else if 0 < n ∧ n ≤ 21 then ⟨ds.take n.toNat, ds.drop n.toNat, none⟩
  else if -6 < n ∧ n ≤ 0 then ⟨['0'], List.replicate (-n).toNat '0' ++ ds, none⟩
  else ⟨ds.take 1, ds.drop 1, some (n - 1)⟩

/-- The literal of a double that is not negative. -/
def literalOf (q : ℚ) : Literal :=
  if q = 0 then ⟨['0'], [], none⟩
  else
    let (m, z) := shortest q
    let ds := Nat.toDigits 10 m
    layout (significant ds) (ds.length + z)

/-- `Number::toString`. -/
def Numeric.text : Numeric → List Char
  | nan => "NaN".toList
  | infinity negative => if negative then "-Infinity".toList else "Infinity".toList
  | finite x => if x.val < 0 then '-' :: (literalOf (-x.val)).text else (literalOf x.val).text

example : [1e21, 5, 0.5, -1.5e-7, 123456789012345680000].map (fun q : ℚ =>
    String.ofList (Numeric.ofRat q).text) =
      ["1e+21", "5", "0.5", "-1.5e-7", "123456789012345680000"] := by
  decide +kernel

/-! ## Reading what was written -/

/-- A text that does not go on with a digit. -/
def NoDigit (r : List Char) : Prop := ∀ c ∈ r.head?, c.isDigit = false

theorem takeWhile_digits {ds r : List Char} (hds : ∀ c ∈ ds, c.isDigit = true) (hr : NoDigit r) :
    (ds ++ r).takeWhile Char.isDigit = ds := by
  rw [List.takeWhile_append_of_pos hds]
  cases r with
  | nil => exact List.append_nil ds
  | cons c r =>
    have hc : c.isDigit = false := hr c rfl
    rw [List.takeWhile_cons_of_neg (by simp [hc]), List.append_nil]

theorem noDigit_of_follows {r : List Char} (h : Json.Follows r) : NoDigit r := by
  cases r with
  | nil => simp [NoDigit]
  | cons c r =>
    intro d hd
    obtain rfl := Option.some.inj hd
    exact (h c r rfl).1

theorem readWhole_append {ds r : List Char} (h : WholeDigits ds)
    (hds : ∀ c ∈ ds, c.isDigit = true) (hr : NoDigit r) :
    readWhole (ds ++ r) = some (ds, r) := by
  simp only [readWhole, takeWhile_digits hds hr, if_pos h, List.drop_left]

theorem readFraction_text {ds r : List Char} (hds : ∀ c ∈ ds, c.isDigit = true) (hr : NoDigit r)
    (hpoint : '.' ∉ r.head?) : readFraction (fractionText ds ++ r) = some (ds, r) := by
  unfold fractionText
  split_ifs with h
  · cases r with
    | nil => rw [h]; rfl
    | cons c r =>
      rw [h, List.nil_append, readFraction]
      intro cs hcs
      exact hpoint (by rw [hcs]; rfl)
  · simp only [List.cons_append, readFraction, takeWhile_digits hds hr, if_neg h, List.drop_left]

theorem readExponentDigits_append (negative : Bool) (n : ℕ) {r : List Char} (hr : NoDigit r) :
    readExponentDigits negative (Nat.toDigits 10 n ++ r) =
      some (some (if negative then -(n : ℤ) else n), r) := by
  have hds : ∀ c ∈ Nat.toDigits 10 n, c.isDigit = true := fun c hc =>
    Nat.isDigit_of_mem_toDigits (by decide) (by decide) hc
  simp only [readExponentDigits, takeWhile_digits hds hr, if_neg Nat.toDigits_ne_nil,
    List.drop_left, Nat.ofDigitChars_ten_toDigits]

theorem readExponent_text {e : Option ℤ} {r : List Char} (h : Json.Follows r) :
    readExponent (exponentText e ++ r) = some (e, r) := by
  match e with
  | none =>
    rw [exponentText, List.nil_append]
    unfold readExponent
    split
    -- a text that goes on with an exponent does not follow a number
    case h_7 => rfl
    all_goals exact absurd (h _ _ rfl).2 (by decide)
  | some (.ofNat n) =>
    exact readExponentDigits_append false n (noDigit_of_follows h)
  | some (.negSucc n) =>
    exact readExponentDigits_append true (n + 1) (noDigit_of_follows h)

theorem noDigit_exponentText {e : Option ℤ} {r : List Char} (h : Json.Follows r) :
    NoDigit (exponentText e ++ r) ∧ '.' ∉ (exponentText e ++ r).head? := by
  match e with
  | none =>
    refine ⟨noDigit_of_follows h, fun hpoint => ?_⟩
    cases r with
    | nil => cases hpoint
    | cons c r =>
      obtain rfl := Option.some.inj hpoint
      exact absurd (h _ _ rfl).2 (by decide)
  | some (.ofNat n) => exact ⟨by simp [NoDigit, exponentText], by simp [exponentText]⟩
  | some (.negSucc n) => exact ⟨by simp [NoDigit, exponentText], by simp [exponentText]⟩

theorem noDigit_fractionText {ds r : List Char} (h : NoDigit r) :
    NoDigit (fractionText ds ++ r) := by
  unfold fractionText
  split_ifs
  · exact h
  · simp [NoDigit]

/-- A literal is read back from its text. -/
theorem readLiteral_text {l : Literal} (hl : l.WellFormed) {r : List Char} (h : Json.Follows r) :
    readLiteral (l.text ++ r) = some (l, r) := by
  obtain ⟨hexp, hpoint⟩ := noDigit_exponentText (e := l.exponent) h
  rw [readLiteral, Literal.text, List.append_assoc, List.append_assoc,
    readWhole_append hl.whole hl.wholeDigits (noDigit_fractionText hexp)]
  simp only [Option.bind_eq_bind, Option.bind_some, readFraction_text hl.fracDigits hexp hpoint,
    readExponent_text h]
  rfl

theorem exists_digit_text {l : Literal} (hl : l.WellFormed) :
    ∃ c t, l.text = c :: t ∧ c.isDigit = true := by
  obtain ⟨c, t, hwhole⟩ : ∃ c t, l.whole = c :: t := by
    rcases hl.whole with h | ⟨h, _⟩
    · exact ⟨'0', [], h⟩
    · exact List.exists_cons_of_ne_nil h
  refine ⟨c, t ++ (fractionText l.frac ++ exponentText l.exponent), ?_, ?_⟩
  · rw [Literal.text, hwhole, List.cons_append]
  · exact hl.wholeDigits c (by rw [hwhole]; exact List.mem_cons_self)

/-! ## The digits of a double -/

theorem head_toDigits {n : ℕ} (h : n ≠ 0) : (Nat.toDigits 10 n).head? ≠ some '0' := by
  have hdigit : ∀ i : Fin 10, i.val ≠ 0 → Nat.digitChar i ≠ '0' := by decide
  induction n using Nat.strong_induction_on with
  | _ n ih =>
    rcases Nat.lt_or_ge n 10 with hlt | hge
    · rw [Nat.toDigits_of_lt_base hlt]
      exact fun hzero => hdigit ⟨n, hlt⟩ h (Option.some.inj hzero)
    · rw [Nat.toDigits_of_base_le (by decide) hge,
        List.head?_append_of_ne_nil _ Nat.toDigits_ne_nil]
      exact ih (n / 10) (by omega) (by omega)

/-- Only zeros at the end are left out. -/
theorem significant_append (ds : List Char) :
    ∃ k, ds = significant ds ++ List.replicate k '0' := by
  have hzeros : ∀ c ∈ ds.reverse.takeWhile (· == '0'), c = '0' := fun c hc =>
    beq_iff_eq.mp (List.all_eq_true.mp List.all_takeWhile c hc)
  refine ⟨(ds.reverse.takeWhile (· == '0')).length, ?_⟩
  rw [← List.reverse_inj, significant, List.reverse_append, List.reverse_reverse,
    List.reverse_replicate, ← List.eq_replicate_of_mem hzeros, List.takeWhile_append_dropWhile]

theorem value_layout {ds : List Char} (hne : ds ≠ []) (n : ℤ) :
    (layout ds n).value = Nat.ofDigitChars 10 ds 0 * 10 ^ (n - ds.length) := by
  have hlen : 0 < ds.length := List.length_pos_iff.mpr hne
  unfold layout Literal.value
  split_ifs with h₁ h₂ h₃
  -- zeros behind the digits
  · obtain ⟨k, hk⟩ : ∃ k : ℕ, n - ds.length = k := ⟨(n - ds.length).toNat, by omega⟩
    simp only [List.append_nil, Nat.ofDigitChars_append, Nat.ofDigitChars_replicate_zero,
      Option.getD_none, List.length_nil, hk, Int.toNat_natCast, zpow_natCast]
    push_cast
    ring
  -- a point between them
  · simp only [List.take_append_drop, Option.getD_none, List.length_drop]
    congr 2
    omega
  -- zeros before them
  · have hzero : Nat.ofDigitChars 10 (['0'] ++ (List.replicate (-n).toNat '0' ++ ds)) 0 =
        Nat.ofDigitChars 10 ds 0 := by
      rw [Nat.ofDigitChars_append, Nat.ofDigitChars_append, Nat.ofDigitChars_replicate_zero]
      rfl
    simp only [hzero, Option.getD_none, List.length_append, List.length_replicate]
    congr 2
    omega
  -- an exponent
  · simp only [List.take_append_drop, Option.getD_some, List.length_drop]
    congr 2
    omega

theorem wellFormed_layout {ds : List Char} (hne : ds ≠ []) (hds : ∀ c ∈ ds, c.isDigit = true)
    (hzero : ds.head? ≠ some '0') (n : ℤ) : (layout ds n).WellFormed := by
  have hzeros : ∀ k, ∀ c ∈ List.replicate k '0', c.isDigit = true := fun k c hc => by
    rw [List.eq_of_mem_replicate hc]
    rfl
  have htake : ∀ k, 0 < k → ds.take k ≠ [] ∧ (ds.take k).head? ≠ some '0' := by
    intro k hk
    obtain ⟨d, t, rfl⟩ := List.exists_cons_of_ne_nil hne
    obtain ⟨j, rfl⟩ := Nat.exists_eq_succ_of_ne_zero hk.ne'
    exact ⟨List.cons_ne_nil _ _, hzero⟩
  have hmem : ∀ k, ∀ c ∈ ds.take k, c.isDigit = true := fun k c hc =>
    hds c (List.mem_of_mem_take hc)
  have hdrop : ∀ k, ∀ c ∈ ds.drop k, c.isDigit = true := fun k c hc =>
    hds c (List.mem_of_mem_drop hc)
  unfold layout
  split_ifs with h₁ h₂ h₃
  · refine ⟨.inr ⟨by simp [hne], ?_⟩, fun c hc => ?_, by simp⟩
    · rw [List.head?_append_of_ne_nil _ hne]
      exact hzero
    · rcases List.mem_append.mp hc with hc | hc
      · exact hds c hc
      · exact hzeros _ c hc
  · exact ⟨.inr (htake _ (by omega)), hmem _, hdrop _⟩
  · refine ⟨.inl rfl, by simp, fun c hc => ?_⟩
    rcases List.mem_append.mp hc with hc | hc
    · exact hzeros _ c hc
    · exact hds c hc
  · exact ⟨.inr (htake 1 (by decide)), hmem _, hdrop _⟩

/-! ## The digits round to the number -/

theorem round_decimalNear {q : ℚ} {z : ℤ} {m : ℕ} (h : decimalNear q z = some m) :
    Binary64.round (m * 10 ^ z) = q := by
  simp only [decimalNear] at h
  split_ifs at h with hlow hhigh hnear hhigh
  all_goals
    obtain rfl := Option.some.inj h
    assumption

/-- A number of binary units is one of decimal units. -/
theorem floor_units {k n : ℕ} {e : ℤ} (he : -(n : ℤ) ≤ e) :
    (⌊(k * 2 ^ e : ℚ) * 10 ^ n⌋₊ : ℚ) * 10 ^ (-(n : ℤ)) = k * 2 ^ e := by
  obtain ⟨j, hj⟩ : ∃ j : ℕ, e + n = j := ⟨(e + n).toNat, by omega⟩
  have hunits : (k * 2 ^ e : ℚ) * 10 ^ n = (k * (2 ^ j * 5 ^ n) : ℕ) := by
    have hten : (10 : ℚ) ^ n = 2 ^ (n : ℤ) * 5 ^ n := by
      rw [zpow_natCast, ← mul_pow]
      norm_num
    push_cast
    rw [hten, mul_assoc, ← mul_assoc ((2 : ℚ) ^ e), ← zpow_add₀ (by norm_num), hj, zpow_natCast]
  rw [hunits, Nat.floor_natCast, ← hunits, zpow_neg, zpow_natCast,
    mul_inv_cancel_right₀ (pow_ne_zero n (by norm_num))]

theorem round_shortestFrom {x : Binary64.Finite} (h : 0 ≤ x.val) (k : ℕ) (z : ℤ) :
    Binary64.round ((shortestFrom x.val k z).1 * 10 ^ (shortestFrom x.val k z).2) = x.val := by
  induction k generalizing z with
  | zero =>
    obtain ⟨k, e, _, he, heq⟩ := Binary64.significand_roundAbs h
    have hround := x.rounded
    rw [Binary64.round_of_nonneg h] at hround
    rw [hround] at heq
    have hunits := @floor_units k 1074 e he
    rw [← heq] at hunits
    exact (congrArg Binary64.round hunits).trans x.rounded
  | succ k ih =>
    rw [shortestFrom]
    cases hnear : decimalNear x.val z with
    | none => exact ih (z - 1)
    | some m => exact round_decimalNear hnear

/-- The digits that are left of a number, and how many zeros were left out. -/
structure SignificantOf (m : ℕ) (ds : List Char) (k : ℕ) : Prop where
  ne_nil : ds ≠ []
  isDigit : ∀ c ∈ ds, c.isDigit = true
  head : ds.head? ≠ some '0'
  length : (Nat.toDigits 10 m).length = ds.length + k
  value : (m : ℚ) = Nat.ofDigitChars 10 ds 0 * 10 ^ k

theorem significant_toDigits {m : ℕ} (hm : m ≠ 0) :
    ∃ k, SignificantOf m (significant (Nat.toDigits 10 m)) k := by
  obtain ⟨k, hk⟩ := significant_append (Nat.toDigits 10 m)
  refine ⟨k, ?_⟩
  generalize significant (Nat.toDigits 10 m) = ds at hk
  have hfirst := head_toDigits hm
  have hdigits := @Nat.ofDigitChars_ten_toDigits m
  have hmem : ∀ c ∈ ds, c.isDigit = true := fun c hc =>
    Nat.isDigit_of_mem_toDigits (b := 10) (n := m) (by decide) (by decide)
      (hk ▸ List.mem_append_left _ hc)
  rw [hk, Nat.ofDigitChars_append, Nat.ofDigitChars_replicate_zero] at hdigits
  have hne : ds ≠ [] := by
    rintro rfl
    rw [hk, List.nil_append] at hfirst
    cases k with
    | zero => exact Nat.toDigits_ne_nil hk
    | succ k => exact hfirst rfl
  refine ⟨hne, hmem, ?_, ?_, ?_⟩
  · rw [hk, List.head?_append_of_ne_nil _ hne] at hfirst
    exact hfirst
  · rw [hk, List.length_append, List.length_replicate]
  · rw [← hdigits]
    push_cast
    ring

/-- The literal of a double is well formed, and its value rounds to the double. -/
theorem literalOf_spec {x : Binary64.Finite} (h : 0 ≤ x.val) :
    (literalOf x.val).WellFormed ∧ Binary64.round (literalOf x.val).value = x.val := by
  unfold literalOf
  split_ifs with hzero
  · refine ⟨⟨.inl rfl, by simp, by simp⟩, ?_⟩
    have hvalue : (Literal.mk ['0'] [] none).value = 0 := by decide +kernel
    rw [hvalue, hzero, Binary64.round_zero]
  have hround := round_shortestFrom h 17 (Int.log 10 x.val)
  rw [← shortest] at hround
  generalize shortest x.val = p at hround
  obtain ⟨m, z⟩ := p
  dsimp only at hround ⊢
  have hm : m ≠ 0 := by
    rintro rfl
    rw [Nat.cast_zero, zero_mul, Binary64.round_zero] at hround
    exact hzero hround.symm
  obtain ⟨k, hdigits⟩ := significant_toDigits hm
  refine ⟨wellFormed_layout hdigits.ne_nil hdigits.isDigit hdigits.head _, ?_⟩
  rw [value_layout hdigits.ne_nil, ← hround, hdigits.value, mul_assoc, ← zpow_natCast,
    ← zpow_add₀ (by norm_num), hdigits.length]
  congr 3
  push_cast
  ring

/-! ## The text, read back -/

theorem ofRat_eq_finite {q : ℚ} {x : Binary64.Finite} (h : Binary64.round q = x.val) :
    Numeric.ofRat q = .finite x := by
  have hbound : |Binary64.round q| < 2 ^ 1024 := by
    rw [h]
    exact x.bounded
  rw [Numeric.ofRat, dif_pos hbound]
  exact congrArg Numeric.finite (Binary64.Finite.ext h)

/-- A finite number is read back from its text. -/
theorem readNumber_text (x : Binary64.Finite) {r : List Char} (h : Json.Follows r) :
    readNumber ((Numeric.finite x).text ++ r) = some (.finite x, r) := by
  rw [Numeric.text]
  split_ifs with hneg
  · have hbound : |-x.val| < 2 ^ 1024 := by
      rw [abs_neg]
      exact x.bounded
    obtain ⟨hwf, hround⟩ := @literalOf_spec
      ⟨-x.val, by rw [Binary64.round_neg, x.rounded], hbound⟩ (by linarith)
    dsimp only at hwf hround
    rw [List.cons_append, readNumber, readLiteral_text hwf h, Option.map_some]
    have hvalue : Binary64.round (-(literalOf (-x.val)).value) = x.val := by
      rw [Binary64.round_neg, hround, neg_neg]
    exact congrArg (fun y => some (y, r)) (ofRat_eq_finite hvalue)
  · obtain ⟨hwf, hround⟩ := literalOf_spec (not_lt.mp hneg)
    obtain ⟨c, t, htext, hc⟩ := exists_digit_text hwf
    have hread := readLiteral_text hwf h
    rw [htext, List.cons_append] at hread ⊢
    unfold readNumber
    split
    · rename_i heq
      cases heq
      cases hc
    · rw [hread, Option.map_some]
      exact congrArg (fun y => some (y, r)) (ofRat_eq_finite hround)

end Js
