import Gatekeeper.Lib.Binary64
import Gatekeeper.Lib.JsValueTheorems

/-!
# ECMAScript numbers

The numbers of the language by their value, with the two zeros as one: their sums and
comparisons, `Number(..)` of a value, and the whole number a number is.
-/

namespace Js

/-- A number by its value. -/
inductive Numeric where
  | nan
  | infinity (negative : Bool)
  | finite (x : Binary64.Finite)
deriving DecidableEq

/-- The number nearest to a rational one. -/
def Numeric.ofRat (q : ℚ) : Numeric :=
  if h : |Binary64.round q| < 2 ^ 1024 then
    .finite ⟨Binary64.round q, Binary64.round_round q, h⟩
  else .infinity (decide (q < 0))

def Numeric.neg : Numeric → Numeric
  | nan => nan
  | infinity s => infinity (!s)
  | finite x => ofRat (-x.val)

def Numeric.add : Numeric → Numeric → Numeric
  | finite x, finite y => ofRat (x.val + y.val)
  | infinity s, finite _ => infinity s
  | finite _, infinity s => infinity s
  | infinity s, infinity t => if s = t then infinity s else nan
  | _, _ => nan

def Numeric.sub (a b : Numeric) : Numeric := a.add b.neg

/-- `a < b`, which nothing is to `NaN`. -/
def Numeric.lt : Numeric → Numeric → Bool
  | finite x, finite y => x.val < y.val
  | infinity true, finite _ => true
  | finite _, infinity false => true
  | infinity true, infinity false => true
  | _, _ => false

/-- `a <= b`. -/
def Numeric.le : Numeric → Numeric → Bool
  | finite x, finite y => x.val ≤ y.val
  | infinity true, finite _ => true
  | finite _, infinity false => true
  | infinity s, infinity t => s || !t
  | _, _ => false

def Numeric.isFinite : Numeric → Bool
  | finite _ => true
  | _ => false

/-- What is not greater is at most the other, or one of the two is `NaN`. -/
theorem Numeric.lt_eq_false_iff {a b : Numeric} :
    b.lt a = false ↔ a.le b = true ∨ a = nan ∨ b = nan := by
  rcases a with _ | s | x <;> rcases b with _ | t | y
  case finite.finite => simp [lt, le]
  case infinity.infinity => cases s <;> cases t <;> simp [lt, le]
  case infinity.finite => cases s <;> simp [lt, le]
  case finite.infinity => cases t <;> simp [lt, le]
  all_goals simp [lt]

@[simp] theorem Numeric.le_nan (a : Numeric) : a.le nan = false := by
  cases a with
  | infinity s => cases s <;> rfl
  | _ => rfl

@[simp] theorem Numeric.add_nan (a : Numeric) : a.add nan = nan := by cases a <;> rfl

@[simp] theorem Numeric.nan_add (a : Numeric) : Numeric.nan.add a = nan := by cases a <;> rfl

theorem Numeric.ofRat_ne_nan (q : ℚ) : Numeric.ofRat q ≠ nan := by
  unfold Numeric.ofRat
  split_ifs <;> simp

/-- A sum with a finite number is `NaN` only by the other one. -/
theorem Numeric.add_eq_nan_iff {a b : Numeric} (h : b.isFinite = true) :
    a.add b = nan ↔ a = nan := by
  cases b with
  | nan => cases h
  | infinity s => cases h
  | finite y => cases a <;> simp [add, ofRat_ne_nan]

theorem Numeric.add_comm (a b : Numeric) : a.add b = b.add a := by
  cases a <;> cases b <;> simp only [add]
  case finite.finite => rw [Rat.add_comm]
  case infinity.infinity s t => cases s <;> cases t <;> rfl

theorem Numeric.isFinite_neg {a : Numeric} (h : a.isFinite = true) : a.neg.isFinite = true := by
  cases a with
  | nan => cases h
  | infinity s => cases h
  | finite x =>
    have hbound : |Binary64.round (-x.val)| < 2 ^ 1024 := by
      rw [Binary64.round_neg, x.rounded, abs_neg]
      exact x.bounded
    rw [neg, ofRat, dif_pos hbound]
    rfl

/-! ## Whole numbers -/

theorem abs_lt_two_pow_iff {n : ℤ} {k : ℕ} : |(n : ℚ)| < 2 ^ k ↔ n.natAbs < 2 ^ k := by
  have hpow : ((2 ^ k : ℕ) : ℚ) = 2 ^ k := by rw [Nat.cast_pow, Nat.cast_ofNat]
  rw [← Int.cast_abs, Int.abs_eq_natAbs, Int.cast_natCast, ← hpow, Nat.cast_lt]

theorem Whole.bounded (n : Whole) : |(n.val : ℚ)| < 2 ^ 1024 := by
  rw [abs_lt_two_pow_iff]
  exact (Double.log2_lt_iff (by norm_num)).mp n.isDouble.2

def Whole.toFinite (n : Whole) : Binary64.Finite where
  val := n.val
  rounded := Binary64.round_intCast_iff.mpr n.isDouble.1
  bounded := n.bounded

theorem isDouble_of_finite {x : Binary64.Finite} (h : x.val.den = 1) :
    Double.IsDouble x.val.num.natAbs := by
  have hval : (x.val.num : ℚ) = x.val := (Rat.den_eq_one_iff x.val).mp h
  refine ⟨Binary64.round_intCast_iff.mp (by rw [hval, x.rounded]), ?_⟩
  rw [Double.log2_lt_iff (by norm_num), ← abs_lt_two_pow_iff, hval]
  exact x.bounded

theorem ofRat_of_rounded {x : Binary64.Finite} : Numeric.ofRat x.val = .finite x := by
  have h : |Binary64.round x.val| < 2 ^ 1024 := by
    rw [x.rounded]
    exact x.bounded
  rw [Numeric.ofRat, dif_pos h]
  exact congrArg Numeric.finite (Binary64.Finite.ext x.rounded)

/-- Rounding first changes nothing. -/
theorem ofRat_round (n : ℕ) : Numeric.ofRat (Double.round n : ℕ) = Numeric.ofRat (n : ℕ) := by
  have h : Binary64.round ((Double.round n : ℕ) : ℚ) = Binary64.round (n : ℚ) := by
    rw [Binary64.round_natCast, Binary64.round_natCast, Double.round_round]
  have hneg : ∀ m : ℕ, decide ((m : ℚ) < 0) = false := by
    intro m
    rw [decide_eq_false_iff_not, not_lt]
    exact m.cast_nonneg
  rw [Numeric.ofRat, Numeric.ofRat, hneg, hneg]
  simp only [h]

/-- The whole number a number is, if `Number.isInteger` holds. -/
def Numeric.toWhole : Numeric → Option Whole
  | finite x => if h : x.val.den = 1 then some ⟨x.val.num, isDouble_of_finite h⟩ else none
  | _ => none

/-! ## `Number(..)` -/

/-- The exponent a decimal literal ends with. -/
def exponentPart : List Char → Option ℤ
  | [] => some 0
  | 'e' :: '-' :: cs | 'E' :: '-' :: cs => (digits 10 cs).map fun n => -(n : ℤ)
  | 'e' :: '+' :: cs | 'E' :: '+' :: cs => (digits 10 cs).map Int.ofNat
  | 'e' :: cs | 'E' :: cs => (digits 10 cs).map Int.ofNat
  | _ => none

/-- The digits after the point, and what follows them. -/
def fraction : List Char → List Char × List Char
  | '.' :: cs => (cs.takeWhile Char.isDigit, cs.dropWhile Char.isDigit)
  | cs => ([], cs)

/-- `StrUnsignedDecimalLiteral`, without `Infinity`. -/
def unsignedDecimal (cs : List Char) : Option ℚ :=
  let whole := cs.takeWhile Char.isDigit
  let (frac, rest) := fraction (cs.dropWhile Char.isDigit)
  if whole = [] ∧ frac = [] then none
  else
    (exponentPart rest).map fun e : ℤ =>
      (Nat.ofDigitChars 10 (whole ++ frac) 0 : ℚ) * 10 ^ (e - frac.length)

/-- A decimal literal after its sign. -/
def signedDecimal (negative : Bool) (cs : List Char) : Numeric :=
  if cs = "Infinity".toList then .infinity negative
  else
    match unsignedDecimal cs with
    | some q => .ofRat (if negative then -q else q)
    | none => .nan

/-- The number that digits of a base spell. -/
def numOfDigits (n : Option ℕ) : Numeric := (n.map fun n : ℕ => Numeric.ofRat n).getD .nan

/-- `StringToNumber`. -/
def stringToNumber (s : String) : Numeric :=
  match trimWhite s.toList with
  | [] => .ofRat 0
  | '0' :: 'x' :: cs | '0' :: 'X' :: cs => numOfDigits (digits 16 cs)
  | '0' :: 'o' :: cs | '0' :: 'O' :: cs => numOfDigits (digits 8 cs)
  | '0' :: 'b' :: cs | '0' :: 'B' :: cs => numOfDigits (digits 2 cs)
  | '-' :: cs => signedDecimal true cs
  | '+' :: cs => signedDecimal false cs
  | cs => signedDecimal false cs

/-- The value of a number. A number that is not whole is known by its text. -/
def Number.toNum : Number → Numeric
  | whole n => .finite n.toFinite
  | other text => stringToNumber text

theorem toNum_whole (n : Whole) : (Number.whole n).toNum = .ofRat n.val :=
  (@ofRat_of_rounded n.toFinite).symm

theorem ofRat_overflow {n : ℕ} (h : ¬ Nat.log2 (Double.round n) < 1024) :
    Numeric.ofRat n = .infinity false := by
  have hbig : ¬ |Binary64.round (n : ℚ)| < 2 ^ 1024 := by
    rw [Binary64.round_natCast, ← Int.cast_natCast, abs_lt_two_pow_iff, Int.natAbs_natCast,
      ← Double.log2_lt_iff (by decide)]
    exact h
  have hneg : decide ((n : ℚ) < 0) = false := by
    rw [decide_eq_false_iff_not, not_lt]
    exact n.cast_nonneg
  rw [Numeric.ofRat, dif_neg hbig, hneg]

/-- A big integer that is not negative becomes the number nearest to it. -/
theorem toNum_ofNat (n : ℕ) : (Number.ofNat n).toNum = .ofRat n := by
  unfold Number.ofNat
  split_ifs with h
  · rw [toNum_whole, Int.cast_natCast, ofRat_round]
  · rw [ofRat_overflow h]
    decide +kernel

/-! ## Sums and comparisons of natural numbers -/

theorem ofRat_natCast {n : ℕ} (h : Double.IsDouble n) :
    Numeric.ofRat n = .finite (Whole.toFinite ⟨n, h⟩) := by
  have hwhole := (toNum_whole ⟨n, h⟩).symm
  rw [Int.cast_natCast] at hwhole
  exact hwhole

theorem isFinite_ofRat {n : ℕ} (h : Double.IsDouble n) : (Numeric.ofRat n).isFinite = true := by
  rw [ofRat_natCast h]
  rfl

theorem ofRat_inj {a b : ℕ} (ha : Double.IsDouble a) (hb : Double.IsDouble b)
    (h : Numeric.ofRat a = .ofRat b) : a = b := by
  rw [ofRat_natCast ha, ofRat_natCast hb] at h
  have hval := congrArg Binary64.Finite.val (Numeric.finite.inj h)
  simpa only [Whole.toFinite, Int.cast_natCast, Nat.cast_inj] using hval

theorem add_ofRat {a b : ℕ} (ha : Double.IsDouble a) (hb : Double.IsDouble b) :
    (Numeric.ofRat a).add (.ofRat b) = .ofRat (a + b : ℕ) := by
  rw [ofRat_natCast ha, ofRat_natCast hb, Nat.cast_add]
  simp only [Numeric.add, Whole.toFinite, Int.cast_natCast]

theorem lt_ofRat {a b : ℕ} (ha : Double.IsDouble a) (hb : Double.IsDouble b) :
    (Numeric.ofRat a).lt (.ofRat b) = decide (a < b) := by
  rw [ofRat_natCast ha, ofRat_natCast hb]
  simp only [Numeric.lt, Whole.toFinite, Int.cast_natCast, Nat.cast_lt]

/-- Rounding takes no number from `2 ^ 53` on below that. -/
theorem lt_ofRat_of_lt {a b : ℕ} (hb : b < 2 ^ 53) :
    (Numeric.ofRat a).lt (.ofRat b) = decide (a < b) := by
  rcases Nat.lt_or_ge a (2 ^ 53) with ha | ha
  · exact lt_ofRat (Double.isDouble_of_lt ha) (Double.isDouble_of_lt hb)
  have hfalse : decide (a < b) = false := decide_eq_false (by omega)
  rw [hfalse]
  by_cases h : Nat.log2 (Double.round a) < 1024
  · have hround := Double.le_round ha
    rw [← ofRat_round, lt_ofRat (Double.isDouble_round h) (Double.isDouble_of_lt hb),
      decide_eq_false_iff_not]
    omega
  · rw [ofRat_overflow h, ofRat_natCast (Double.isDouble_of_lt hb)]
    rfl

/-- Nothing that is not negative is less than a number that is. -/
theorem lt_ofRat_neg {x : Binary64.Finite} {q : ℚ} (hx : 0 ≤ x.val) (hq : q < 0) :
    (Numeric.finite x).lt (.ofRat q) = false := by
  unfold Numeric.ofRat
  split_ifs
  · have hround : Binary64.round q ≤ 0 := by
      rw [Binary64.round, if_pos hq, neg_nonpos]
      exact Binary64.roundAbs_nonneg (by linarith)
    rw [Numeric.lt, decide_eq_false_iff_not, not_lt]
    exact hround.trans hx
  · rw [decide_eq_true hq]
    rfl

theorem neg_ofRat {b : ℕ} (hb : Double.IsDouble b) :
    Numeric.ofRat (-(b : ℚ)) = .finite (Whole.toFinite ⟨-b, by simpa using hb⟩) := by
  have hwhole := (toNum_whole ⟨-b, by simpa using hb⟩).symm
  rw [Int.cast_neg, Int.cast_natCast] at hwhole
  exact hwhole

theorem sub_ofRat {a b : ℕ} (ha : Double.IsDouble a) (hb : Double.IsDouble b) :
    (Numeric.ofRat a).sub (.ofRat b) = .ofRat (a - b : ℚ) := by
  have hneg := neg_ofRat hb
  rw [ofRat_natCast ha, ofRat_natCast hb, Numeric.sub, Numeric.neg]
  simp only [Whole.toFinite, Int.cast_natCast, hneg, Numeric.add, Int.cast_neg, sub_eq_add_neg]

/-- A difference of small numbers is exact, and below zero it is below every bound. -/
theorem lt_sub_ofRat {m a b : ℕ} (hm : m < 2 ^ 53) (ha : a < 2 ^ 53) (hb : Double.IsDouble b) :
    (Numeric.ofRat m).lt ((Numeric.ofRat a).sub (.ofRat b)) = decide (m + b < a) := by
  rw [sub_ofRat (Double.isDouble_of_lt ha) hb]
  rcases Nat.lt_or_ge a b with h | h
  · have hneg : (a : ℚ) - b < 0 := sub_neg.mpr (Nat.cast_lt.mpr h)
    rw [ofRat_natCast (Double.isDouble_of_lt hm), lt_ofRat_neg ?_ hneg]
    · exact (decide_eq_false (by omega)).symm
    · simp only [Whole.toFinite, Int.cast_natCast, Nat.cast_nonneg]
  · rw [← Nat.cast_sub h, lt_ofRat_of_lt (by omega)]
    exact decide_eq_decide.mpr (by omega)

/-! ## Doubles and natural numbers -/

/-- The double nearest to a natural number, unless it is too large. -/
theorem ofRat_natCast_cases (n : ℕ) :
    (∃ y, Numeric.ofRat n = .finite y ∧ y.val = Double.round n) ∨
      (Numeric.ofRat n = .infinity false ∧ ∀ x : Binary64.Finite, x.val < n) := by
  by_cases h : Nat.log2 (Double.round n) < 1024
  · refine .inl ⟨Whole.toFinite ⟨Double.round n, Double.isDouble_round h⟩, ?_, ?_⟩
    · rw [← ofRat_round, ofRat_natCast (Double.isDouble_round h)]
    · exact Int.cast_natCast _
  · refine .inr ⟨ofRat_overflow h, fun x => ?_⟩
    by_contra hle
    have hround := Binary64.round_le_of_le (not_lt.mp hle)
    have hbound := (abs_lt.mp x.bounded).2
    have hlt : |((Double.round n : ℤ) : ℚ)| < 2 ^ 1024 := by
      rw [Int.cast_natCast, abs_of_nonneg (Nat.cast_nonneg _)]
      exact lt_of_le_of_lt hround hbound
    rw [abs_lt_two_pow_iff, Int.natAbs_natCast, ← Double.log2_lt_iff (by norm_num)] at hlt
    exact h hlt

/-- A double is below the number nearest to `n` when it is below `n` and not that number. -/
theorem lt_ofRat_iff {x : Binary64.Finite} {n : ℕ} :
    (Numeric.finite x).lt (.ofRat n) = true ↔ x.val < n ∧ Numeric.ofRat n ≠ .finite x := by
  rcases ofRat_natCast_cases n with ⟨y, hy, hval⟩ | ⟨hinf, hlt⟩
  · have hne : Numeric.finite y ≠ .finite x ↔ y.val ≠ x.val := by
      rw [ne_eq, Numeric.finite.injEq, Binary64.Finite.ext_iff]
    rw [hy, hne, hval, Numeric.lt, decide_eq_true_iff, hval]
    constructor
    · intro h
      refine ⟨?_, h.ne'⟩
      by_contra hle
      exact absurd (Binary64.round_le_of_le (not_lt.mp hle)) (not_le.mpr h)
    · rintro ⟨hlt, hne⟩
      exact lt_of_le_of_ne (Binary64.le_round_of_lt hlt) (Ne.symm hne)
  · rw [hinf]
    exact iff_of_true rfl ⟨hlt x, by rintro ⟨⟩⟩

theorem ofRat_le_iff {x : Binary64.Finite} {n : ℕ} :
    (Numeric.ofRat n).le (.finite x) = true ↔ (n : ℚ) ≤ x.val ∨ Numeric.ofRat n = .finite x := by
  have hlt := Numeric.lt_eq_false_iff (a := .ofRat n) (b := .finite x)
  simp only [Numeric.ofRat_ne_nan, reduceCtorEq, or_false] at hlt
  rw [← hlt, ← Bool.not_eq_true, lt_ofRat_iff, not_and_or, not_lt, not_not]

/-! ## `Number(..)` of a value -/

/-- `Number(v)`. -/
def Value.toNumber : Value → Except Error Numeric
  | .undefined => .ok .nan
  | .null => .ok (.ofRat 0)
  | .bool b => .ok (.ofRat (if b then 1 else 0))
  | .number x => .ok x.toNum
  | .string s => .ok (stringToNumber s)
  | v => v.text.map stringToNumber

end Js
