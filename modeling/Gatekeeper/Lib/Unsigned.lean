import Mathlib.Algebra.Group.Nat.Defs
import Mathlib.Data.Nat.Init
import Mathlib.Order.Basic

/-!
# `u64` of the Rust standard library

Saturating addition and subtraction, and the reading of a number from its decimal text.
-/

namespace Unsigned

/-- `u64::MAX`. -/
def maxU64 : ℕ := 2 ^ 64 - 1

theorem toNat_le_maxU64 (a : UInt64) : a.toNat ≤ maxU64 := Nat.le_pred_of_lt a.toNat_lt

theorem lt_of_le_maxU64 {n : ℕ} (h : n ≤ maxU64) : n < 2 ^ 64 := by
  unfold maxU64 at h
  omega

/-- `u64::saturating_add`. -/
def saturatingAdd (a b : UInt64) : UInt64 := UInt64.ofNat (min (a.toNat + b.toNat) maxU64)

@[simp] theorem toNat_saturatingAdd (a b : UInt64) :
    (saturatingAdd a b).toNat = min (a.toNat + b.toNat) maxU64 :=
  UInt64.toNat_ofNat_of_lt' (lt_of_le_maxU64 (Nat.min_le_right _ _))

/-- `u64::saturating_sub`. -/
def saturatingSub (a b : UInt64) : UInt64 := UInt64.ofNat (a.toNat - b.toNat)

@[simp] theorem toNat_saturatingSub (a b : UInt64) :
    (saturatingSub a b).toNat = a.toNat - b.toNat :=
  UInt64.toNat_ofNat_of_lt' (Nat.lt_of_le_of_lt (Nat.sub_le _ _) a.toNat_lt)

/-- The text without a leading `+`. -/
def dropPlus : List Char → List Char
  | '+' :: ds => ds
  | ds => ds

/-- `str::parse::<u64>`: one or more decimal digits, after an optional `+`, that spell a
number in range. -/
def parseU64 (s : String) : Option UInt64 :=
  let ds := dropPlus s.toList
  let n := Nat.ofDigitChars 10 ds 0
  if ds ≠ [] ∧ ds.all Char.isDigit ∧ n ≤ maxU64 then some (UInt64.ofNat n) else none

theorem dropPlus_of_isDigit {ds : List Char} (h : ∀ c ∈ ds, c.isDigit = true) :
    dropPlus ds = ds := by
  unfold dropPlus
  split
  · exact absurd (h '+' List.mem_cons_self) (by decide)
  · rfl

/-- A number is read back from its text. -/
@[simp] theorem parseU64_toString (n : UInt64) : parseU64 (toString n) = some n := by
  have hdigits : ∀ c ∈ Nat.toDigits 10 n.toNat, c.isDigit = true := fun c hc =>
    Nat.isDigit_of_mem_toDigits (by decide) (by decide) hc
  have hdrop : dropPlus (toString n).toList = Nat.toDigits 10 n.toNat := by
    show dropPlus (n.toNat.repr).toList = _
    rw [Nat.toList_repr, dropPlus_of_isDigit hdigits]
  have hvalid : Nat.toDigits 10 n.toNat ≠ [] ∧ (Nat.toDigits 10 n.toNat).all Char.isDigit ∧
      n.toNat ≤ maxU64 :=
    ⟨Nat.toDigits_ne_nil, List.all_eq_true.mpr hdigits, toNat_le_maxU64 n⟩
  simp only [parseU64, hdrop, Nat.ofDigitChars_ten_toDigits]
  rw [if_pos hvalid, UInt64.ofNat_toNat]

example : parseU64 "+007" = some 7 := by decide

end Unsigned
