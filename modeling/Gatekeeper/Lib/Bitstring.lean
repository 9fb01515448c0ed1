import Gatekeeper.Lib.Encoding

/-!
# Bit strings in bytes

Single bits of a byte, and the bits of a byte string counted from the most significant bit of
its first byte. Writing a bit changes no other one.
-/

namespace Bitstring

open Encoding

/-! ## Bits of a byte -/

/-- `(x >> k) & 1`. -/
def bit (x : UInt8) (k : ℕ) : ℕ := x.toNat >>> k &&& 1

/-- `1 << k`. -/
def mask (k : ℕ) : UInt8 := UInt8.ofNat (1 <<< k)

/-- The byte with one bit set or cleared. -/
def assign (x : UInt8) (k : ℕ) (on : Bool) : UInt8 :=
  if on then x ||| mask k else x &&& ~~~mask k

theorem bit_eq_getLsbD (x : UInt8) (k : ℕ) : bit x k = (x.toBitVec.getLsbD k).toNat := by
  have h : x.toNat >>> k &&& 1 = (x.toNat.testBit k).toNat := by
    rw [Nat.and_one_is_mod, Nat.testBit_eq_decide_div_mod_eq, Nat.shiftRight_eq_div_pow]
    rcases Nat.mod_two_eq_zero_or_one (x.toNat / 2 ^ k) with h | h <;> simp [h]
  exact h

theorem getLsbD_mask {k i : ℕ} (hi : i < 8) :
    (mask k).toBitVec.getLsbD i = decide (k = i) := by
  rw [mask, UInt8.toBitVec_ofNat', BitVec.getLsbD_ofNat, Nat.one_shiftLeft, Nat.testBit_two_pow]
  simp [hi]

theorem getLsbD_assign {x : UInt8} {k i : ℕ} (on : Bool) (hi : i < 8) :
    (assign x k on).toBitVec.getLsbD i = if i = k then on else x.toBitVec.getLsbD i := by
  have hmask := @getLsbD_mask k i hi
  by_cases h : i = k
  · subst h
    cases on <;> simp only [assign, if_true, Bool.false_eq_true, if_false, UInt8.toBitVec_or,
      UInt8.toBitVec_and, UInt8.toBitVec_not, BitVec.getLsbD_or, BitVec.getLsbD_and,
      BitVec.getLsbD_not, hmask, decide_true, Bool.not_true, Bool.or_true, Bool.and_false]
  · have hne : decide (k = i) = false := decide_eq_false fun hk => h hk.symm
    cases on <;> simp only [assign, if_true, Bool.false_eq_true, if_false, UInt8.toBitVec_or,
      UInt8.toBitVec_and, UInt8.toBitVec_not, BitVec.getLsbD_or, BitVec.getLsbD_and,
      BitVec.getLsbD_not, hmask, hne, hi, h, decide_true, Bool.not_false, Bool.and_true,
      Bool.or_false]

theorem bit_assign {x : UInt8} {k i : ℕ} (on : Bool) (hi : i < 8) :
    bit (assign x k on) i = if i = k then on.toNat else bit x i := by
  rw [bit_eq_getLsbD, bit_eq_getLsbD, getLsbD_assign on hi]
  split <;> rfl

/-- A byte is its eight bits. -/
theorem eq_of_bits {x y : UInt8} (h : ∀ i < 8, bit x i = bit y i) : x = y := by
  apply UInt8.toBitVec_inj.mp
  apply BitVec.eq_of_getLsbD_eq
  intro i hi
  have hbit := h i hi
  rw [bit_eq_getLsbD, bit_eq_getLsbD] at hbit
  revert hbit
  cases x.toBitVec.getLsbD i <;> cases y.toBitVec.getLsbD i <;> simp

theorem bit_le_one (x : UInt8) (k : ℕ) : bit x k ≤ 1 := by
  rw [bit_eq_getLsbD]
  exact Bool.toNat_le _

/-! ## Bits of a byte string -/

/-- Bit `n` of a byte string; past its end the bits are zero. -/
def bitAt (bytes : Bytes) (n : ℕ) : ℕ := bit (bytes.getD (n / 8) 0) (7 - n % 8)

def writeBit (bytes : Bytes) (n : ℕ) (on : Bool) : Bytes :=
  bytes.set (n / 8) (assign (bytes.getD (n / 8) 0) (7 - n % 8) on)

@[simp] theorem length_writeBit (bytes : Bytes) (n : ℕ) (on : Bool) :
    (writeBit bytes n on).length = bytes.length := List.length_set

theorem bitAt_le_one (bytes : Bytes) (n : ℕ) : bitAt bytes n ≤ 1 := bit_le_one _ _

theorem getD_set_self {bytes : Bytes} {j : ℕ} (h : j < bytes.length) (x : UInt8) :
    (bytes.set j x).getD j 0 = x := by
  simp [List.getD_eq_getElem?_getD, h]

theorem getD_set_other {bytes : Bytes} {j k : ℕ} (h : k ≠ j) (x : UInt8) :
    (bytes.set j x).getD k 0 = bytes.getD k 0 := by
  simp [List.getD_eq_getElem?_getD, h.symm]

/-- The bit written is read back, and every other bit is as it was. -/
theorem bitAt_writeBit {bytes : Bytes} {n : ℕ} (hn : n < 8 * bytes.length) (on : Bool) (m : ℕ) :
    bitAt (writeBit bytes n on) m = if m = n then on.toNat else bitAt bytes m := by
  have hbyte : n / 8 < bytes.length := by omega
  by_cases hsame : m / 8 = n / 8
  · rw [bitAt, writeBit, hsame, getD_set_self hbyte, bit_assign on (by omega), bitAt, hsame]
    have hiff : 7 - m % 8 = 7 - n % 8 ↔ m = n := by omega
    simp only [hiff]
  · have hne : m ≠ n := fun h => hsame (by rw [h])
    rw [bitAt, writeBit, getD_set_other hsame, if_neg hne, bitAt]

/-- Two byte strings of one length with the same bits are equal. -/
theorem eq_of_bitAt {xs ys : Bytes} (hlen : xs.length = ys.length)
    (h : ∀ n < 8 * xs.length, bitAt xs n = bitAt ys n) : xs = ys := by
  apply List.ext_getElem hlen
  intro j hx hy
  apply eq_of_bits
  intro i hi
  have hbit := h (8 * j + (7 - i)) (by omega)
  have hdiv : (8 * j + (7 - i)) / 8 = j := by omega
  have hmod : 7 - (8 * j + (7 - i)) % 8 = i := by omega
  rw [bitAt, bitAt, hdiv, hmod] at hbit
  simpa [List.getD_eq_getElem?_getD, hx, hy] using hbit

/-- Writing the old bit back undoes a write. -/
theorem writeBit_undo {bytes : Bytes} {n : ℕ} (hn : n < 8 * bytes.length) (on : Bool) :
    writeBit (writeBit bytes n on) n (bitAt bytes n == 1) = bytes := by
  have hold : (bitAt bytes n == 1).toNat = bitAt bytes n := by
    have hle := bitAt_le_one bytes n
    rcases Nat.le_one_iff_eq_zero_or_eq_one.mp hle with h | h <;> simp [h]
  apply eq_of_bitAt
  · simp
  · intro m hm
    rw [bitAt_writeBit (by simpa using hn), bitAt_writeBit hn]
    by_cases h : m = n
    · rw [if_pos h, hold, h]
    · rw [if_neg h, if_neg h]

theorem bitAt_zeros (k n : ℕ) : bitAt (List.replicate k 0) n = 0 := by
  have hzero : (List.replicate k (0 : UInt8)).getD (n / 8) 0 = 0 := by
    rw [List.getD_eq_getElem?_getD, List.getElem?_replicate]
    split <;> rfl
  rw [bitAt, hzero, bit_eq_getLsbD]
  simp

end Bitstring
