import Mathlib.Data.List.Basic
import Mathlib.Data.Nat.ModEq
import Mathlib.Logic.Function.Basic

/-!
# Byte encodings

Text as UTF-8 bytes, fixed-width big-endian numbers, the length-prefixed concatenation of
a list of fields, and lower-case hex. Each encoding comes with what makes it safe to hash
or compare: it is injective on the inputs it is used for.
-/

namespace Encoding

/-- A byte string. -/
abbrev Bytes : Type := List UInt8

/-! ## Text -/

/-- The UTF-8 bytes of a text. -/
def utf8 (s : String) : Bytes := s.toByteArray.data.toList

@[simp] theorem length_utf8 (s : String) : (utf8 s).length = s.utf8ByteSize := by
  simp only [utf8, Array.length_toList, String.utf8ByteSize]
  rfl

theorem utf8_injective : Function.Injective utf8 := by
  intro s t h
  have hdata : s.toByteArray.data = t.toByteArray.data := Array.toList_inj.mp h
  exact String.toByteArray_inj.mp (ByteArray.ext hdata)

@[simp] theorem utf8_inj {s t : String} : utf8 s = utf8 t ↔ s = t := utf8_injective.eq_iff

/-- The text whose UTF-8 bytes these are, if there is one. -/
def ofUtf8 (b : Bytes) : Option String := String.fromUTF8? ⟨b.toArray⟩

/-- Reading back the bytes of a text gives the text. -/
@[simp] theorem ofUtf8_utf8 (s : String) : ofUtf8 (utf8 s) = some s := by
  have hbytes : (⟨(utf8 s).toArray⟩ : ByteArray) = s.toByteArray := by
    apply ByteArray.ext
    simp [utf8]
  rw [ofUtf8, hbytes, String.fromUTF8?, dif_pos s.isValidUTF8]
  rfl

/-- A text is read only from its own bytes. -/
theorem utf8_of_ofUtf8 {b : Bytes} {s : String} (h : ofUtf8 b = some s) : utf8 s = b := by
  rw [ofUtf8, String.fromUTF8?] at h
  split at h
  · cases h
    simp [utf8, String.fromUTF8]
  · cases h

/-- A text of one-byte characters has as many bytes as characters. -/
theorem utf8ByteSize_ofList_of_ascii {l : List Char} (h : ∀ c ∈ l, c.utf8Size = 1) :
    (String.ofList l).utf8ByteSize = l.length := by
  induction l with
  | nil => simp
  | cons c l ih =>
    rw [List.forall_mem_cons] at h
    rw [String.ofList_cons, String.utf8ByteSize_append, String.utf8ByteSize_singleton, ih h.2,
      h.1, List.length_cons, Nat.add_comm]

/-! ## Big-endian numbers -/

/-- The low `w` bytes of `n`, most significant first. -/
def bigEndian : ℕ → ℕ → Bytes
  | 0, _ => []
  | w + 1, n => UInt8.ofNat (n / 256 ^ w) :: bigEndian w n

@[simp] theorem length_bigEndian (w n : ℕ) : (bigEndian w n).length = w := by
  induction w with
  | zero => rfl
  | succ w ih => simp [bigEndian, ih]

/-- `w` bytes tell numbers apart exactly up to `256 ^ w`. -/
theorem bigEndian_eq_iff {w n m : ℕ} :
    bigEndian w n = bigEndian w m ↔ n % 256 ^ w = m % 256 ^ w := by
  induction w with
  | zero => simp [bigEndian, Nat.mod_one]
  | succ w ih =>
    -- the leading byte settles the quotient modulo 256, the other bytes the remainder
    have hbyte : UInt8.ofNat (n / 256 ^ w) = UInt8.ofNat (m / 256 ^ w) ↔
        n / 256 ^ w % 256 = m / 256 ^ w % 256 := by
      rw [← UInt8.toNat_inj, UInt8.toNat_ofNat', UInt8.toNat_ofNat']
    have hpos : 0 < 256 ^ w := Nat.pow_pos (by decide)
    rw [bigEndian, bigEndian, List.cons.injEq, ih, hbyte, Nat.mod_pow_succ, Nat.mod_pow_succ]
    constructor
    · rintro ⟨h₁, h₂⟩
      rw [h₁, h₂]
    · intro h
      have hmod := congrArg (· % 256 ^ w) h
      simp only [Nat.add_mul_mod_self_left, Nat.mod_mod] at hmod
      rw [hmod] at h
      exact ⟨Nat.eq_of_mul_eq_mul_left hpos (Nat.add_left_cancel h), hmod⟩

theorem bigEndian_inj {w n m : ℕ} (hn : n < 256 ^ w) (hm : m < 256 ^ w)
    (h : bigEndian w n = bigEndian w m) : n = m := by
  rw [bigEndian_eq_iff, Nat.mod_eq_of_lt hn, Nat.mod_eq_of_lt hm] at h
  exact h

/-! ## Length-prefixed fields -/

/-- A field with its length, as eight bytes, in front. -/
def frame (f : Bytes) : Bytes := bigEndian 8 f.length ++ f

/-- The concatenation of the framed fields. -/
def frames (fs : List Bytes) : Bytes := fs.flatMap frame

@[simp] theorem frames_nil : frames [] = [] := rfl

@[simp] theorem frames_cons (f : Bytes) (fs : List Bytes) :
    frames (f :: fs) = frame f ++ frames fs := rfl

/-- A field short enough for its prefix can be read off the front. -/
theorem frame_append_inj {f g r s : Bytes} (hf : f.length < 2 ^ 64) (hg : g.length < 2 ^ 64)
    (h : frame f ++ r = frame g ++ s) : f = g ∧ r = s := by
  rw [frame, frame, List.append_assoc, List.append_assoc] at h
  -- the two prefixes have the same eight bytes, and they hold the two lengths
  obtain ⟨hlen, hrest⟩ := List.append_inj h (by simp)
  have hlength : f.length = g.length := bigEndian_inj (by omega) (by omega) hlen
  exact List.append_inj hrest hlength

/-- The framed concatenation determines the fields: where one ends and the next begins
cannot be moved. -/
theorem frames_inj {fs gs : List Bytes} (hf : ∀ f ∈ fs, f.length < 2 ^ 64)
    (hg : ∀ g ∈ gs, g.length < 2 ^ 64) (h : frames fs = frames gs) : fs = gs := by
  induction fs generalizing gs with
  | nil =>
    cases gs with
    | nil => rfl
    | cons g gs => simp [frame, bigEndian] at h
  | cons f fs ih =>
    cases gs with
    | nil => simp [frame, bigEndian] at h
    | cons g gs =>
      simp only [List.forall_mem_cons] at hf hg
      rw [frames_cons, frames_cons] at h
      obtain ⟨rfl, hrest⟩ := frame_append_inj hf.1 hg.1 h
      rw [ih hf.2 hg.2 hrest]

/-! ## Hex -/

/-- The lower-case hex digit of a number below sixteen. -/
def hexDigit (n : ℕ) : Char := "0123456789abcdef".toList.getD n '0'

/-- Two digits for each byte, high half first. -/
def hexChars (b : Bytes) : List Char :=
  b.flatMap fun x => [hexDigit (x.toNat / 16), hexDigit (x.toNat % 16)]

/-- Lower-case hex text. -/
def hexEncode (b : Bytes) : String := String.ofList (hexChars b)

theorem length_hexChars (b : Bytes) : (hexChars b).length = 2 * b.length := by
  induction b with
  | nil => rfl
  | cons x b ih =>
    rw [hexChars, List.flatMap_cons, List.length_append, ← hexChars, ih]
    simp only [List.length_cons, List.length_nil]
    omega

theorem hexDigit_inj {n m : ℕ} (hn : n < 16) (hm : m < 16) (h : hexDigit n = hexDigit m) :
    n = m := by
  have table : ∀ i j : Fin 16, hexDigit i = hexDigit j → i = j := by decide
  simpa using table ⟨n, hn⟩ ⟨m, hm⟩ h

theorem hexChars_injective : Function.Injective hexChars := by
  intro b c h
  induction b generalizing c with
  | nil =>
    cases c with
    | nil => rfl
    | cons y c => simp [hexChars] at h
  | cons x b ih =>
    cases c with
    | nil => simp [hexChars] at h
    | cons y c =>
      simp only [hexChars, List.flatMap_cons, List.cons_append, List.nil_append,
        List.cons.injEq] at h
      obtain ⟨hhi, hlo, hrest⟩ := h
      -- a byte is its high half and its low half
      have hx : x.toNat < 256 := x.toNat_lt
      have hy : y.toNat < 256 := y.toNat_lt
      have hdiv := hexDigit_inj (by omega) (by omega) hhi
      have hmod := hexDigit_inj (by omega) (by omega) hlo
      have hxy : x = y := UInt8.toNat_inj.mp (by omega)
      rw [hxy, ih hrest]

theorem hexEncode_injective : Function.Injective hexEncode := by
  intro b c h
  exact hexChars_injective (String.ofList_injective h)

/-- Every hex digit is one byte of UTF-8. -/
theorem hexDigit_utf8Size (n : ℕ) : (hexDigit n).utf8Size = 1 := by
  by_cases hn : n < 16
  · have table : ∀ i : Fin 16, (hexDigit i).utf8Size = 1 := by decide
    exact table ⟨n, hn⟩
  -- past the table the digit is the default, `'0'`
  · have hlen : "0123456789abcdef".toList.length ≤ n := by
      have : "0123456789abcdef".toList.length = 16 := by decide
      omega
    rw [hexDigit, List.getD_eq_getElem?_getD, List.getElem?_eq_none hlen]
    decide

theorem utf8Size_of_mem_hexChars {b : Bytes} {c : Char} (hc : c ∈ hexChars b) :
    c.utf8Size = 1 := by
  simp only [hexChars, List.mem_flatMap, List.mem_cons, List.not_mem_nil, or_false] at hc
  obtain ⟨x, -, rfl | rfl⟩ := hc
  · exact hexDigit_utf8Size _
  · exact hexDigit_utf8Size _

/-- Hex text takes two bytes for each byte it shows. -/
theorem utf8ByteSize_hexEncode (b : Bytes) : (hexEncode b).utf8ByteSize = 2 * b.length := by
  rw [hexEncode, utf8ByteSize_ofList_of_ascii, length_hexChars]
  intro c hc
  exact utf8Size_of_mem_hexChars hc

/-! ## Decimal -/

theorem repr_injective : Function.Injective Nat.repr := by
  intro n m h
  have hdigits : Nat.toDigits 10 n = Nat.toDigits 10 m := by
    rw [← Nat.toList_repr, ← Nat.toList_repr, h]
  have hvalue := congrArg (Nat.ofDigitChars 10 · 0) hdigits
  simpa only [Nat.ofDigitChars_ten_toDigits] using hvalue

/-- A number below `10 ^ k` takes at most `k` bytes in decimal. -/
theorem utf8ByteSize_repr_le {n k : ℕ} (hk : 0 < k) (h : n < 10 ^ k) :
    n.repr.utf8ByteSize ≤ k := by
  rw [Nat.repr_eq_ofList_toDigits, utf8ByteSize_ofList_of_ascii]
  · exact (Nat.length_toDigits_le_iff (by decide) hk).mpr h
  · intro c hc
    -- a decimal digit is one byte of UTF-8
    have hdigit : c.isDigit = true := Nat.isDigit_of_mem_toDigits (by decide) (by decide) hc
    rw [Char.utf8Size_eq_one_iff]
    simp only [Char.isDigit, Bool.and_eq_true, decide_eq_true_eq] at hdigit
    exact UInt32.le_trans hdigit.2 (by decide)

end Encoding
