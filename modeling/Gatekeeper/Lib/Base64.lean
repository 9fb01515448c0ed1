import Gatekeeper.Lib.Encoding

/-!
# Base64

The standard alphabet with padding, written and read back. What is written uses the alphabet
and the padding only, and reading it gives the bytes.
-/

namespace Encoding

def base64Alphabet : List Char :=
  "ABCDEFGHIJKLMNOPQRSTUVWXYZabcdefghijklmnopqrstuvwxyz0123456789+/".toList

/-- The character of a six-bit number. -/
def base64Char (n : ℕ) : Char := base64Alphabet.getD n '='

/-- The six-bit number of a character; the padding has none. -/
def base64Value (c : Char) : Option ℕ := base64Alphabet.idxOf? c

/-- Four characters for each three bytes, the last group filled up with padding. -/
def base64Chars : Bytes → List Char
  | a :: b :: c :: rest =>
    base64Char (a.toNat / 4) :: base64Char (a.toNat % 4 * 16 + b.toNat / 16) ::
      base64Char (b.toNat % 16 * 4 + c.toNat / 64) :: base64Char (c.toNat % 64) ::
      base64Chars rest
  | [a, b] =>
    [base64Char (a.toNat / 4), base64Char (a.toNat % 4 * 16 + b.toNat / 16),
      base64Char (b.toNat % 16 * 4), '=']
  | [a] => [base64Char (a.toNat / 4), base64Char (a.toNat % 4 * 16), '=', '=']
  | [] => []

def base64Encode (b : Bytes) : String := String.ofList (base64Chars b)

/-- The bytes of a group of four six-bit numbers. -/
def groupBytes (a b c d : ℕ) : Bytes :=
  [UInt8.ofNat (a * 4 + b / 16), UInt8.ofNat (b % 16 * 16 + c / 4), UInt8.ofNat (c % 4 * 64 + d)]

/-- The bytes that groups of four characters spell; padding ends them. -/
def base64Bytes : List Char → Bytes
  | w :: x :: y :: z :: rest =>
    match base64Value w, base64Value x, base64Value y, base64Value z with
    | some a, some b, some c, some d => groupBytes a b c d ++ base64Bytes rest
    | some a, some b, some c, none => (groupBytes a b c 0).take 2
    | some a, some b, none, _ => (groupBytes a b 0 0).take 1
    | _, _, _, _ => []
  | _ => []

def base64Decode (s : String) : Bytes := base64Bytes s.toList

theorem base64Value_char {n : ℕ} (h : n < 64) : base64Value (base64Char n) = some n := by
  have table : ∀ i : Fin 64, base64Value (base64Char i) = some i.val := by
    decide +kernel
  exact table ⟨n, h⟩

theorem base64Value_padding : base64Value '=' = none := by decide

/-- Two numbers that split a byte make it again. -/
theorem ofNat_eq_self {x : UInt8} {n : ℕ} (h : n = x.toNat) : UInt8.ofNat n = x := by
  rw [h]
  exact UInt8.ofNat_toNat

theorem base64Bytes_chars (b : Bytes) : base64Bytes (base64Chars b) = b := by
  match b with
  | [] => rfl
  | [x] =>
    have hx := x.toNat_lt
    have h₁ : UInt8.ofNat (x.toNat / 4 * 4 + x.toNat % 4 * 16 / 16) = x :=
      ofNat_eq_self (by omega)
    rw [base64Chars, base64Bytes, base64Value_char (by omega), base64Value_char (by omega),
      base64Value_padding]
    simp only [groupBytes, h₁, List.take_succ_cons, List.take_zero]
  | [x, y] =>
    have hx := x.toNat_lt
    have hy := y.toNat_lt
    have h₁ : UInt8.ofNat (x.toNat / 4 * 4 + (x.toNat % 4 * 16 + y.toNat / 16) / 16) = x :=
      ofNat_eq_self (by omega)
    have h₂ : UInt8.ofNat ((x.toNat % 4 * 16 + y.toNat / 16) % 16 * 16 + y.toNat % 16 * 4 / 4) =
        y := ofNat_eq_self (by omega)
    rw [base64Chars, base64Bytes, base64Value_char (by omega), base64Value_char (by omega),
      base64Value_char (by omega), base64Value_padding]
    simp only [groupBytes, h₁, h₂, List.take_succ_cons, List.take_zero]
  | x :: y :: z :: rest =>
    have hx := x.toNat_lt
    have hy := y.toNat_lt
    have hz := z.toNat_lt
    have h₁ : UInt8.ofNat (x.toNat / 4 * 4 + (x.toNat % 4 * 16 + y.toNat / 16) / 16) = x :=
      ofNat_eq_self (by omega)
    have h₂ : UInt8.ofNat ((x.toNat % 4 * 16 + y.toNat / 16) % 16 * 16 +
        (y.toNat % 16 * 4 + z.toNat / 64) / 4) = y := ofNat_eq_self (by omega)
    have h₃ : UInt8.ofNat ((y.toNat % 16 * 4 + z.toNat / 64) % 4 * 64 + z.toNat % 64) = z :=
      ofNat_eq_self (by omega)
    rw [base64Chars, base64Bytes, base64Value_char (by omega), base64Value_char (by omega),
      base64Value_char (by omega), base64Value_char (by omega)]
    simp only [groupBytes, h₁, h₂, h₃, List.cons_append, List.nil_append, base64Bytes_chars rest]

/-- Reading what was written gives the bytes back. -/
@[simp] theorem base64Decode_encode (b : Bytes) : base64Decode (base64Encode b) = b := by
  rw [base64Decode, base64Encode, String.toList_ofList, base64Bytes_chars]

theorem base64Encode_injective : Function.Injective base64Encode :=
  Function.LeftInverse.injective base64Decode_encode

/-- Only the alphabet and the padding are written. -/
theorem mem_base64Chars {b : Bytes} {c : Char} (h : c ∈ base64Chars b) :
    c ∈ base64Alphabet ∨ c = '=' := by
  have hchar : ∀ n, base64Char n ∈ base64Alphabet ∨ base64Char n = '=' := by
    intro n
    rw [base64Char, List.getD_eq_getElem?_getD]
    cases hn : base64Alphabet[n]? with
    | none => exact .inr rfl
    | some d => exact .inl (List.mem_of_getElem? hn)
  match b with
  | [] => cases h
  | [x] =>
    simp only [base64Chars, List.mem_cons, List.not_mem_nil, or_false] at h
    rcases h with rfl | rfl | rfl | rfl
    · exact hchar _
    · exact hchar _
    · exact .inr rfl
    · exact .inr rfl
  | [x, y] =>
    simp only [base64Chars, List.mem_cons, List.not_mem_nil, or_false] at h
    rcases h with rfl | rfl | rfl | rfl
    · exact hchar _
    · exact hchar _
    · exact hchar _
    · exact .inr rfl
  | x :: y :: z :: rest =>
    simp only [base64Chars, List.mem_cons] at h
    rcases h with rfl | rfl | rfl | rfl | h
    · exact hchar _
    · exact hchar _
    · exact hchar _
    · exact hchar _
    · exact mem_base64Chars h

theorem base64Chars_ne_nil {b : Bytes} (h : b ≠ []) : base64Chars b ≠ [] := by
  match b with
  | [] => exact absurd rfl h
  | [x] => simp [base64Chars]
  | [x, y] => simp [base64Chars]
  | x :: y :: z :: rest => simp [base64Chars]

/-! ## Without padding, for URLs -/

def urlChar (c : Char) : Char := if c = '+' then '-' else if c = '/' then '_' else c

/-- The alphabet that is safe in URLs, and no padding. -/
def base64UrlEncode (b : Bytes) : String :=
  String.ofList (((base64Chars b).filter (· ≠ '=')).map urlChar)

def plainChar (c : Char) : Char := if c = '-' then '+' else if c = '_' then '/' else c

/-- The padding that fills up the last group. -/
def padding (n : ℕ) : List Char := List.replicate ((4 - n % 4) % 4) '='

def base64UrlDecode (s : String) : Bytes :=
  let cs := s.toList.map plainChar
  base64Bytes (cs ++ padding cs.length)

theorem base64Char_ne_padding {n : ℕ} (h : n < 64) : base64Char n ≠ '=' := by
  intro heq
  have hvalue := base64Value_char h
  rw [heq, base64Value_padding] at hvalue
  cases hvalue

theorem plainChar_urlChar {c : Char} (h : c ∈ base64Alphabet) : plainChar (urlChar c) = c := by
  have hall : base64Alphabet.all (fun c => plainChar (urlChar c) == c) = true := by decide
  exact beq_iff_eq.mp (List.all_eq_true.mp hall c h)

/-- The padding that was left out is put back. -/
theorem filter_append_padding (b : Bytes) :
    (base64Chars b).filter (· ≠ '=') ++ padding ((base64Chars b).filter (· ≠ '=')).length =
      base64Chars b := by
  have hkeep : ∀ n < 64, ∀ l : List Char, (base64Char n :: l).filter (· ≠ '=') =
      base64Char n :: l.filter (· ≠ '=') := fun n hn l =>
    List.filter_cons_of_pos (by simpa using base64Char_ne_padding hn)
  match b with
  | [] => rfl
  | [x] =>
    have hx := x.toNat_lt
    rw [base64Chars, hkeep _ (by omega), hkeep _ (by omega)]
    rfl
  | [x, y] =>
    have hx := x.toNat_lt
    have hy := y.toNat_lt
    rw [base64Chars, hkeep _ (by omega), hkeep _ (by omega), hkeep _ (by omega)]
    rfl
  | x :: y :: z :: rest =>
    have hx := x.toNat_lt
    have hy := y.toNat_lt
    have hz := z.toNat_lt
    have ih := filter_append_padding rest
    rw [base64Chars, hkeep _ (by omega), hkeep _ (by omega), hkeep _ (by omega),
      hkeep _ (by omega)]
    simp only [List.length_cons, List.cons_append, List.cons.injEq, true_and]
    -- a whole group does not change what is missing from the last one
    have hlen : padding (((base64Chars rest).filter (· ≠ '=')).length + 1 + 1 + 1 + 1) =
        padding ((base64Chars rest).filter (· ≠ '=')).length := by
      rw [padding, padding]
      congr 1
      omega
    rw [hlen, ih]

@[simp] theorem base64UrlDecode_encode (b : Bytes) :
    base64UrlDecode (base64UrlEncode b) = b := by
  have hplain : (((base64Chars b).filter (· ≠ '=')).map urlChar).map plainChar =
      (base64Chars b).filter (· ≠ '=') := by
    have hid : ∀ c ∈ (base64Chars b).filter (· ≠ '='), (plainChar ∘ urlChar) c = id c := by
      intro c hc
      obtain ⟨hmem, hne⟩ := List.mem_filter.mp hc
      rcases mem_base64Chars hmem with h | h
      · exact plainChar_urlChar h
      · simp [h] at hne
    rw [List.map_map, List.map_congr_left hid, List.map_id]
  rw [base64UrlDecode, base64UrlEncode, String.toList_ofList, hplain, filter_append_padding,
    base64Bytes_chars]

theorem base64UrlEncode_injective : Function.Injective base64UrlEncode :=
  Function.LeftInverse.injective base64UrlDecode_encode

end Encoding
