import Gatekeeper.Lib.Json

/-!
# Percent escapes

What `decodeURIComponent` reads: `%` and two hex digits are a byte, every other character is its
own UTF-8 bytes, and all the bytes together have to be UTF-8. A text that has an escape in it gets
shorter.
-/

namespace Percent

open Encoding Json

/-! ## Sizes -/

/-- How many bytes a text takes. -/
def size (cs : List Char) : ℕ := (String.ofList cs).utf8ByteSize

@[simp] theorem size_nil : size [] = 0 := by
  rw [size, String.ofList_nil, String.utf8ByteSize_empty]

@[simp] theorem size_cons (c : Char) (cs : List Char) : size (c :: cs) = c.utf8Size + size cs := by
  rw [size, String.ofList_cons, String.utf8ByteSize_append, String.utf8ByteSize_singleton, size]

@[simp] theorem size_append (cs ds : List Char) : size (cs ++ ds) = size cs + size ds := by
  rw [size, String.ofList_append, String.utf8ByteSize_append, size, size]

/-- A hex digit takes one byte. -/
theorem utf8Size_of_hexDigit {c : Char} {n : ℕ} (h : hexDigitValue c = some n) :
    c.utf8Size = 1 := by
  rw [Char.utf8Size_eq_one_iff]
  rw [hexDigitValue] at h
  split_ifs at h with h₁ h₂ h₃
  · exact UInt32.le_trans h₁.2 (by decide)
  · exact UInt32.le_trans h₂.2 (by decide)
  · exact UInt32.le_trans h₃.2 (by decide)

theorem hexDigitValue_percent : hexDigitValue '%' = none := by decide

/-! ## Decoding -/

/-- The bytes that a text with escapes spells. -/
def bytes : List Char → Option Bytes
  | [] => some []
  | c :: cs =>
    if c = '%' then
      match cs with
      | a :: b :: rest => do
        let hi ← hexDigitValue a
        let lo ← hexDigitValue b
        let bs ← bytes rest
        return UInt8.ofNat (hi * 16 + lo) :: bs
      | _ => none
    else (bytes cs).map (utf8 (String.singleton c) ++ ·)

/-- The text that a text with escapes spells, if there is one. -/
def decode (cs : List Char) : Option (List Char) := ((bytes cs).bind ofUtf8).map String.toList

theorem bytes_cons {c : Char} (h : c ≠ '%') (cs : List Char) :
    bytes (c :: cs) = (bytes cs).map (utf8 (String.singleton c) ++ ·) := by
  rw [bytes.eq_def]
  exact if_neg h

theorem bytes_percent {a b : Char} {cs : List Char} :
    bytes ('%' :: a :: b :: cs) = do
      let hi ← hexDigitValue a
      let lo ← hexDigitValue b
      let bs ← bytes cs
      return UInt8.ofNat (hi * 16 + lo) :: bs := by
  rw [bytes.eq_def]
  rfl

/-- Each escape takes three bytes to spell one. -/
theorem length_bytes {cs : List Char} {bs : Bytes} (h : bytes cs = some bs) :
    bs.length + 2 * cs.count '%' = size cs := by
  induction cs using bytes.induct generalizing bs with
  | case1 =>
    obtain rfl := Option.some.inj h
    rfl
  | case2 a b rest ih =>
    rw [bytes_percent] at h
    simp only [Option.bind_eq_bind, Option.bind_eq_some_iff, Option.pure_def,
      Option.some.injEq] at h
    obtain ⟨hi, hhi, lo, hlo, ds, hds, rfl⟩ := h
    have hrest := ih hds
    have ha : a ≠ '%' := by
      rintro rfl
      exact absurd hhi (by rw [hexDigitValue_percent]; exact nofun)
    have hb : b ≠ '%' := by
      rintro rfl
      exact absurd hlo (by rw [hexDigitValue_percent]; exact nofun)
    have hone : '%'.utf8Size = 1 := by decide
    rw [List.count_cons_self, List.count_cons_of_ne ha, List.count_cons_of_ne hb, size_cons,
      size_cons, size_cons, utf8Size_of_hexDigit hhi, utf8Size_of_hexDigit hlo, hone,
      List.length_cons]
    omega
  | case3 cs hcs =>
    rw [bytes.eq_def] at h
    simp only [if_true] at h
    cases h
  | case4 c cs hc ih =>
    rw [bytes_cons hc, Option.map_eq_some_iff] at h
    obtain ⟨ds, hds, rfl⟩ := h
    have hrest := ih hds
    rw [List.count_cons_of_ne hc, size_cons, List.length_append, length_utf8,
      String.utf8ByteSize_singleton]
    omega

/-- What is decoded is shorter by two bytes for each escape. -/
theorem size_of_decode {cs ds : List Char} (h : decode cs = some ds) :
    size ds + 2 * cs.count '%' = size cs := by
  obtain ⟨s, hs, rfl⟩ := Option.map_eq_some_iff.mp h
  obtain ⟨bs, hbs, hread⟩ := Option.bind_eq_some_iff.mp hs
  have hlen : size s.toList = bs.length := by
    rw [← utf8_of_ofUtf8 hread, length_utf8, size, String.ofList_toList]
  rw [hlen, length_bytes hbs]

/-- A text without escapes in front of another. -/
theorem bytes_append {xs : List Char} (h : '%' ∉ xs) (ys : List Char) :
    bytes (xs ++ ys) = (bytes ys).map (utf8 (String.ofList xs) ++ ·) := by
  induction xs with
  | nil => cases hys : bytes ys <;> simp [hys, utf8]
  | cons c xs ih =>
    rw [List.mem_cons, not_or] at h
    rw [List.cons_append, bytes_cons (Ne.symm h.1), ih h.2, Option.map_map]
    congr 1
    funext bs
    have happend : utf8 (String.ofList (c :: xs)) =
        utf8 (String.singleton c) ++ utf8 (String.ofList xs) := by
      simp [utf8, String.ofList_cons]
    rw [happend, List.append_assoc]
    rfl

/-- A text without escapes is its own decoding. -/
theorem decode_of_not_mem {cs : List Char} (h : '%' ∉ cs) : decode cs = some cs := by
  have hbytes := bytes_append h []
  rw [List.append_nil, bytes, Option.map_some, List.append_nil] at hbytes
  rw [decode, hbytes, Option.bind_some, ofUtf8_utf8, Option.map_some, String.toList_ofList]

/-- One escaped colon is decoded. -/
theorem decode_colon {xs ys : List Char} (hx : '%' ∉ xs) (hy : '%' ∉ ys) :
    decode (xs ++ "%3A".toList ++ ys) = some (xs ++ ':' :: ys) := by
  have htail : bytes ys = some (utf8 (String.ofList ys)) := by
    have hbytes := bytes_append hy []
    rw [List.append_nil, bytes, Option.map_some, List.append_nil] at hbytes
    exact hbytes
  have hthree : hexDigitValue '3' = some 3 := by decide
  have hten : hexDigitValue 'A' = some 10 := by decide
  have hcolon : UInt8.ofNat (3 * 16 + 10) :: utf8 (String.ofList ys) =
      utf8 (String.ofList (':' :: ys)) := by
    simp [utf8, String.ofList_cons]
    rfl
  have hescape : bytes ("%3A".toList ++ ys) = some (utf8 (String.ofList (':' :: ys))) := by
    rw [← hcolon]
    change bytes ('%' :: '3' :: 'A' :: ys) = _
    rw [bytes_percent, hthree, hten, htail]
    rfl
  have happend : utf8 (String.ofList xs) ++ utf8 (String.ofList (':' :: ys)) =
      utf8 (String.ofList (xs ++ ':' :: ys)) := by
    simp [utf8, String.ofList_append]
  rw [decode, List.append_assoc, bytes_append hx, hescape, Option.map_some, happend,
    Option.bind_some, ofUtf8_utf8, Option.map_some, String.toList_ofList]

end Percent
