import Mathlib.Data.List.Infix
import Gatekeeper.Lib.Encoding

/-!
# Text functions of the Rust standard library

`trim`, `to_ascii_uppercase`, `contains`, byte slicing, `{:?}` and the lossy reading of
UTF-8, on `String`, and the line ends of ECMAScript. All of them work on the list of characters,
so they evaluate.
-/

namespace Text

open Encoding

/-- `char::is_whitespace`: the Unicode property `White_Space`. -/
def isWhitespace (c : Char) : Bool :=
  let n := c.toNat
  (9 ≤ n && n ≤ 13) || n == 0x20 || n == 0x85 || n == 0xA0 || n == 0x1680 ||
    (0x2000 ≤ n && n ≤ 0x200A) || n == 0x2028 || n == 0x2029 || n == 0x202F || n == 0x205F ||
    n == 0x3000

/-- `LineTerminator` of ECMAScript, which `.` does not match. -/
def isLineEnd (c : Char) : Bool := c == '\n' || c == '\r' || c == '\u2028' || c == '\u2029'

/-- `str::trim`. -/
def trim (s : String) : String :=
  String.ofList ((s.toList.dropWhile isWhitespace).reverse.dropWhile isWhitespace).reverse

/-- `str::to_ascii_uppercase`. -/
def toAsciiUppercase (s : String) : String := String.ofList (s.toList.map Char.toUpper)

/-- `str::contains` for a text pattern. -/
def contains (s pat : String) : Bool := decide (pat.toList <:+: s.toList)

/-- The characters of the first `n` bytes, when a character ends there. -/
def sliceChars : List Char → ℕ → Option (List Char)
  | _, 0 => some []
  | [], _ + 1 => none
  | c :: cs, n + 1 =>
    if c.utf8Size ≤ n + 1 then (sliceChars cs (n + 1 - c.utf8Size)).map (c :: ·) else none

/-- `&s[..n]`, or `none` where the slice panics: `n` is past the end or inside a
character. -/
def sliceTo (s : String) (n : ℕ) : Option String := (sliceChars s.toList n).map String.ofList

/-- A character of the text ends at byte `n`, or nothing precedes it. -/
def IsCharBoundary (s : String) (n : ℕ) : Prop :=
  ∃ front back : String, s = front ++ back ∧ front.utf8ByteSize = n

theorem utf8ByteSize_ofList_cons (c : Char) (cs : List Char) :
    (String.ofList (c :: cs)).utf8ByteSize = c.utf8Size + (String.ofList cs).utf8ByteSize := by
  rw [String.ofList_cons, String.utf8ByteSize_append, String.utf8ByteSize_singleton]

theorem sliceChars_eq_some {cs front : List Char} {n : ℕ} :
    sliceChars cs n = some front ↔
      (∃ back, cs = front ++ back) ∧ (String.ofList front).utf8ByteSize = n := by
  fun_induction sliceChars cs n generalizing front with
  | case1 cs =>
    constructor
    · rintro ⟨⟩
      exact ⟨⟨cs, rfl⟩, by simp⟩
    · rintro ⟨-, hsize⟩
      cases front with
      | nil => rfl
      | cons c front =>
        have hpos : 0 < c.utf8Size := Char.utf8Size_pos c
        rw [utf8ByteSize_ofList_cons] at hsize
        omega
  | case2 n =>
    constructor
    · rintro ⟨⟩
    · rintro ⟨⟨back, hnil⟩, hsize⟩
      rw [(List.append_eq_nil_iff.mp hnil.symm).1] at hsize
      simp at hsize
  | case3 n c cs hle ih =>
    cases front with
    | nil => simp
    | cons d front =>
      rw [utf8ByteSize_ofList_cons, Option.map_eq_some_iff]
      constructor
      · rintro ⟨front', hslice, hcons⟩
        obtain ⟨rfl, rfl⟩ := List.cons.inj hcons
        obtain ⟨⟨back, rfl⟩, hsize⟩ := ih.mp hslice
        exact ⟨⟨back, rfl⟩, by omega⟩
      · rintro ⟨⟨back, hcons⟩, hsize⟩
        obtain ⟨rfl, rfl⟩ := List.cons.inj hcons
        exact ⟨front, ih.mpr ⟨⟨back, rfl⟩, by omega⟩, rfl⟩
  | case4 n c cs hgt =>
    constructor
    · rintro ⟨⟩
    · rintro ⟨⟨back, hcons⟩, hsize⟩
      cases front with
      | nil => simp at hsize
      | cons d front =>
        obtain ⟨rfl, -⟩ := List.cons.inj hcons
        rw [utf8ByteSize_ofList_cons] at hsize
        omega

/-- A slice does not panic exactly at the boundaries. -/
theorem sliceTo_isSome_iff {s : String} {n : ℕ} :
    (∃ t, sliceTo s n = some t) ↔ IsCharBoundary s n := by
  simp only [sliceTo, Option.map_eq_some_iff, sliceChars_eq_some]
  constructor
  · rintro ⟨t, front, ⟨⟨back, hs⟩, hsize⟩, rfl⟩
    refine ⟨String.ofList front, String.ofList back, ?_, hsize⟩
    rw [← String.ofList_append, ← hs, String.ofList_toList]
  · rintro ⟨front, back, rfl, hsize⟩
    refine ⟨front, front.toList, ⟨⟨back.toList, String.toList_append⟩, ?_⟩, String.ofList_toList⟩
    rw [String.ofList_toList, hsize]

/-- In a text of one-byte characters every byte up to the end is one. -/
theorem isCharBoundary_of_ascii {s : String} {n : ℕ} (h : ∀ c ∈ s.toList, c.utf8Size = 1)
    (hn : n ≤ s.toList.length) : IsCharBoundary s n := by
  refine ⟨String.ofList (s.toList.take n), String.ofList (s.toList.drop n), ?_, ?_⟩
  · rw [← String.ofList_append, List.take_append_drop, String.ofList_toList]
  · rw [utf8ByteSize_ofList_of_ascii fun c hc => h c (List.mem_of_mem_take hc),
      List.length_take, Nat.min_eq_left hn]

/-! ## `{:?}` -/

/-- One character as `{:?}` shows it inside a text. `escapes` says which other characters
(unprintable ones and combining marks) are shown by their code point. -/
def debugChar (escapes : Char → Bool) (c : Char) : String :=
  match c with
  | '\x00' => "\\0"
  | '\t' => "\\t"
  | '\r' => "\\r"
  | '\n' => "\\n"
  | '"' => "\\\""
  | '\\' => "\\\\"
  | c =>
    if escapes c then "\\u\x7b" ++ String.ofList (Nat.toDigits 16 c.toNat) ++ "\x7d"
    else String.singleton c

/-- A text as `{:?}` shows it. -/
def debugStr (escapes : Char → Bool) (s : String) : String :=
  "\"" ++ String.join (s.toList.map (debugChar escapes)) ++ "\""

/-- A `Vec<String>` as `{:?}` shows it. -/
def debugStrs (escapes : Char → Bool) (l : List String) : String :=
  "[" ++ ", ".intercalate (l.map (debugStr escapes)) ++ "]"

/-! ## Lossy UTF-8 -/

/-- A continuation byte. -/
def isContinuation (b : UInt8) : Bool := 0x80 ≤ b && b ≤ 0xBF

/-- The second bytes that may follow a leading byte of a character of three or four
bytes. -/
def secondByteOk (lead b : UInt8) : Bool :=
  if lead == 0xE0 then 0xA0 ≤ b && b ≤ 0xBF
  else if lead == 0xED then 0x80 ≤ b && b ≤ 0x9F
  else if lead == 0xF0 then 0x90 ≤ b && b ≤ 0xBF
  else if lead == 0xF4 then 0x80 ≤ b && b ≤ 0x8F
  else isContinuation b

/-- The character with these payload bits. -/
def charOfBytes (lead : ℕ) (rest : List UInt8) : Char :=
  Char.ofNat (rest.foldl (fun n b => n * 64 + b.toNat % 64) lead)

/-- The characters of a byte string, with U+FFFD for each maximal part that starts no
character or breaks off inside one. -/
def lossyChars : Bytes → List Char
  | [] => []
  | b₀ :: r₀ =>
    -- ASCII, then leading bytes of two, three and four byte characters
    if b₀ < 0x80 then Char.ofNat b₀.toNat :: lossyChars r₀
    else if 0xC2 ≤ b₀ && b₀ ≤ 0xDF then
      match r₀ with
      | b₁ :: r₁ =>
        if isContinuation b₁ then charOfBytes (b₀.toNat % 32) [b₁] :: lossyChars r₁
        -- a byte that breaks a character off is read again as the start of the next one
        else '\uFFFD' :: lossyChars (b₁ :: r₁)
      | [] => ['\uFFFD']
    else if 0xE0 ≤ b₀ && b₀ ≤ 0xEF then
      match r₀ with
      | b₁ :: r₁ =>
        if secondByteOk b₀ b₁ then
          match r₁ with
          | b₂ :: r₂ =>
            if isContinuation b₂ then charOfBytes (b₀.toNat % 16) [b₁, b₂] :: lossyChars r₂
            else '\uFFFD' :: lossyChars (b₂ :: r₂)
          | [] => ['\uFFFD']
        else '\uFFFD' :: lossyChars (b₁ :: r₁)
      | [] => ['\uFFFD']
    else if 0xF0 ≤ b₀ && b₀ ≤ 0xF4 then
      match r₀ with
      | b₁ :: r₁ =>
        if secondByteOk b₀ b₁ then
          match r₁ with
          | b₂ :: r₂ =>
            if isContinuation b₂ then
              match r₂ with
              | b₃ :: r₃ =>
                if isContinuation b₃ then
                  charOfBytes (b₀.toNat % 8) [b₁, b₂, b₃] :: lossyChars r₃
                else '\uFFFD' :: lossyChars (b₃ :: r₃)
              | [] => ['\uFFFD']
            else '\uFFFD' :: lossyChars (b₂ :: r₂)
          | [] => ['\uFFFD']
        else '\uFFFD' :: lossyChars (b₁ :: r₁)
      | [] => ['\uFFFD']
    else '\uFFFD' :: lossyChars r₀

/-- `String::from_utf8_lossy`: valid bytes are returned as they are, without a copy. -/
def fromUtf8Lossy (b : Bytes) : String := (ofUtf8 b).getD (String.ofList (lossyChars b))

@[simp] theorem fromUtf8Lossy_utf8 (s : String) : fromUtf8Lossy (utf8 s) = s := by
  simp [fromUtf8Lossy]

example : trim "  k-1 " = "k-1" := by decide

example : debugStrs (fun _ => false) ["a\"b", "c"] = "[\"a\\\"b\", \"c\"]" := by decide

example :
    lossyChars [0x61, 0xE2, 0x82, 0x62, 0xE2, 0x82, 0xAC, 0xFF] = "a\uFFFDb€\uFFFD".toList := by
  decide

end Text
