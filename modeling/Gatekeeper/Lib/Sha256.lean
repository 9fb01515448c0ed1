import Gatekeeper.Lib.Encoding

/-!
# SHA-256

The hash of FIPS 180-4 on byte lists: padding to whole blocks, the message schedule as a
sliding window of sixteen words, and the compression of one block after another. Words are
natural numbers below `2 ^ 32`, which evaluate fast.
-/

namespace Sha256

open Encoding

/-- The eight working words. -/
structure Words where
  a : ℕ
  b : ℕ
  c : ℕ
  d : ℕ
  e : ℕ
  f : ℕ
  g : ℕ
  h : ℕ

/-- The first 32 bits of the fractional parts of the square roots of the first eight
primes. -/
def initial : Words where
  a := 0x6a09e667
  b := 0xbb67ae85
  c := 0x3c6ef372
  d := 0xa54ff53a
  e := 0x510e527f
  f := 0x9b05688c
  g := 0x1f83d9ab
  h := 0x5be0cd19

/-- The first 32 bits of the fractional parts of the cube roots of the first 64 primes. -/
def roundConstants : List ℕ :=
  [0x428a2f98, 0x71374491, 0xb5c0fbcf, 0xe9b5dba5, 0x3956c25b, 0x59f111f1, 0x923f82a4, 0xab1c5ed5,
   0xd807aa98, 0x12835b01, 0x243185be, 0x550c7dc3, 0x72be5d74, 0x80deb1fe, 0x9bdc06a7, 0xc19bf174,
   0xe49b69c1, 0xefbe4786, 0x0fc19dc6, 0x240ca1cc, 0x2de92c6f, 0x4a7484aa, 0x5cb0a9dc, 0x76f988da,
   0x983e5152, 0xa831c66d, 0xb00327c8, 0xbf597fc7, 0xc6e00bf3, 0xd5a79147, 0x06ca6351, 0x14292967,
   0x27b70a85, 0x2e1b2138, 0x4d2c6dfc, 0x53380d13, 0x650a7354, 0x766a0abb, 0x81c2c92e, 0x92722c85,
   0xa2bfe8a1, 0xa81a664b, 0xc24b8b70, 0xc76c51a3, 0xd192e819, 0xd6990624, 0xf40e3585, 0x106aa070,
   0x19a4c116, 0x1e376c08, 0x2748774c, 0x34b0bcb5, 0x391c0cb3, 0x4ed8aa4a, 0x5b9cca4f, 0x682e6ff3,
   0x748f82ee, 0x78a5636f, 0x84c87814, 0x8cc70208, 0x90befffa, 0xa4506ceb, 0xbef9a3f7, 0xc67178f2]

def addWords (x y : ℕ) : ℕ := (x + y) % 2 ^ 32

def rotr (x n : ℕ) : ℕ := (x >>> n) ||| (x <<< (32 - n)) % 2 ^ 32

def smallSigma0 (x : ℕ) : ℕ := rotr x 7 ^^^ rotr x 18 ^^^ (x >>> 3)

def smallSigma1 (x : ℕ) : ℕ := rotr x 17 ^^^ rotr x 19 ^^^ (x >>> 10)

def bigSigma0 (x : ℕ) : ℕ := rotr x 2 ^^^ rotr x 13 ^^^ rotr x 22

def bigSigma1 (x : ℕ) : ℕ := rotr x 6 ^^^ rotr x 11 ^^^ rotr x 25

/-- `(x ∧ y) ⊕ (¬ x ∧ z)`. -/
def ch (x y z : ℕ) : ℕ := (x &&& y) ^^^ ((x ^^^ (2 ^ 32 - 1)) &&& z)

def maj (x y z : ℕ) : ℕ := (x &&& y) ^^^ (x &&& z) ^^^ (y &&& z)

/-- One round, with its constant and its schedule word. -/
def round (s : Words) (k w : ℕ) : Words :=
  -- `t₁` and `t₂` are not reduced: both only enter sums that are
  let t₁ := s.h + bigSigma1 s.e + ch s.e s.f s.g + k + w
  let t₂ := bigSigma0 s.a + maj s.a s.b s.c
  ⟨addWords t₁ t₂, s.a, s.b, s.c, addWords s.d t₁, s.e, s.f, s.g⟩

/-- The schedule word that follows a window of sixteen. -/
def nextWord (window : List ℕ) : ℕ :=
  addWords (smallSigma1 (window.getD 14 0) + window.getD 9 0)
    (smallSigma0 (window.getD 1 0) + window.getD 0 0)

/-- The rounds for these constants; the window slides by one word each. -/
def rounds : List ℕ → List ℕ → Words → Words
  | [], _, s => s
  | k :: ks, window, s =>
    rounds ks (window.tail ++ [nextWord window]) (round s k (window.headD 0))

def Words.add (s t : Words) : Words :=
  ⟨addWords s.a t.a, addWords s.b t.b, addWords s.c t.c, addWords s.d t.d, addWords s.e t.e,
    addWords s.f t.f, addWords s.g t.g, addWords s.h t.h⟩

/-- Four bytes at a time, most significant first. -/
def wordsOf : Bytes → List ℕ
  | b₀ :: b₁ :: b₂ :: b₃ :: r =>
    (b₀.toNat * 2 ^ 24 + b₁.toNat * 2 ^ 16 + b₂.toNat * 2 ^ 8 + b₃.toNat) :: wordsOf r
  | _ => []

def compress (s : Words) (block : Bytes) : Words :=
  s.add (rounds roundConstants (wordsOf block) s)

/-- The compression of `n` blocks of 64 bytes. -/
def compressBlocks : ℕ → Words → Bytes → Words
  | 0, s, _ => s
  | n + 1, s, b => compressBlocks n (compress s (b.take 64)) (b.drop 64)

/-- How many blocks a message of this length takes: nine more bytes, rounded up. -/
def blockCount (length : ℕ) : ℕ := (length + 72) / 64

/-- The message, a one bit, zeros, and the length in bits as eight bytes. -/
def pad (b : Bytes) : Bytes :=
  b ++ 0x80 :: List.replicate (64 * blockCount b.length - (b.length + 9)) 0 ++
    bigEndian 8 (8 * b.length)

def Words.bytes (s : Words) : Bytes :=
  [s.a, s.b, s.c, s.d, s.e, s.f, s.g, s.h].flatMap (bigEndian 4)

def sha256 (b : Bytes) : Bytes :=
  (compressBlocks (blockCount b.length) initial (pad b)).bytes

theorem length_sha256 (b : Bytes) : (sha256 b).length = 32 := by
  simp [sha256, Words.bytes]

end Sha256
