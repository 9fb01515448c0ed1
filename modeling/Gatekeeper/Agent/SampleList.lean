import Gatekeeper.Agent.StatusList

/-!
# A Node for the samples

`zlib` as a gzip encoder that does not compress: each byte is a stored block of its own.
-/

namespace Gatekeeper.Agent

open Encoding Js

/-- The ten bytes before the blocks: magic number, deflate, no flags, no time. -/
def gzipHeader : Bytes := [0x1f, 0x8b, 8, 0, 0, 0, 0, 0, 0, 255]

/-- One stored block for each byte, and an empty last one. -/
def storedBlocks : Bytes → Bytes
  | [] => [1, 0, 0, 255, 255]
  | x :: xs => 0 :: 1 :: 0 :: 254 :: 255 :: x :: storedBlocks xs

def crcStep (c : UInt32) : UInt32 :=
  if c &&& 1 = 1 then (c >>> 1) ^^^ 0xEDB88320 else c >>> 1

def crc32 (b : Bytes) : UInt32 :=
  b.foldl (fun c x => Nat.iterate crcStep 8 (c ^^^ x.toUInt32)) 0xFFFFFFFF ^^^ 0xFFFFFFFF

/-- The checksum and the length, low byte first. -/
def gzipTrailer (b : Bytes) : Bytes :=
  (bigEndian 4 (crc32 b).toNat).reverse ++ (bigEndian 4 b.length).reverse

/-- The bytes of blocks that store one byte each; what follows the last one is not read. -/
def readBlocks : Bytes → Option Bytes
  | 0 :: 1 :: 0 :: 254 :: 255 :: x :: rest => (readBlocks rest).map (x :: ·)
  | 1 :: 0 :: 0 :: 255 :: 255 :: _ => some []
  | _ => none

def sampleNode : Node where
  gzipSync := fun b => gzipHeader ++ storedBlocks b ++ gzipTrailer b
  gunzipSync := fun b =>
    match (if b.take 10 = gzipHeader then readBlocks (b.drop 10) else none) with
    | some bytes => .ok bytes
    | none => .error (.error "incorrect header check")
  fromBase64Url := base64UrlDecode
  message := fun _ => ""

theorem readBlocks_stored (b rest : Bytes) : readBlocks (storedBlocks b ++ rest) = some b := by
  induction b with
  | nil => rfl
  | cons x xs ih =>
    simp only [storedBlocks, List.cons_append, readBlocks, ih, Option.map_some]

theorem lawful_sampleNode : sampleNode.Lawful where
  gunzip_gzip := by
    intro b
    have htake : (gzipHeader ++ storedBlocks b ++ gzipTrailer b).take 10 = gzipHeader := rfl
    have hdrop : (gzipHeader ++ storedBlocks b ++ gzipTrailer b).drop 10 =
        storedBlocks b ++ gzipTrailer b := rfl
    simp only [sampleNode, htake, hdrop, if_true, readBlocks_stored]
  gzip_magic := fun b => ⟨_, rfl⟩
  fromBase64Url := base64UrlDecode_encode

end Gatekeeper.Agent
