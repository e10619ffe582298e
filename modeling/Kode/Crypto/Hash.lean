/-
# `kode:crypto`

The hash function as it is written, with its buffer of padded bytes, the array of 64
words that is filled in two loops and the eight variables that each round moves along.
`uint32_t` and `uint64_t` are bit vectors. The digest is the list of its 32 bytes.
-/

import Kode.Filesystem.Bindings
import Kode.Library.Sha256

namespace Kode.Crypto

open Kode.Library
open Kode.Library.Sha256 (Word)
open Kode.Filesystem (V8 Value)

/-- `kSha256Constants`. -/
def kSha256Constants : Vector Word 64 := #v[
  0x428a2f98, 0x71374491, 0xb5c0fbcf, 0xe9b5dba5, 0x3956c25b, 0x59f111f1, 0x923f82a4, 0xab1c5ed5,
  0xd807aa98, 0x12835b01, 0x243185be, 0x550c7dc3, 0x72be5d74, 0x80deb1fe, 0x9bdc06a7, 0xc19bf174,
  0xe49b69c1, 0xefbe4786, 0x0fc19dc6, 0x240ca1cc, 0x2de92c6f, 0x4a7484aa, 0x5cb0a9dc, 0x76f988da,
  0x983e5152, 0xa831c66d, 0xb00327c8, 0xbf597fc7, 0xc6e00bf3, 0xd5a79147, 0x06ca6351, 0x14292967,
  0x27b70a85, 0x2e1b2138, 0x4d2c6dfc, 0x53380d13, 0x650a7354, 0x766a0abb, 0x81c2c92e, 0x92722c85,
  0xa2bfe8a1, 0xa81a664b, 0xc24b8b70, 0xc76c51a3, 0xd192e819, 0xd6990624, 0xf40e3585, 0x106aa070,
  0x19a4c116, 0x1e376c08, 0x2748774c, 0x34b0bcb5, 0x391c0cb3, 0x4ed8aa4a, 0x5b9cca4f, 0x682e6ff3,
  0x748f82ee, 0x78a5636f, 0x84c87814, 0x8cc70208, 0x90befffa, 0xa4506ceb, 0xbef9a3f7, 0xc67178f2]

/-- The initial value of `hash`. -/
def initialHash : Vector Word 8 := #v[
  0x6a09e667, 0xbb67ae85, 0x3c6ef372, 0xa54ff53a, 0x510e527f, 0x9b05688c, 0x1f83d9ab, 0x5be0cd19]

/-- `RotateRight`. -/
def rotateRight (value : Word) (count : ℕ) : Word := (value >>> count) ||| (value <<< (32 - count))

/-! ## Padding -/

/-- The loop that appends zero bytes. -/
def padZeros (bytes : Bytes) : Bytes :=
  if bytes.length % 64 ≠ 56 then padZeros (bytes ++ [0]) else bytes
  termination_by (120 - bytes.length % 64) % 64
  decreasing_by
    rw [List.length_append, List.length_singleton]
    omega

/-- The loop that appends the length in bits, the highest byte first. -/
def appendLength (bytes : Bytes) (bitLength : BitVec 64) : Bytes :=
  [7, 6, 5, 4, 3, 2, 1, 0].foldl
    (fun bytes i => bytes ++ [UInt8.ofNat ((bitLength >>> (i * 8)) &&& 0xff).toNat]) bytes

/-- The buffer that is hashed. -/
def padded (input : Bytes) : Bytes :=
  appendLength (padZeros (input ++ [0x80])) (BitVec.ofNat 64 input.length * 8)

/-! ## One chunk -/

/-- A word of the chunk, from four bytes. -/
def loadWord (bytes : Bytes) (offset : ℕ) : Word :=
  (BitVec.ofNat 32 bytes[offset]!.toNat <<< 24) |||
    (BitVec.ofNat 32 bytes[offset + 1]!.toNat <<< 16) |||
    (BitVec.ofNat 32 bytes[offset + 2]!.toNat <<< 8) ||| BitVec.ofNat 32 bytes[offset + 3]!.toNat

/-- The first loop over `words`. -/
def loadWords (bytes : Bytes) (chunk : ℕ) : Vector Word 64 :=
  (List.range 16).foldl (fun words i => words.set! i (loadWord bytes (chunk + i * 4)))
    (Vector.replicate 64 0)

/-- One iteration of the second loop over `words`. -/
def extendStep (words : Vector Word 64) (i : ℕ) : Vector Word 64 :=
  let s0 :=
    rotateRight words[i - 15]! 7 ^^^ rotateRight words[i - 15]! 18 ^^^ (words[i - 15]! >>> 3)
  let s1 :=
    rotateRight words[i - 2]! 17 ^^^ rotateRight words[i - 2]! 19 ^^^ (words[i - 2]! >>> 10)
  words.set! i (words[i - 16]! + s0 + words[i - 7]! + s1)

/-- The second loop over `words`. -/
def extendWords (words : Vector Word 64) : Vector Word 64 :=
  (List.range' 16 48).foldl extendStep words

/-- The variables of the rounds. -/
structure Registers where
  a : Word
  b : Word
  c : Word
  d : Word
  e : Word
  f : Word
  g : Word
  h : Word
  deriving DecidableEq, Repr

/-- One iteration of the loop over the rounds. -/
def roundStep (words : Vector Word 64) (r : Registers) (i : ℕ) : Registers :=
  let s1 := rotateRight r.e 6 ^^^ rotateRight r.e 11 ^^^ rotateRight r.e 25
  let ch := (r.e &&& r.f) ^^^ (~~~r.e &&& r.g)
  let temp1 := r.h + s1 + ch + kSha256Constants[i]! + words[i]!
  let s0 := rotateRight r.a 2 ^^^ rotateRight r.a 13 ^^^ rotateRight r.a 22
  let maj := (r.a &&& r.b) ^^^ (r.a &&& r.c) ^^^ (r.b &&& r.c)
  let temp2 := s0 + maj
  { h := r.g, g := r.f, f := r.e, e := r.d + temp1, d := r.c, c := r.b, b := r.a
    a := temp1 + temp2 }

/-- The variables at the start of a chunk. -/
def loadHash (hash : Vector Word 8) : Registers :=
  ⟨hash[0], hash[1], hash[2], hash[3], hash[4], hash[5], hash[6], hash[7]⟩

/-- The additions at the end of a chunk. -/
def addHash (hash : Vector Word 8) (r : Registers) : Vector Word 8 :=
  #v[hash[0] + r.a, hash[1] + r.b, hash[2] + r.c, hash[3] + r.d,
    hash[4] + r.e, hash[5] + r.f, hash[6] + r.g, hash[7] + r.h]

/-- The body of the loop over the chunks. -/
def processChunk (bytes : Bytes) (hash : Vector Word 8) (chunk : ℕ) : Vector Word 8 :=
  let words := extendWords (loadWords bytes chunk)
  addHash hash ((List.range 64).foldl (roundStep words) (loadHash hash))

/-- The bytes of one word of the hash, the highest first. -/
def storeWord (word : Word) : Bytes :=
  [24, 16, 8, 0].map fun shift => UInt8.ofNat ((word >>> shift) &&& 0xff).toNat

/-- `Sha256`. -/
def sha256 (input : Bytes) : Bytes :=
  let bytes := padded input
  let hash := (List.range' 0 ((bytes.length + 63) / 64) 64).foldl (processChunk bytes) initialHash
  hash.toList.flatMap storeWord

/-- `ToHex`: each byte with `std::hex`, filled up to two places with zeros. -/
def toHex (bytes : Bytes) : List Char :=
  bytes.flatMap fun byte => (Nat.toDigits 16 byte.toNat).leftpad 2 '0'

/-- `HashCallback`. -/
def hashCallback (v8 : V8) (args : List Value) : V8.Immediate := do
  let algorithm ← v8.readStringArg args 0 "kode:crypto.hash"
  let data ← v8.readStringArg args 1 "kode:crypto.hash"
  if algorithm ≠ "sha256".toList then
    .error (v8.createKodeError (bytesOf "EUNSUPPORTED_ALGORITHM")
      (bytesOf "Unsupported hash algorithm '" ++ utf8 algorithm ++ bytesOf "'")
      (bytesOf "kode:crypto.hash") (utf8 algorithm))
  else
    .ok do
      let name ← v8.v8String (bytesOf "sha256")
      let digits ← v8.v8String (utf8 (toHex (sha256 (utf8 data))))
      some (.object [("algorithm", .string name), ("hex", .string digits)])

end Kode.Crypto
