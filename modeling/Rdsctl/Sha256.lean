import Mathlib.Data.List.Basic
import Mathlib.Algebra.Ring.Nat

/-!
# SHA-256

`src/sha256.rs`: the round constants, the compression of one 64-byte block, the padding and the
digest. A `[u8; 32]` is a `Vector UInt8 32`, so that a hash has its length by type.
-/

namespace Rdsctl.Sha256

/-- The round constants. -/
def K : Array UInt32 := #[
  0x428a2f98, 0x71374491, 0xb5c0fbcf, 0xe9b5dba5, 0x3956c25b, 0x59f111f1, 0x923f82a4, 0xab1c5ed5,
  0xd807aa98, 0x12835b01, 0x243185be, 0x550c7dc3, 0x72be5d74, 0x80deb1fe, 0x9bdc06a7, 0xc19bf174,
  0xe49b69c1, 0xefbe4786, 0x0fc19dc6, 0x240ca1cc, 0x2de92c6f, 0x4a7484aa, 0x5cb0a9dc, 0x76f988da,
  0x983e5152, 0xa831c66d, 0xb00327c8, 0xbf597fc7, 0xc6e00bf3, 0xd5a79147, 0x06ca6351, 0x14292967,
  0x27b70a85, 0x2e1b2138, 0x4d2c6dfc, 0x53380d13, 0x650a7354, 0x766a0abb, 0x81c2c92e, 0x92722c85,
  0xa2bfe8a1, 0xa81a664b, 0xc24b8b70, 0xc76c51a3, 0xd192e819, 0xd6990624, 0xf40e3585, 0x106aa070,
  0x19a4c116, 0x1e376c08, 0x2748774c, 0x34b0bcb5, 0x391c0cb3, 0x4ed8aa4a, 0x5b9cca4f, 0x682e6ff3,
  0x748f82ee, 0x78a5636f, 0x84c87814, 0x8cc70208, 0x90befffa, 0xa4506ceb, 0xbef9a3f7, 0xc67178f2]

/-- The chaining value, and the eight working variables `a` … `h` of a round. -/
structure State where
  a : UInt32
  b : UInt32
  c : UInt32
  d : UInt32
  e : UInt32
  f : UInt32
  g : UInt32
  h : UInt32
deriving DecidableEq, Repr

/-- The initial chaining value. -/
def H0 : State :=
  ⟨0x6a09e667, 0xbb67ae85, 0x3c6ef372, 0xa54ff53a, 0x510e527f, 0x9b05688c, 0x1f83d9ab, 0x5be0cd19⟩

def rotr (x n : UInt32) : UInt32 := (x >>> n) ||| (x <<< (32 - n))

/-- `u32::from_be_bytes`. -/
def fromBeBytes (b0 b1 b2 b3 : UInt8) : UInt32 :=
  (b0.toUInt32 <<< 24) ||| (b1.toUInt32 <<< 16) ||| (b2.toUInt32 <<< 8) ||| b3.toUInt32

/-- The first sixteen words of the schedule: the block read as big-endian words. -/
def words : List UInt8 → List UInt32
  | b0 :: b1 :: b2 :: b3 :: rest => fromBeBytes b0 b1 b2 b3 :: words rest
  | _ => []

/-- Word `w.size` of the schedule from the words before it. -/
def nextWord (w : Array UInt32) : UInt32 :=
  let i := w.size
  let w15 := w.getD (i - 15) 0
  let w2 := w.getD (i - 2) 0
  let s0 := rotr w15 7 ^^^ rotr w15 18 ^^^ (w15 >>> 3)
  let s1 := rotr w2 17 ^^^ rotr w2 19 ^^^ (w2 >>> 10)
  w.getD (i - 16) 0 + s0 + w.getD (i - 7) 0 + s1

/-- Extend the schedule by `n` words. -/
def extend : Nat → Array UInt32 → Array UInt32
  | 0, w => w
  | n + 1, w => extend n (w.push (nextWord w))

/-- One round on the working variables. -/
def round (s : State) (k w : UInt32) : State :=
  let s1 := rotr s.e 6 ^^^ rotr s.e 11 ^^^ rotr s.e 25
  let ch := (s.e &&& s.f) ^^^ (~~~s.e &&& s.g)
  let t1 := s.h + s1 + ch + k + w
  let s0 := rotr s.a 2 ^^^ rotr s.a 13 ^^^ rotr s.a 22
  let maj := (s.a &&& s.b) ^^^ (s.a &&& s.c) ^^^ (s.b &&& s.c)
  let t2 := s0 + maj
  ⟨t1 + t2, s.a, s.b, s.c, s.d + t1, s.e, s.f, s.g⟩

/-- Mix one 64-byte block into the chaining value. -/
def compress (s : State) (block : List UInt8) : State :=
  let w := extend 48 (words block).toArray
  let r := (List.range 64).foldl (fun r i => round r (K.getD i 0) (w.getD i 0)) s
  ⟨s.a + r.a, s.b + r.b, s.c + r.c, s.d + r.d, s.e + r.e, s.f + r.f, s.g + r.g, s.h + r.h⟩

/-- The `w` low-order bytes of `n`, most significant first (`to_be_bytes`). -/
def beBytes (w n : Nat) : List UInt8 :=
  (List.range w).map fun i => UInt8.ofNat (n / 256 ^ (w - 1 - i))

/-- The zero bytes after the `0x80` that fill `len` bytes of data up to 56 modulo 64. -/
def padLen (len : Nat) : Nat := (64 + 55 - len % 64) % 64

/-- The data with its padding: `0x80`, zeros, and the length in bits. -/
def pad (data : List UInt8) : List UInt8 :=
  data ++ 0x80 :: List.replicate (padLen data.length) 0 ++ beBytes 8 (data.length * 8)

/-- `chunks_exact(64)`, at most `n` of them. -/
def chunks : Nat → List UInt8 → List (List UInt8)
  | 0, _ => []
  | n + 1, l => if l.length < 64 then [] else l.take 64 :: chunks n (l.drop 64)

/-- The big-endian bytes of the chaining value. -/
def State.bytes (s : State) : Vector UInt8 32 :=
  Vector.ofFn fun i : Fin 32 =>
    let word := [s.a, s.b, s.c, s.d, s.e, s.f, s.g, s.h].getD (i.val / 4) 0
    (word >>> UInt32.ofNat (8 * (3 - i.val % 4))).toUInt8

/-- `sha256(data)`. -/
def digest (data : List UInt8) : Vector UInt8 32 :=
  ((chunks (data.length / 64 + 2) (pad data)).foldl compress H0).bytes

/-- One lower-case hexadecimal digit. -/
def hexDigit (n : Nat) : Char :=
  if n < 10 then Char.ofNat (48 + n) else Char.ofNat (87 + n)

/-- Lower-case hexadecimal text, two digits a byte. -/
def toHex (d : List UInt8) : String :=
  String.ofList (d.flatMap fun b => [hexDigit (b.toNat / 16), hexDigit (b.toNat % 16)])

/-- The digest of the empty string is the published one. -/
example : toHex (digest []).toList =
    "e3b0c44298fc1c149afbf4c8996fb92427ae41e4649b934ca495991b7852b855" := by decide +kernel

end Rdsctl.Sha256
