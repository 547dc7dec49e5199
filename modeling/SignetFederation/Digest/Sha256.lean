import SignetFederation.Bytes

/-!
# SHA-256

The hash function of FIPS 180-4 on byte strings, its double application, and the tagged variant in
which the message follows two copies of the hash of a tag. A block is read word by word; the message
schedule is kept as a sliding window of sixteen words.
-/

namespace SignetFederation.Sha256

/-- The eight working words. -/
structure State where
  a : UInt32
  b : UInt32
  c : UInt32
  d : UInt32
  e : UInt32
  f : UInt32
  g : UInt32
  h : UInt32

/-- The state before the first block. -/
def State.start : State :=
  ⟨0x6a09e667, 0xbb67ae85, 0x3c6ef372, 0xa54ff53a, 0x510e527f, 0x9b05688c, 0x1f83d9ab, 0x5be0cd19⟩

/-- One constant per round. -/
def constants : List UInt32 := [
  0x428a2f98, 0x71374491, 0xb5c0fbcf, 0xe9b5dba5, 0x3956c25b, 0x59f111f1, 0x923f82a4, 0xab1c5ed5,
  0xd807aa98, 0x12835b01, 0x243185be, 0x550c7dc3, 0x72be5d74, 0x80deb1fe, 0x9bdc06a7, 0xc19bf174,
  0xe49b69c1, 0xefbe4786, 0x0fc19dc6, 0x240ca1cc, 0x2de92c6f, 0x4a7484aa, 0x5cb0a9dc, 0x76f988da,
  0x983e5152, 0xa831c66d, 0xb00327c8, 0xbf597fc7, 0xc6e00bf3, 0xd5a79147, 0x06ca6351, 0x14292967,
  0x27b70a85, 0x2e1b2138, 0x4d2c6dfc, 0x53380d13, 0x650a7354, 0x766a0abb, 0x81c2c92e, 0x92722c85,
  0xa2bfe8a1, 0xa81a664b, 0xc24b8b70, 0xc76c51a3, 0xd192e819, 0xd6990624, 0xf40e3585, 0x106aa070,
  0x19a4c116, 0x1e376c08, 0x2748774c, 0x34b0bcb5, 0x391c0cb3, 0x4ed8aa4a, 0x5b9cca4f, 0x682e6ff3,
  0x748f82ee, 0x78a5636f, 0x84c87814, 0x8cc70208, 0x90befffa, 0xa4506ceb, 0xbef9a3f7, 0xc67178f2]

/-- Rotation to the right. -/
@[inline] def rotr (x n : UInt32) : UInt32 := (x >>> n) ||| (x <<< (32 - n))

/-- The rounds whose constants are given, on a window of the next sixteen schedule words. -/
def rounds (ks : List UInt32)
    (w0 w1 w2 w3 w4 w5 w6 w7 w8 w9 w10 w11 w12 w13 w14 w15 : UInt32)
    (a b c d e f g h : UInt32) : State :=
  match ks with
  | [] => ⟨a, b, c, d, e, f, g, h⟩
  | k :: more =>
    let t1 := h + (rotr e 6 ^^^ rotr e 11 ^^^ rotr e 25) + ((e &&& f) ^^^ (~~~e &&& g)) + k + w0
    let t2 := (rotr a 2 ^^^ rotr a 13 ^^^ rotr a 22) + ((a &&& b) ^^^ (a &&& c) ^^^ (b &&& c))
    let next := (rotr w14 17 ^^^ rotr w14 19 ^^^ (w14 >>> 10)) + w9 +
      (rotr w1 7 ^^^ rotr w1 18 ^^^ (w1 >>> 3)) + w0
    rounds more w1 w2 w3 w4 w5 w6 w7 w8 w9 w10 w11 w12 w13 w14 w15 next
      (t1 + t2) a b c (d + t1) e f g

/-- The next big-endian word of a message and the rest; zero past the end. -/
def word : Bytes → UInt32 × Bytes
  | x :: y :: z :: u :: rest =>
    ((x.toUInt32 <<< 24) ||| (y.toUInt32 <<< 16) ||| (z.toUInt32 <<< 8) ||| u.toUInt32, rest)
  | _ => (0, [])

/-- The state after one more block, and what follows the block. -/
def block (s : State) (m : Bytes) : State × Bytes :=
  let (w0, m) := word m
  let (w1, m) := word m
  let (w2, m) := word m
  let (w3, m) := word m
  let (w4, m) := word m
  let (w5, m) := word m
  let (w6, m) := word m
  let (w7, m) := word m
  let (w8, m) := word m
  let (w9, m) := word m
  let (w10, m) := word m
  let (w11, m) := word m
  let (w12, m) := word m
  let (w13, m) := word m
  let (w14, m) := word m
  let (w15, m) := word m
  let t := rounds constants w0 w1 w2 w3 w4 w5 w6 w7 w8 w9 w10 w11 w12 w13 w14 w15
    s.a s.b s.c s.d s.e s.f s.g s.h
  (⟨s.a + t.a, s.b + t.b, s.c + t.c, s.d + t.d, s.e + t.e, s.f + t.f, s.g + t.g, s.h + t.h⟩, m)

/-- The state after `n` more blocks, and what follows them. -/
def blocks : (n : Nat) → State → Bytes → State × Bytes
  | 0, s, m => (s, m)
  | n + 1, s, m =>
    let (s, m) := block s m
    blocks n s m

/-- What is appended to a message of `n` bytes: a one bit, zeros, and the length in bits. -/
def padding (n : Nat) : Bytes :=
  0x80 :: (List.replicate ((119 - n % 64) % 64) 0 ++ Bytes.be 8 (8 * n))

/-- The bytes of a state. -/
def State.toDigest (s : State) : Digest :=
  ⟨Bytes.be 4 s.a.toNat ++ Bytes.be 4 s.b.toNat ++ Bytes.be 4 s.c.toNat ++ Bytes.be 4 s.d.toNat ++
    Bytes.be 4 s.e.toNat ++ Bytes.be 4 s.f.toNat ++ Bytes.be 4 s.g.toNat ++ Bytes.be 4 s.h.toNat,
    by simp⟩

end SignetFederation.Sha256

namespace SignetFederation

/-- The SHA-256 hash of a message. -/
def sha256 (m : Bytes) : Digest :=
  let n := m.length
  let (s, rest) := Sha256.blocks (n / 64) Sha256.State.start m
  let tail := rest ++ Sha256.padding n
  (Sha256.blocks (tail.length / 64) s tail).1.toDigest

/-- The hash of the hash. -/
def doubleSha256 (m : Bytes) : Digest := sha256 (sha256 m).toBytes

/-- The hash of a message in the domain of a tag. -/
def taggedHash (tag : String) (m : Bytes) : Digest :=
  let t := (sha256 tag.toUTF8.toList).toBytes
  sha256 (t ++ t ++ m)

end SignetFederation
