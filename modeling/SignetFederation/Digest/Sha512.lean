import SignetFederation.Bytes

/-!
# SHA-512 and its keyed form

The hash function of FIPS 180-4 with 64-bit words, and HMAC with it, by which child keys are derived.
-/

namespace SignetFederation.Sha512

/-- The eight working words. -/
structure State where
  a : UInt64
  b : UInt64
  c : UInt64
  d : UInt64
  e : UInt64
  f : UInt64
  g : UInt64
  h : UInt64

/-- The state before the first block. -/
def State.start : State :=
  ⟨0x6a09e667f3bcc908, 0xbb67ae8584caa73b, 0x3c6ef372fe94f82b, 0xa54ff53a5f1d36f1,
    0x510e527fade682d1, 0x9b05688c2b3e6c1f, 0x1f83d9abfb41bd6b, 0x5be0cd19137e2179⟩

/-- One constant per round. -/
def constants : List UInt64 := [
  0x428a2f98d728ae22, 0x7137449123ef65cd, 0xb5c0fbcfec4d3b2f, 0xe9b5dba58189dbbc,
  0x3956c25bf348b538, 0x59f111f1b605d019, 0x923f82a4af194f9b, 0xab1c5ed5da6d8118,
  0xd807aa98a3030242, 0x12835b0145706fbe, 0x243185be4ee4b28c, 0x550c7dc3d5ffb4e2,
  0x72be5d74f27b896f, 0x80deb1fe3b1696b1, 0x9bdc06a725c71235, 0xc19bf174cf692694,
  0xe49b69c19ef14ad2, 0xefbe4786384f25e3, 0x0fc19dc68b8cd5b5, 0x240ca1cc77ac9c65,
  0x2de92c6f592b0275, 0x4a7484aa6ea6e483, 0x5cb0a9dcbd41fbd4, 0x76f988da831153b5,
  0x983e5152ee66dfab, 0xa831c66d2db43210, 0xb00327c898fb213f, 0xbf597fc7beef0ee4,
  0xc6e00bf33da88fc2, 0xd5a79147930aa725, 0x06ca6351e003826f, 0x142929670a0e6e70,
  0x27b70a8546d22ffc, 0x2e1b21385c26c926, 0x4d2c6dfc5ac42aed, 0x53380d139d95b3df,
  0x650a73548baf63de, 0x766a0abb3c77b2a8, 0x81c2c92e47edaee6, 0x92722c851482353b,
  0xa2bfe8a14cf10364, 0xa81a664bbc423001, 0xc24b8b70d0f89791, 0xc76c51a30654be30,
  0xd192e819d6ef5218, 0xd69906245565a910, 0xf40e35855771202a, 0x106aa07032bbd1b8,
  0x19a4c116b8d2d0c8, 0x1e376c085141ab53, 0x2748774cdf8eeb99, 0x34b0bcb5e19b48a8,
  0x391c0cb3c5c95a63, 0x4ed8aa4ae3418acb, 0x5b9cca4f7763e373, 0x682e6ff3d6b2b8a3,
  0x748f82ee5defb2fc, 0x78a5636f43172f60, 0x84c87814a1f0ab72, 0x8cc702081a6439ec,
  0x90befffa23631e28, 0xa4506cebde82bde9, 0xbef9a3f7b2c67915, 0xc67178f2e372532b,
  0xca273eceea26619c, 0xd186b8c721c0c207, 0xeada7dd6cde0eb1e, 0xf57d4f7fee6ed178,
  0x06f067aa72176fba, 0x0a637dc5a2c898a6, 0x113f9804bef90dae, 0x1b710b35131c471b,
  0x28db77f523047d84, 0x32caab7b40c72493, 0x3c9ebe0a15c9bebc, 0x431d67c49c100d4c,
  0x4cc5d4becb3e42b6, 0x597f299cfc657e2a, 0x5fcb6fab3ad6faec, 0x6c44198c4a475817]

/-- Rotation to the right. -/
@[inline] def rotr (x n : UInt64) : UInt64 := (x >>> n) ||| (x <<< (64 - n))

/-- The rounds whose constants are given, on a window of the next sixteen schedule words. -/
def rounds (ks : List UInt64)
    (w0 w1 w2 w3 w4 w5 w6 w7 w8 w9 w10 w11 w12 w13 w14 w15 : UInt64)
    (a b c d e f g h : UInt64) : State :=
  match ks with
  | [] => ⟨a, b, c, d, e, f, g, h⟩
  | k :: more =>
    let t1 := h + (rotr e 14 ^^^ rotr e 18 ^^^ rotr e 41) + ((e &&& f) ^^^ (~~~e &&& g)) + k + w0
    let t2 := (rotr a 28 ^^^ rotr a 34 ^^^ rotr a 39) + ((a &&& b) ^^^ (a &&& c) ^^^ (b &&& c))
    let next := (rotr w14 19 ^^^ rotr w14 61 ^^^ (w14 >>> 6)) + w9 +
      (rotr w1 1 ^^^ rotr w1 8 ^^^ (w1 >>> 7)) + w0
    rounds more w1 w2 w3 w4 w5 w6 w7 w8 w9 w10 w11 w12 w13 w14 w15 next
      (t1 + t2) a b c (d + t1) e f g

/-- The next big-endian word of a message and the rest. -/
def word (m : Bytes) : UInt64 × Bytes := (UInt64.ofNat (Bytes.ofBE (m.take 8)), m.drop 8)

/-- The state after one more block, and what follows the block. -/
def block (s : State) (m : Bytes) : State × Bytes :=
  let (w0, m) := word m
  let (w1, m) := word m
  let (w2, m) := word m
  let (w3, m) := word m
  let (w4, m) := word m
  let (w5, m) := word m
  let (w6, m) := word m
  let (w7, m) := word m
  let (w8, m) := word m
  let (w9, m) := word m
  let (w10, m) := word m
  let (w11, m) := word m
  let (w12, m) := word m
  let (w13, m) := word m
  let (w14, m) := word m
  let (w15, m) := word m
  let t := rounds constants w0 w1 w2 w3 w4 w5 w6 w7 w8 w9 w10 w11 w12 w13 w14 w15
    s.a s.b s.c s.d s.e s.f s.g s.h
  (⟨s.a + t.a, s.b + t.b, s.c + t.c, s.d + t.d, s.e + t.e, s.f + t.f, s.g + t.g, s.h + t.h⟩, m)

/-- The state after `n` more blocks. -/
def blocks : (n : Nat) → State → Bytes → State
  | 0, s, _ => s
  | n + 1, s, m =>
    let (s, m) := block s m
    blocks n s m

/-- What is appended to a message of `n` bytes: a one bit, zeros, and the length in bits. -/
def padding (n : Nat) : Bytes :=
  0x80 :: (List.replicate ((239 - n % 128) % 128) 0 ++ Bytes.be 16 (8 * n))

/-- The bytes of a state. -/
def State.toBytes (s : State) : FixedBytes 64 :=
  ⟨Bytes.be 8 s.a.toNat ++ Bytes.be 8 s.b.toNat ++ Bytes.be 8 s.c.toNat ++ Bytes.be 8 s.d.toNat ++
    Bytes.be 8 s.e.toNat ++ Bytes.be 8 s.f.toNat ++ Bytes.be 8 s.g.toNat ++ Bytes.be 8 s.h.toNat,
    by simp⟩

end SignetFederation.Sha512

namespace SignetFederation

/-- The SHA-512 hash of a message. -/
def sha512 (m : Bytes) : FixedBytes 64 :=
  let padded := m ++ Sha512.padding m.length
  (Sha512.blocks (padded.length / 128) Sha512.State.start padded).toBytes

/-- The keyed hash of a message, for keys of at most one block of 128 bytes. -/
def hmacSha512 (key m : Bytes) : FixedBytes 64 :=
  let key := key ++ List.replicate (128 - key.length) 0
  let inner := sha512 (key.map (· ^^^ 0x36) ++ m)
  sha512 (key.map (· ^^^ 0x5c) ++ inner.toBytes)

end SignetFederation
