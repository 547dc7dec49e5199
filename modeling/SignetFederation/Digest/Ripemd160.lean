import SignetFederation.Digest.Sha256

/-!
# RIPEMD-160

Two lines of eighty rounds on 32-bit little-endian words. Used alone and after SHA-256 for the
hash preimages that a PSBT may carry.
-/

namespace SignetFederation.Ripemd160

/-- The five chaining words. -/
structure State where
  a : UInt32
  b : UInt32
  c : UInt32
  d : UInt32
  e : UInt32

/-- The state before the first block. -/
def State.start : State := ⟨0x67452301, 0xefcdab89, 0x98badcfe, 0x10325476, 0xc3d2e1f0⟩

/-- Word read and rotation in each round of the left line. -/
def left : List (Nat × UInt32) := List.zip
  [0, 1, 2, 3, 4, 5, 6, 7, 8, 9, 10, 11, 12, 13, 14, 15,
   7, 4, 13, 1, 10, 6, 15, 3, 12, 0, 9, 5, 2, 14, 11, 8,
   3, 10, 14, 4, 9, 15, 8, 1, 2, 7, 0, 6, 13, 11, 5, 12,
   1, 9, 11, 10, 0, 8, 12, 4, 13, 3, 7, 15, 14, 5, 6, 2,
   4, 0, 5, 9, 7, 12, 2, 10, 14, 1, 3, 8, 11, 6, 15, 13]
  [11, 14, 15, 12, 5, 8, 7, 9, 11, 13, 14, 15, 6, 7, 9, 8,
   7, 6, 8, 13, 11, 9, 7, 15, 7, 12, 15, 9, 11, 7, 13, 12,
   11, 13, 6, 7, 14, 9, 13, 15, 14, 8, 13, 6, 5, 12, 7, 5,
   11, 12, 14, 15, 14, 15, 9, 8, 9, 14, 5, 6, 8, 6, 5, 12,
   9, 15, 5, 11, 6, 8, 13, 12, 5, 12, 13, 14, 11, 8, 5, 6]

/-- Word read and rotation in each round of the right line. -/
def right : List (Nat × UInt32) := List.zip
  [5, 14, 7, 0, 9, 2, 11, 4, 13, 6, 15, 8, 1, 10, 3, 12,
   6, 11, 3, 7, 0, 13, 5, 10, 14, 15, 8, 12, 4, 9, 1, 2,
   15, 5, 1, 3, 7, 14, 6, 9, 11, 8, 12, 2, 10, 0, 4, 13,
   8, 6, 4, 1, 3, 11, 15, 0, 5, 12, 2, 13, 9, 7, 10, 14,
   12, 15, 10, 4, 1, 5, 8, 7, 6, 2, 13, 14, 0, 3, 9, 11]
  [8, 9, 9, 11, 13, 15, 15, 5, 7, 7, 8, 11, 14, 14, 12, 6,
   9, 13, 15, 7, 12, 8, 9, 11, 7, 7, 12, 7, 6, 15, 13, 11,
   9, 7, 15, 11, 8, 6, 6, 14, 12, 13, 5, 14, 13, 13, 7, 5,
   15, 5, 8, 11, 14, 14, 6, 14, 6, 9, 12, 9, 12, 5, 15, 8,
   8, 5, 12, 9, 12, 5, 14, 6, 8, 13, 6, 5, 15, 13, 11, 11]

/-- The five round functions. -/
def mix (group : Nat) (x y z : UInt32) : UInt32 :=
  match group with
  | 0 => x ^^^ y ^^^ z
  | 1 => (x &&& y) ||| (~~~x &&& z)
  | 2 => (x ||| ~~~y) ^^^ z
  | 3 => (x &&& z) ||| (y &&& ~~~z)
  | _ => x ^^^ (y ||| ~~~z)

/-- The additive constant of each group of sixteen rounds on the left. -/
def leftConstant (group : Nat) : UInt32 :=
  match group with
  | 0 => 0
  | 1 => 0x5a827999
  | 2 => 0x6ed9eba1
  | 3 => 0x8f1bbcdc
  | _ => 0xa953fd4e

/-- The additive constant of each group of sixteen rounds on the right. -/
def rightConstant (group : Nat) : UInt32 :=
  match group with
  | 0 => 0x50a28be6
  | 1 => 0x5c4dd124
  | 2 => 0x6d703ef3
  | 3 => 0x7a6d76e9
  | _ => 0

/-- Rotation to the left. -/
@[inline] def rotl (x n : UInt32) : UInt32 := (x <<< n) ||| (x >>> (32 - n))

/-- A line of rounds, numbered from `j`. -/
def line (f : Nat → UInt32 → UInt32 → UInt32 → UInt32) (k : Nat → UInt32) (x : Array UInt32) :
    (j : Nat) → List (Nat × UInt32) → State → State
  | _, [], s => s
  | j, (r, rot) :: more, s =>
    let t := rotl (s.a + f (j / 16) s.b s.c s.d + x.getD r 0 + k (j / 16)) rot + s.e
    line f k x (j + 1) more ⟨s.e, t, s.b, rotl s.c 10, s.d⟩

/-- The next little-endian words of a message and the rest. -/
def words : (n : Nat) → Bytes → Array UInt32 → Array UInt32 × Bytes
  | 0, m, acc => (acc, m)
  | n + 1, m, acc => words n (m.drop 4) (acc.push (UInt32.ofNat (Bytes.ofLE (m.take 4))))

/-- The state after `n` more blocks. -/
def blocks : (n : Nat) → State → Bytes → State
  | 0, s, _ => s
  | n + 1, s, m =>
    let (x, m) := words 16 m #[]
    let l := line mix leftConstant x 0 left s
    let r := line (fun group => mix (4 - group)) rightConstant x 0 right s
    blocks n ⟨s.b + l.c + r.d, s.c + l.d + r.e, s.d + l.e + r.a, s.e + l.a + r.b, s.a + l.b + r.c⟩ m

/-- What is appended to a message of `n` bytes. -/
def padding (n : Nat) : Bytes :=
  0x80 :: (List.replicate ((119 - n % 64) % 64) 0 ++ Bytes.le 8 (8 * n))

end SignetFederation.Ripemd160

namespace SignetFederation

/-- The RIPEMD-160 hash of a message. -/
def ripemd160 (m : Bytes) : FixedBytes 20 :=
  let padded := m ++ Ripemd160.padding m.length
  let s := Ripemd160.blocks (padded.length / 64) Ripemd160.State.start padded
  ⟨Bytes.le 4 s.a.toNat ++ Bytes.le 4 s.b.toNat ++ Bytes.le 4 s.c.toNat ++ Bytes.le 4 s.d.toNat ++
    Bytes.le 4 s.e.toNat, by simp⟩

/-- RIPEMD-160 of SHA-256. -/
def hash160 (m : Bytes) : FixedBytes 20 := ripemd160 (sha256 m).toBytes

end SignetFederation
