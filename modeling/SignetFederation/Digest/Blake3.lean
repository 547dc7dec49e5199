import SignetFederation.Bytes

/-!
# BLAKE3

The unkeyed hash of BLAKE3, with 32 bytes of output. A message is cut into chunks of 1024 bytes, and
a chunk into blocks of 64. The values of the chunks are the leaves of a binary tree, in which the
left part of a node is as large as a power of two can be.
-/

namespace SignetFederation.Blake3

/-- Four words, which are worked on side by side. -/
structure Row where
  a : UInt32
  b : UInt32
  c : UInt32
  d : UInt32

namespace Row

/-- The row of the results of an operation. -/
@[inline] def zipWith (f : UInt32 → UInt32 → UInt32) (x y : Row) : Row :=
  ⟨f x.a y.a, f x.b y.b, f x.c y.c, f x.d y.d⟩

/-- The sums of the words. -/
def add (x y : Row) : Row := zipWith (· + ·) x y

/-- The words in which the bits of two rows differ. -/
def xor (x y : Row) : Row := zipWith (· ^^^ ·) x y

/-- Rotation of the bits of each word to the right. -/
def rotr (x : Row) (n : UInt32) : Row :=
  let rot := fun w : UInt32 => (w >>> n) ||| (w <<< (32 - n))
  ⟨rot x.a, rot x.b, rot x.c, rot x.d⟩

/-- The words in turn, one place to the left. -/
def turn (x : Row) : Row := ⟨x.b, x.c, x.d, x.a⟩

/-- The bytes of the words. -/
def bytes (x : Row) : Bytes :=
  Bytes.le 4 x.a.toNat ++ Bytes.le 4 x.b.toNat ++ Bytes.le 4 x.c.toNat ++ Bytes.le 4 x.d.toNat

@[simp] theorem length_bytes (x : Row) : x.bytes.length = 16 := by simp [bytes]

end Row

/-- The value that a part of a message leaves. -/
structure Value where
  low : Row
  high : Row

/-- The value before the first block. -/
def Value.start : Value :=
  ⟨⟨0x6a09e667, 0xbb67ae85, 0x3c6ef372, 0xa54ff53a⟩,
    ⟨0x510e527f, 0x9b05688c, 0x1f83d9ab, 0x5be0cd19⟩⟩

/-- The bytes of a value. -/
def Value.toDigest (v : Value) : Digest := ⟨v.low.bytes ++ v.high.bytes, by simp⟩

/-- The sixteen working words. -/
structure State where
  p : Row
  q : Row
  r : Row
  s : Row

/-- Mixes two words of the message into each column. -/
def State.mix (t : State) (x y : Row) : State :=
  let p := (t.p.add t.q).add x
  let s := (t.s.xor p).rotr 16
  let r := t.r.add s
  let q := (t.q.xor r).rotr 12
  let p := (p.add q).add y
  let s := (s.xor p).rotr 8
  let r := r.add s
  ⟨p, (q.xor r).rotr 7, r, s⟩

/-- Some rounds. Each mixes the first half of the message into the columns and the second half into
the diagonals, and hands the words on in another order. -/
def rounds : (n : Nat) → (m0 m1 m2 m3 m4 m5 m6 m7 m8 m9 m10 m11 m12 m13 m14 m15 : UInt32) →
    State → State
  | 0, _, _, _, _, _, _, _, _, _, _, _, _, _, _, _, _, t => t
  | n + 1, m0, m1, m2, m3, m4, m5, m6, m7, m8, m9, m10, m11, m12, m13, m14, m15, t =>
    let t := t.mix ⟨m0, m2, m4, m6⟩ ⟨m1, m3, m5, m7⟩
    let t : State := ⟨t.p, t.q.turn, t.r.turn.turn, t.s.turn.turn.turn⟩
    let t := t.mix ⟨m8, m10, m12, m14⟩ ⟨m9, m11, m13, m15⟩
    let t : State := ⟨t.p, t.q.turn.turn.turn, t.r.turn.turn, t.s.turn⟩
    rounds n m2 m6 m3 m10 m7 m0 m4 m13 m1 m11 m12 m5 m9 m14 m15 m8 t

/-- The word at a place of a block; zero past its end. -/
def word (block : Bytes) (i : Nat) : UInt32 :=
  UInt32.ofNat (Bytes.ofLE ((block.drop (4 * i)).take 4))

/-- The value after a block of at most 64 bytes. The counter is the number of its chunk. -/
def compress (v : Value) (block : Bytes) (counter : Nat) (flags : UInt32) : Value :=
  let w := word block
  let t := rounds 7 (w 0) (w 1) (w 2) (w 3) (w 4) (w 5) (w 6) (w 7) (w 8) (w 9) (w 10) (w 11)
    (w 12) (w 13) (w 14) (w 15)
    ⟨v.low, v.high, Value.start.low,
      ⟨UInt32.ofNat counter, UInt32.ofNat (counter >>> 32), UInt32.ofNat block.length, flags⟩⟩
  ⟨t.p.xor t.r, t.q.xor t.s⟩

/-- The mark of the first block of a chunk. -/
def chunkStart : UInt32 := 1

/-- The mark of the last block of a chunk. -/
def chunkEnd : UInt32 := 2

/-- The mark of two values that are joined. -/
def parent : UInt32 := 4

/-- The mark of the last block of all. -/
def root : UInt32 := 8

/-- The value of the rest of a chunk, which has `n` blocks before its last one. -/
def chunkFrom (counter : Nat) (mark : UInt32) : (n : Nat) → UInt32 → Value → Bytes → Value
  | 0, first, v, m => compress v m counter (first ||| chunkEnd ||| mark)
  | n + 1, first, v, m =>
    chunkFrom counter mark n 0 (compress v (m.take 64) counter first) (m.drop 64)

/-- The value of a chunk. -/
def chunk (counter : Nat) (mark : UInt32) (m : Bytes) : Value :=
  chunkFrom counter mark ((m.length - 1) / 64) chunkStart Value.start m

/-- The value of at most `2 ^ depth` chunks. -/
def tree : (depth : Nat) → (counter : Nat) → (mark : UInt32) → Bytes → Value
  | 0, counter, mark, m => chunk counter mark m
  | depth + 1, counter, mark, m =>
    let half := 1024 * 2 ^ depth
    if m.length ≤ half then tree depth counter mark m
    else
      let left := tree depth counter 0 (m.take half)
      let right := tree depth (counter + 2 ^ depth) 0 (m.drop half)
      compress Value.start (left.toDigest.toBytes ++ right.toDigest.toBytes) 0 (parent ||| mark)

end SignetFederation.Blake3

namespace SignetFederation

/-- The BLAKE3 hash of a message. -/
def blake3 (m : Bytes) : Digest := (Blake3.tree m.length.log2 0 Blake3.root m).toDigest

end SignetFederation
