import SignetFederation.Bytes

/-!
# SipHash-2-4

The keyed 64-bit hash by which signers are named within a session.
-/

namespace SignetFederation.SipHash

/-- The four state words. -/
structure State where
  a : UInt64
  b : UInt64
  c : UInt64
  d : UInt64

/-- Rotation to the left. -/
@[inline] def rotl (x n : UInt64) : UInt64 := (x <<< n) ||| (x >>> (64 - n))

/-- One round. -/
def round (s : State) : State :=
  let a := s.a + s.b
  let b := rotl s.b 13 ^^^ a
  let a := rotl a 32
  let c := s.c + s.d
  let d := rotl s.d 16 ^^^ c
  let a := a + d
  let d := rotl d 21 ^^^ a
  let c := c + b
  let b := rotl b 17 ^^^ c
  ⟨a, b, rotl c 32, d⟩

/-- The state after a word of the message. -/
def absorb (s : State) (m : UInt64) : State :=
  let s := round (round { s with d := s.d ^^^ m })
  { s with a := s.a ^^^ m }

/-- The state after `n` little-endian words of the message, and the rest. -/
def words : (n : Nat) → State → Bytes → State × Bytes
  | 0, s, m => (s, m)
  | n + 1, s, m => words n (absorb s (UInt64.ofNat (Bytes.ofLE (m.take 8)))) (m.drop 8)

end SignetFederation.SipHash

namespace SignetFederation

/-- The SipHash-2-4 of a message under the two halves of a key. -/
def sipHash24 (k0 k1 : UInt64) (m : Bytes) : UInt64 :=
  let start : SipHash.State :=
    ⟨k0 ^^^ 0x736f6d6570736575, k1 ^^^ 0x646f72616e646f6d, k0 ^^^ 0x6c7967656e657261,
      k1 ^^^ 0x7465646279746573⟩
  let n := m.length
  let (s, rest) := SipHash.words (n / 8) start m
  let last := UInt64.ofNat (Bytes.ofLE rest + (n % 256) * 72057594037927936)
  let s := SipHash.absorb s last
  let s := { s with c := s.c ^^^ 0xff }
  let s := SipHash.round (SipHash.round (SipHash.round (SipHash.round s)))
  s.a ^^^ s.b ^^^ s.c ^^^ s.d

end SignetFederation
