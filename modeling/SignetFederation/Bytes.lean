/-!
# Byte strings

A byte string is a list of bytes. This file holds the fixed-width integers in both byte orders,
byte strings of a known length, and the cut that takes an exact number of bytes off the front.

Main statements: an encoded integer has the width asked for (`length_le`), every byte string is the
form of the integer it reads as (`le_ofLE`), and a cut gives back the two parts of what was put
together (`cut_append`, `eq_append_of_cut`).
-/

namespace SignetFederation

/-- A string of bytes. -/
abbrev Bytes := List UInt8

/-- A byte string of exactly `n` bytes. -/
structure FixedBytes (n : Nat) where
  toBytes : Bytes
  length_eq : toBytes.length = n
  deriving DecidableEq, Hashable

/-- A 32-byte hash, in the order in which it is computed. -/
abbrev Digest := FixedBytes 32

namespace FixedBytes

/-- The byte string as one of `n` bytes, if it has that length. -/
def of? (n : Nat) (b : Bytes) : Option (FixedBytes n) :=
  if h : b.length = n then some ⟨b, h⟩ else none

/-- `n` zero bytes. -/
def zero (n : Nat) : FixedBytes n := ⟨List.replicate n 0, by simp⟩

instance : Inhabited (FixedBytes n) := ⟨zero n⟩

theorem ext_toBytes {n : Nat} {a b : FixedBytes n} (h : a.toBytes = b.toBytes) : a = b := by
  cases a; cases b; simp_all

end FixedBytes

namespace Bytes

/-- The `k` low-order bytes of a number, least significant byte first. -/
def le : (k : Nat) → (value : Nat) → Bytes
  | 0, _ => []
  | k + 1, value => UInt8.ofNat value :: le k (value / 256)

/-- The `k` low-order bytes of a number, most significant byte first. -/
def be (k value : Nat) : Bytes := (le k value).reverse

/-- The number whose bytes are given least significant first. -/
def ofLE : Bytes → Nat
  | [] => 0
  | b :: rest => b.toNat + 256 * ofLE rest

/-- The number whose bytes are given most significant first. -/
def ofBE (b : Bytes) : Nat := b.foldl (fun acc x => acc * 256 + x.toNat) 0

/-- The first `n` bytes and the rest, if there are that many. -/
def cut (n : Nat) (b : Bytes) : Option (Bytes × Bytes) :=
  let front := b.take n
  if front.length = n then some (front, b.drop n) else none

/-- Order of byte strings: the first difference decides, a shorter string precedes its
extensions. -/
def lex : Bytes → Bytes → Ordering
  | [], [] => .eq
  | [], _ :: _ => .lt
  | _ :: _, [] => .gt
  | a :: r, b :: s => if a < b then .lt else if b < a then .gt else lex r s

@[simp] theorem length_le (k value : Nat) : (le k value).length = k := by
  induction k generalizing value with
  | zero => rfl
  | succ k ih => simp [le, ih]

@[simp] theorem length_be (k value : Nat) : (be k value).length = k := by simp [be]

theorem le_ofLE (b : Bytes) : le b.length (ofLE b) = b := by
  induction b with
  | nil => rfl
  | cons x r ih =>
    have hx : x.toNat < 256 := x.toNat_lt
    simp only [List.length_cons, le, ofLE]
    congr 1
    · apply UInt8.toNat_inj.mp
      simp only [UInt8.toNat_ofNat']
      omega
    · rw [show (x.toNat + 256 * ofLE r) / 256 = ofLE r by omega, ih]

theorem cut_append (a b : Bytes) : cut a.length (a ++ b) = some (a, b) := by
  simp [cut]

theorem eq_append_of_cut {n : Nat} {b front rest : Bytes} (h : cut n b = some (front, rest)) :
    b = front ++ rest ∧ front.length = n := by
  unfold cut at h
  simp only at h
  split at h
  · rename_i hl
    cases h
    exact ⟨(List.take_append_drop n b).symm, hl⟩
  · cases h

end Bytes

end SignetFederation
