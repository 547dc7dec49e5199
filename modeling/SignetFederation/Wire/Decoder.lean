import SignetFederation.Bytes

/-!
# Reading byte strings

A decoder takes a value off the front of a byte string or says why it cannot. Running out of bytes
is a cause of its own, because a truncated input is reported differently from a malformed one.

Main statements: decoders of fixed width read back what was written and leave what follows
(`take_append`, `fixed_append`), and they accept nothing else (`eq_append_of_fixed`).
-/

namespace SignetFederation

/-- Why a byte string could not be read. -/
inductive DecodeFault where
  | endOfData
  | nonMinimalSize
  | oversized (requested : Nat)
  | unsupportedWitnessFlag (flag : Nat)
  | emptyWitnesses
  | badCommand
  | badChecksum
  | badText
  | badValue (what : String)
  | leftover (count : Nat)
  deriving DecidableEq

/-- The wording of a decoding fault. -/
def DecodeFault.message : DecodeFault → String
  | endOfData => "unexpected end of data"
  | nonMinimalSize => "compact size is not minimal"
  | oversized n => "a vector of " ++ toString n ++ " bytes is too large"
  | unsupportedWitnessFlag n => "unsupported witness flag " ++ toString n
  | emptyWitnesses => "witness flag set but no witnesses present"
  | badCommand => "command is not ASCII"
  | badChecksum => "checksum does not match the payload"
  | badText => "text is not UTF-8"
  | badValue what => "invalid " ++ what
  | leftover _ => "data not consumed entirely"

/-- Takes a value off the front of a byte string. -/
abbrev Decoder (α : Type) := StateT Bytes (Except DecodeFault) α

namespace Decoder

/-- The next `n` bytes. -/
def take (n : Nat) : Decoder Bytes := fun b =>
  match Bytes.cut n b with
  | some parts => .ok parts
  | none => .error .endOfData

/-- The next `n` bytes, with their length. -/
def fixed (n : Nat) : Decoder (FixedBytes n) := fun b =>
  let front := b.take n
  if h : front.length = n then .ok (⟨front, h⟩, b.drop n) else .error .endOfData

/-- The next byte. -/
def byte : Decoder UInt8 := fun b =>
  match b with
  | x :: rest => .ok (x, rest)
  | [] => .error .endOfData

/-- The number that the next `k` bytes write, least significant first. -/
def natLE (k : Nat) : Decoder Nat := fun b =>
  match Bytes.cut k b with
  | some (front, rest) => .ok (Bytes.ofLE front, rest)
  | none => .error .endOfData

/-- A 16-bit number. -/
def u16 : Decoder UInt16 := do return UInt16.ofNat (← natLE 2)

/-- A 32-bit number. -/
def u32 : Decoder UInt32 := do return UInt32.ofNat (← natLE 4)

/-- A 64-bit number. -/
def u64 : Decoder UInt64 := do return UInt64.ofNat (← natLE 8)

/-- All that is left. -/
def rest : Decoder Bytes := fun b => .ok (b, [])

/-- `n` values after those already read, which are given last first. -/
def manyOnto {α : Type} (item : Decoder α) : (n : Nat) → (acc : List α) → Decoder (List α)
  | 0, acc, b => .ok (acc.reverse, b)
  | n + 1, acc, b =>
    match item b with
    | .ok (v, b) => manyOnto item n (v :: acc) b
    | .error e => .error e

/-- `n` values one after another. -/
def many {α : Type} (item : Decoder α) (n : Nat) : Decoder (List α) := manyOnto item n []

/-- A value that lies within the next `limit` bytes. -/
def within {α : Type} (limit : Nat) (item : Decoder α) : Decoder α := fun b =>
  match item (b.take limit) with
  | .ok (v, unread) => .ok (v, unread ++ b.drop limit)
  | .error e => .error e

/-- The value that a whole byte string writes. -/
def whole {α : Type} (item : Decoder α) (b : Bytes) : Except DecodeFault α :=
  match item b with
  | .ok (v, []) => .ok v
  | .ok (_, x :: unread) => .error (.leftover (x :: unread).length)
  | .error e => .error e

theorem take_append (a b : Bytes) : take a.length (a ++ b) = .ok (a, b) := by
  simp [take, Bytes.cut_append]

theorem fixed_append {n : Nat} (a : FixedBytes n) (b : Bytes) :
    fixed n (a.toBytes ++ b) = .ok (a, b) := by
  obtain ⟨a, rfl⟩ := a
  simp [fixed]

theorem eq_append_of_fixed {n : Nat} {b rest : Bytes} {a : FixedBytes n}
    (h : fixed n b = .ok (a, rest)) : b = a.toBytes ++ rest := by
  unfold fixed at h
  simp only at h
  split at h
  · cases h
    exact (List.take_append_drop n b).symm
  · cases h

end Decoder

end SignetFederation
