import SignetFederation.Wire.Decoder

/-!
# Compact sizes

A count below 2⁶⁴ in one, three, five or nine bytes, by its size. Only the shortest form is read, so
a count has one form.
-/

namespace SignetFederation.CompactSize

/-- The form of a count. -/
def encode (n : Nat) : Bytes :=
  if n < 0xfd then [UInt8.ofNat n]
  else if n < 0x10000 then 0xfd :: Bytes.le 2 n
  else if n < 0x100000000 then 0xfe :: Bytes.le 4 n
  else 0xff :: Bytes.le 8 n

/-- A number of `k` bytes that is at least `least`. -/
def wide (k least : Nat) : Decoder Nat := fun b =>
  match Decoder.natLE k b with
  | .ok (n, rest) => if n < least then .error .nonMinimalSize else .ok (n, rest)
  | .error e => .error e

/-- Reads a count. -/
def decode : Decoder Nat
  | [] => .error .endOfData
  | x :: rest =>
    if x = 0xff then wide 8 0x100000000 rest
    else if x = 0xfe then wide 4 0x10000 rest
    else if x = 0xfd then wide 2 0xfd rest
    else .ok (x.toNat, rest)

/-- A byte string behind its length. -/
def bytes : Decoder Bytes := fun b =>
  match decode b with
  | .ok (n, rest) => Decoder.take n rest
  | .error e => .error e

/-- The form of a byte string behind its length. -/
def encodeBytes (b : Bytes) : Bytes := encode b.length ++ b

/-- The largest vector that is read where the input has no end of its own. -/
def vectorLimit : Nat := 4000000

/-- A byte string behind its length, the two together within the vector limit. -/
def boundedBytes : Decoder Bytes := fun b =>
  match decode b with
  | .ok (n, rest) =>
    if (encode n).length + n > vectorLimit then .error .endOfData else Decoder.take n rest
  | .error e => .error e

/-- Values behind their count. -/
def list {α : Type} (item : Decoder α) : Decoder (List α) := fun b =>
  match decode b with
  | .ok (n, rest) => Decoder.many item n rest
  | .error e => .error e

end SignetFederation.CompactSize
