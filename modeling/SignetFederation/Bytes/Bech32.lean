import SignetFederation.Bytes

/-!
# Addresses of witness programs

The Bech32m text of a witness program of version one: a network's name, a separator, the version,
the program in groups of five bits, and six symbols of a checksum over all of it.
-/

namespace SignetFederation.Bech32

/-- The symbols in the order of their values. -/
def symbols : List Char := "qpzry9x8gf2tvdw0s3jn54khce6mua7l".toList

/-- What the five bits that leave the remainder at its top put back into it. -/
def generators : List (BitVec 30) := [0x3b6a57b2, 0x26508e6d, 0x1ea119fa, 0x3d4233dd, 0x2a1462b3]

/-- The remainder after one more value. -/
def step (r : BitVec 30) (value : Nat) : BitVec 30 :=
  let shifted := (r <<< 5) ^^^ BitVec.ofNat 30 value
  (generators.zipIdx).foldl (fun acc p => if r.getLsbD (25 + p.2) then acc ^^^ p.1 else acc) shifted

/-- The values that stand for a network's name in the checksum. -/
def expandName (name : List Char) : List Nat :=
  name.map (fun c => c.toNat / 32) ++ 0 :: name.map fun c => c.toNat % 32

/-- The six values of the checksum. -/
def checksum (name : List Char) (values : List Nat) : List Nat :=
  let r : BitVec 30 := (expandName name ++ values ++ List.replicate 6 0).foldl step 1 ^^^ 0x2bc830a3
  (List.range 6).map fun i => (r >>> (5 * (5 - i))).toNat % 32

/-- A byte string in groups of five bits, the last filled up with zeros. -/
def groups (b : Bytes) : List Nat :=
  let count := (b.length * 8 + 4) / 5
  let n := Bytes.ofBE b <<< (count * 5 - b.length * 8)
  (List.range count).map fun i => (n >>> (5 * (count - 1 - i))) % 32

/-- The address of a program of version one. -/
def address (name : String) (program : Bytes) : String :=
  let values := 1 :: groups program
  let body := (values ++ checksum name.toList values).map fun v => symbols.getD v 'q'
  name ++ "1" ++ String.ofList body

end SignetFederation.Bech32
