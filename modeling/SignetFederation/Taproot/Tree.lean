import SignetFederation.Digest.Sha256
import SignetFederation.Secp256k1.Key
import SignetFederation.Wire.CompactSize

/-!
# Taproot outputs

An output key is an internal key moved by the hash of itself and the root of a tree of scripts. A
leaf of the tree is spent by showing its script and a control block: the leaf's version, the parity
of the output key, the internal key and the hashes beside the way to the root.
-/

namespace SignetFederation

namespace Taproot

/-- The version of leaves that hold scripts. -/
def scriptLeaf : UInt8 := 0xc0

/-- The hash of a leaf. -/
def leafHash (version : UInt8) (script : Bytes) : Digest :=
  taggedHash "TapLeaf" (version :: CompactSize.encodeBytes script)

/-- The hash of two nodes, the lesser first. -/
def branchHash (a b : Digest) : Digest :=
  taggedHash "TapBranch"
    (if Bytes.lex a.toBytes b.toBytes = .gt then b.toBytes ++ a.toBytes else a.toBytes ++ b.toBytes)

/-- How far an internal key is moved for a root. -/
def tweakHash (internal : XOnlyKey) (root : Digest) : Digest :=
  taggedHash "TapTweak" (internal.bytes.toBytes ++ root.toBytes)

/-- A tweaked key: the abscissa and whether the ordinate is odd. -/
structure OutputKey where
  key : XOnlyKey
  odd : Bool
  deriving DecidableEq

/-- The output key of an internal key and a root. -/
def outputKey? (internal : XOnlyKey) (root : Digest) : Option OutputKey := do
  let t := Bytes.ofBE (tweakHash internal root).toBytes
  guard (t < Secp256k1.groupOrder)
  let p ← internal.point?
  let (x, y) ← ((Secp256k1.Point.generator.times t).sum p).toAffine?
  return ⟨XOnlyKey.ofNat x, y % 2 == 1⟩

/-- The secret key of an output key. -/
def outputSecret? (secret : SecretKey) (root : Digest) : Option SecretKey :=
  let (x, y) := secret.point
  let t := Bytes.ofBE (tweakHash (XOnlyKey.ofNat x) root).toBytes
  let even := if y % 2 = 0 then secret.value else Secp256k1.groupOrder - secret.value
  SecretKey.ofNat? ((even + t) % Secp256k1.groupOrder)

/-- The script that pays to an output key. -/
def payTo (key : XOnlyKey) : Bytes := 0x51 :: 0x20 :: key.bytes.toBytes

end Taproot

/-- What shows that a script is a leaf of an output's tree. -/
structure ControlBlock where
  version : UInt8
  odd : Bool
  internal : XOnlyKey
  branch : List Digest
  deriving DecidableEq

namespace ControlBlock

/-- Whether a byte is a leaf version: even, and not the mark of an annex. -/
def isLeafVersion (v : UInt8) : Bool := v % 2 == 0 && v != 0x50

/-- The serialized form. -/
def encode (c : ControlBlock) : Bytes :=
  (c.version + if c.odd then 1 else 0) :: c.internal.bytes.toBytes ++
    c.branch.flatMap FixedBytes.toBytes

/-- The hashes that a byte string writes one after another. -/
def hashes : (n : Nat) → Bytes → Option (List Digest)
  | 0, [] => some []
  | 0, _ :: _ => none
  | n + 1, b => do
    let first ← FixedBytes.of? 32 (b.take 32)
    return first :: (← hashes n (b.drop 32))

/-- The longest way to the root. -/
def depthLimit : Nat := 128

/-- The control block that a byte string writes. -/
def decode? (b : Bytes) : Option ControlBlock := do
  guard (33 ≤ b.length)
  let n := (b.length - 33) / 32
  guard (n ≤ depthLimit)
  let first := b.headD 0
  let version := first &&& 0xfe
  guard (isLeafVersion version)
  let internal ← XOnlyKey.ofBytes? ((b.drop 1).take 32)
  return ⟨version, first % 2 == 1, internal, ← hashes n (b.drop 33)⟩

end ControlBlock

end SignetFederation
