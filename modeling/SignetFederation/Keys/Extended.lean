import SignetFederation.Bytes.Base58
import SignetFederation.Digest.Ripemd160
import SignetFederation.Digest.Sha512
import SignetFederation.Secp256k1.Key
import SignetFederation.Text.Decimal
import SignetFederation.Text.Fields

/-!
# Extended keys

A key with a chain code, from which further keys are derived along a path (BIP32). Steps at 2³¹ and
above are hardened: they need the secret key. Both kinds of key have a serialized form of 78 bytes,
whose first four tell the kind and the network.
-/

namespace SignetFederation

/-- The kinds of network that keys are marked for. -/
inductive NetworkKind where
  | main
  | test
  deriving DecidableEq

/-- What an extended key tells about its place in the tree of keys. -/
structure KeyPlace where
  network : NetworkKind
  depth : UInt8
  parent : FixedBytes 4
  child : UInt32
  chain : Digest
  deriving DecidableEq

/-- An extended public key. -/
structure ExtendedPublic where
  place : KeyPlace
  key : PublicKey
  deriving DecidableEq

/-- An extended secret key. -/
structure ExtendedSecret where
  place : KeyPlace
  key : SecretKey
  deriving DecidableEq

/-- The steps of a derivation path. -/
abbrev DerivationPath := List UInt32

namespace DerivationPath

/-- The first hardened step. -/
def hardenedFrom : Nat := 2147483648

/-- The step that a row of characters writes; a mark behind the number hardens it. -/
def step? (cs : List Char) : Option UInt32 :=
  let hardened := cs.getLast? = some '\'' ∨ cs.getLast? = some 'h'
  let digits := if hardened then cs.dropLast else cs
  match Decimal.read? hardenedFrom digits with
  | some n => some (UInt32.ofNat (if hardened then n + hardenedFrom else n))
  | none => none

/-- The path that a row of characters writes, with slashes between its steps. -/
def read? (cs : List Char) : Option DerivationPath :=
  if cs = [] then some [] else (Text.fields '/' cs).mapM step?

end DerivationPath

namespace KeyPlace

/-- The front of the serialized form, after the version. -/
def encode (p : KeyPlace) : Bytes :=
  p.depth :: p.parent.toBytes ++ Bytes.be 4 p.child.toNat ++ p.chain.toBytes

/-- The place that the 41 bytes after the version write. -/
def decode? (network : NetworkKind) (b : Bytes) : Option KeyPlace := do
  let parent ← FixedBytes.of? 4 ((b.drop 1).take 4)
  let chain ← FixedBytes.of? 32 ((b.drop 9).take 32)
  return ⟨network, b.headD 0, parent, UInt32.ofNat (Bytes.ofBE ((b.drop 5).take 4)), chain⟩

/-- The place of a child whose parent has the given public key. Depths end at 255. -/
def below (p : KeyPlace) (parent : PublicKey) (child : UInt32) (chain : Bytes) : Option KeyPlace := do
  guard (p.depth < 255)
  let mark ← FixedBytes.of? 4 ((hash160 parent.compressed.toBytes).toBytes.take 4)
  let chain ← FixedBytes.of? 32 chain
  return ⟨p.network, p.depth + 1, mark, child, chain⟩

end KeyPlace

namespace ExtendedPublic

/-- The first four bytes of the serialized form. -/
def version : NetworkKind → Bytes
  | .main => [0x04, 0x88, 0xb2, 0x1e]
  | .test => [0x04, 0x35, 0x87, 0xcf]

/-- The serialized form. -/
def encode (x : ExtendedPublic) : Bytes :=
  version x.place.network ++ x.place.encode ++ x.key.compressed.toBytes

/-- The key that a serialized form writes. -/
def decode? (b : Bytes) : Option ExtendedPublic := do
  guard (b.length = 78)
  let network ←
    if b.take 4 = version .main then some NetworkKind.main
    else if b.take 4 = version .test then some .test
    else none
  let place ← KeyPlace.decode? network (b.drop 4)
  return ⟨place, ← PublicKey.ofCompressed? (b.drop 45)⟩

/-- The key that a text writes. -/
def ofText? (s : String) : Option ExtendedPublic := (Base58.decodeCheck? s).bind decode?

/-- The text of a key. -/
def text (x : ExtendedPublic) : String := Base58.encodeCheck x.encode

/-- The key one step further, which has to be a plain one. -/
def child? (x : ExtendedPublic) (step : UInt32) : Option ExtendedPublic := do
  guard (step.toNat < DerivationPath.hardenedFrom)
  let digest := hmacSha512 x.place.chain.toBytes (x.key.compressed.toBytes ++ Bytes.be 4 step.toNat)
  let tweak := Bytes.ofBE (digest.toBytes.take 32)
  guard (tweak < Secp256k1.groupOrder)
  let (px, py) ← x.key.point?
  let sum ← ((Secp256k1.Point.generator.times tweak).sum (.ofAffine px py)).toAffine?
  return ⟨← x.place.below x.key step (digest.toBytes.drop 32), PublicKey.ofPoint sum⟩

/-- The key at the end of a path. -/
def derive? (x : ExtendedPublic) (path : DerivationPath) : Option ExtendedPublic :=
  path.foldlM child? x

end ExtendedPublic

namespace ExtendedSecret

/-- The first four bytes of the serialized form. -/
def version : NetworkKind → Bytes
  | .main => [0x04, 0x88, 0xad, 0xe4]
  | .test => [0x04, 0x35, 0x83, 0x94]

/-- The serialized form. -/
def encode (x : ExtendedSecret) : Bytes :=
  version x.place.network ++ x.place.encode ++ 0 :: x.key.toBytes

/-- The key that a serialized form writes. -/
def decode? (b : Bytes) : Option ExtendedSecret := do
  guard (b.length = 78)
  let network ←
    if b.take 4 = version .main then some NetworkKind.main
    else if b.take 4 = version .test then some .test
    else none
  let place ← KeyPlace.decode? network (b.drop 4)
  return ⟨place, ← SecretKey.ofBytes? (b.drop 46)⟩

/-- The key that a text writes. -/
def ofText? (s : String) : Option ExtendedSecret := (Base58.decodeCheck? s).bind decode?

/-- The text of a key. -/
def text (x : ExtendedSecret) : String := Base58.encodeCheck x.encode

/-- The key at the root of the tree that a seed grows, unless the seed gives no scalar. -/
def ofSeed? (network : NetworkKind) (seed : Bytes) : Option ExtendedSecret := do
  let digest := (hmacSha512 "Bitcoin seed".toUTF8.toList seed).toBytes
  let key ← SecretKey.ofBytes? (digest.take 32)
  let chain ← FixedBytes.of? 32 (digest.drop 32)
  return ⟨⟨network, 0, FixedBytes.zero 4, 0, chain⟩, key⟩

/-- The public side of a key. -/
def toPublic (x : ExtendedSecret) : ExtendedPublic := ⟨x.place, x.key.publicKey⟩

/-- The key one step further. -/
def child? (x : ExtendedSecret) (step : UInt32) : Option ExtendedSecret := do
  let parent := x.key.publicKey
  let start :=
    if step.toNat < DerivationPath.hardenedFrom then parent.compressed.toBytes
    else 0 :: x.key.toBytes
  let digest := hmacSha512 x.place.chain.toBytes (start ++ Bytes.be 4 step.toNat)
  let tweak := Bytes.ofBE (digest.toBytes.take 32)
  guard (0 < tweak ∧ tweak < Secp256k1.groupOrder)
  let key ← SecretKey.ofNat? ((tweak + x.key.value) % Secp256k1.groupOrder)
  return ⟨← x.place.below parent step (digest.toBytes.drop 32), key⟩

/-- The key at the end of a path. -/
def derive? (x : ExtendedSecret) (path : DerivationPath) : Option ExtendedSecret :=
  path.foldlM child? x

end ExtendedSecret

end SignetFederation
