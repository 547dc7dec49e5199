import SignetFederation.Digest.Ripemd160
import SignetFederation.Psbt.Basic

/-!
# The serialized form of a PSBT

A PSBT is five magic bytes, a map about the transaction, and a map for each input and each output
(BIP174, version zero). A known pair that does not parse, comes twice or has too much in its key
spoils the whole. What follows the last map is not looked at.
-/

namespace SignetFederation

/-- The value that a reader finds, if it takes all of a byte string. -/
def Decoder.whole? {α : Type} (item : Decoder α) (b : Bytes) : Option α := (item.whole b).toOption

namespace KeySource

/-- The serialized form. -/
def encode (s : KeySource) : Bytes :=
  s.fingerprint.toBytes ++ s.path.flatMap fun i => Bytes.le 4 i.toNat

/-- The steps that a byte string writes one after another, at most `fuel` of them. -/
def readSteps : (fuel : Nat) → (acc : DerivationPath) → Bytes → Option DerivationPath
  | _, acc, [] => some acc.reverse
  | 0, _, _ :: _ => none
  | fuel + 1, acc, b => do
    let (step, rest) ← Bytes.cut 4 b
    readSteps fuel (UInt32.ofNat (Bytes.ofLE step) :: acc) rest

/-- The source that a byte string writes. -/
def decode? (b : Bytes) : Option KeySource := do
  let fingerprint ← FixedBytes.of? 4 (b.take 4)
  return ⟨fingerprint, ← readSteps b.length [] (b.drop 4)⟩

end KeySource

namespace Psbt

/-- The bytes that begin a PSBT. -/
def magic : Bytes := [0x70, 0x73, 0x62, 0x74, 0xff]

namespace EcdsaKey

/-- The key as it stands behind its type. -/
def encode (k : EcdsaKey) : Bytes :=
  if k.compressed then k.key.compressed.toBytes else k.key.uncompressed

/-- The key that a byte string writes. -/
def decode? (b : Bytes) : Option EcdsaKey :=
  match PublicKey.ofCompressed? b with
  | some k => some ⟨true, k⟩
  | none => (PublicKey.ofUncompressed? false b).map fun k => ⟨false, k⟩

end EcdsaKey

namespace EcdsaSignature

/-- The bytes that tell what a signature covers. -/
def coverages : List UInt8 := [0x01, 0x02, 0x03, 0x81, 0x82, 0x83]

/-- The serialized form. -/
def encode (s : EcdsaSignature) : Bytes := Der.encode s.signature ++ [s.coverage]

/-- The signature that a byte string writes. -/
def decode? (b : Bytes) : Option EcdsaSignature := do
  let coverage ← b.getLast?
  guard (coverage ∈ coverages)
  return ⟨← Der.decode? b.dropLast, coverage⟩

end EcdsaSignature

/-- A preimage, if its hash is the key it stands under. -/
def preimage {n : Nat} (hash : Bytes → FixedBytes n) (key : FixedBytes n) (b : Bytes) :
    Option Bytes :=
  if hash b = key then some b else none

/-- The key of a script signature that a byte string writes. -/
def readLeafSigner (b : Bytes) : Option LeafSigner := do
  let key ← XOnlyKey.ofBytes? (b.take 32)
  return ⟨key, ← FixedBytes.of? 32 (b.drop 32)⟩

/-- The key of a script signature as it stands behind its type. -/
def writeLeafSigner (s : LeafSigner) : Bytes := s.key.bytes.toBytes ++ s.leaf.toBytes

/-- A leaf script with its version behind it. -/
def readLeafScript (b : Bytes) : Option (Script × UInt8) := do
  let version ← b.getLast?
  guard (ControlBlock.isLeafVersion version)
  return (b.dropLast, version)

/-- The serialized form of a leaf script. -/
def writeLeafScript (s : Script × UInt8) : Bytes := s.1 ++ [s.2]

/-- The leaves and the source of a key. -/
def readTapOrigin (b : Bytes) : Option (List Digest × KeySource) := do
  let (leaves, rest) ← (CompactSize.list (Decoder.fixed 32) b).toOption
  return (leaves, ← KeySource.decode? rest)

/-- The serialized form of the leaves and the source of a key. -/
def writeTapOrigin (o : List Digest × KeySource) : Bytes :=
  CompactSize.encode o.1.length ++ o.1.flatMap FixedBytes.toBytes ++ o.2.encode

/-- A 32-bit number and nothing else. -/
def readU32 (b : Bytes) : Option UInt32 := Decoder.u32.whole? b

namespace Input

/-- The types that have a meaning in the map of an input. -/
def types : List UInt8 :=
  [0x00, 0x01, 0x02, 0x03, 0x04, 0x05, 0x06, 0x07, 0x08, 0x0a, 0x0b, 0x0c, 0x0d, 0x13, 0x14, 0x15,
    0x16, 0x17, 0x18]

/-- What the pairs of a map tell about an input. -/
def ofPairs? (ps : List Pair) : Option Input := do
  return {
    previousTransaction := ← Pair.single ps 0x00 Transaction.decode.whole?
    spentOutput := ← Pair.single ps 0x01 TxOut.decode.whole?
    partialSignatures := ← Pair.table ps 0x02 EcdsaKey.decode? fun _ v => EcdsaSignature.decode? v
    sighashType := ← Pair.single ps 0x03 readU32
    redeemScript := ← Pair.single ps 0x04 some
    witnessScript := ← Pair.single ps 0x05 some
    derivations := ← Pair.table ps 0x06 PublicKey.ofBytes? fun _ v => KeySource.decode? v
    finalScriptSig := ← Pair.single ps 0x07 some
    finalWitness := ← Pair.single ps 0x08 Witness.decode.whole?
    ripemd160Preimages := ← Pair.table ps 0x0a (FixedBytes.of? 20) (preimage ripemd160)
    sha256Preimages := ← Pair.table ps 0x0b (FixedBytes.of? 32) (preimage sha256)
    hash160Preimages := ← Pair.table ps 0x0c (FixedBytes.of? 20) (preimage hash160)
    hash256Preimages := ← Pair.table ps 0x0d (FixedBytes.of? 32) (preimage doubleSha256)
    tapKeySignature := ← Pair.single ps 0x13 TapSignature.decode?
    tapScriptSignatures := ← Pair.table ps 0x14 readLeafSigner fun _ v => TapSignature.decode? v
    tapScripts := ← Pair.table ps 0x15 ControlBlock.decode? fun _ v => readLeafScript v
    tapKeyOrigins := ← Pair.table ps 0x16 XOnlyKey.ofBytes? fun _ v => readTapOrigin v
    tapInternalKey := ← Pair.single ps 0x17 XOnlyKey.ofBytes?
    tapMerkleRoot := ← Pair.single ps 0x18 (FixedBytes.of? 32)
    others := ← OtherPairs.read types ps }

/-- The pairs of an input's map. -/
def pairs (i : Input) : List Pair :=
  Pair.ofSingle 0x00 Transaction.encode i.previousTransaction ++
    Pair.ofSingle 0x01 TxOut.encode i.spentOutput ++
    Pair.ofTable 0x02 EcdsaKey.encode EcdsaSignature.encode i.partialSignatures ++
    Pair.ofSingle 0x03 (fun t => Bytes.le 4 t.toNat) i.sighashType ++
    Pair.ofSingle 0x04 id i.redeemScript ++
    Pair.ofSingle 0x05 id i.witnessScript ++
    Pair.ofTable 0x06 (fun k => k.compressed.toBytes) KeySource.encode i.derivations ++
    Pair.ofSingle 0x07 id i.finalScriptSig ++
    Pair.ofSingle 0x08 Witness.encode i.finalWitness ++
    Pair.ofTable 0x0a FixedBytes.toBytes id i.ripemd160Preimages ++
    Pair.ofTable 0x0b FixedBytes.toBytes id i.sha256Preimages ++
    Pair.ofTable 0x0c FixedBytes.toBytes id i.hash160Preimages ++
    Pair.ofTable 0x0d FixedBytes.toBytes id i.hash256Preimages ++
    Pair.ofSingle 0x13 TapSignature.encode i.tapKeySignature ++
    Pair.ofTable 0x14 writeLeafSigner TapSignature.encode i.tapScriptSignatures ++
    Pair.ofTable 0x15 ControlBlock.encode writeLeafScript i.tapScripts ++
    Pair.ofTable 0x16 (fun k => k.bytes.toBytes) writeTapOrigin i.tapKeyOrigins ++
    Pair.ofSingle 0x17 (fun k => k.bytes.toBytes) i.tapInternalKey ++
    Pair.ofSingle 0x18 FixedBytes.toBytes i.tapMerkleRoot ++
    i.others.pairs

end Input

namespace Output

/-- The types that have a meaning in the map of an output. -/
def types : List UInt8 := [0x00, 0x01, 0x02, 0x05, 0x06, 0x07]

/-- What the pairs of a map tell about an output. -/
def ofPairs? (ps : List Pair) : Option Output := do
  return {
    redeemScript := ← Pair.single ps 0x00 some
    witnessScript := ← Pair.single ps 0x01 some
    derivations := ← Pair.table ps 0x02 PublicKey.ofBytes? fun _ v => KeySource.decode? v
    tapInternalKey := ← Pair.single ps 0x05 XOnlyKey.ofBytes?
    tapTree := ← Pair.single ps 0x06 LeafTree.decode?
    tapKeyOrigins := ← Pair.table ps 0x07 XOnlyKey.ofBytes? fun _ v => readTapOrigin v
    others := ← OtherPairs.read types ps }

/-- The pairs of an output's map. -/
def pairs (o : Output) : List Pair :=
  Pair.ofSingle 0x00 id o.redeemScript ++
    Pair.ofSingle 0x01 id o.witnessScript ++
    Pair.ofTable 0x02 (fun k => k.compressed.toBytes) KeySource.encode o.derivations ++
    Pair.ofSingle 0x05 (fun k => k.bytes.toBytes) o.tapInternalKey ++
    Pair.ofSingle 0x06 LeafTree.encode o.tapTree ++
    Pair.ofTable 0x07 (fun k => k.bytes.toBytes) writeTapOrigin o.tapKeyOrigins ++
    o.others.pairs

end Output

/-- The types that have a meaning in the map about the transaction. -/
def globalTypes : List UInt8 := [0x00, 0x01, 0xfb]

/-- A version number, which has to be zero. -/
def readVersion (b : Bytes) : Option Unit := do
  let version ← readU32 b
  guard (version = 0)

/-- An unsigned transaction: no input has a script or a witness. -/
def readUnsigned (b : Bytes) : Option Transaction := do
  let t ← Transaction.decodeBare.whole? b
  guard (t.inputs.all fun i => i.scriptSig.isEmpty && i.witness.isEmpty)
  return t

/-- What the pairs of the map about the transaction tell: the transaction, which must be there, the
extended keys and the rest. -/
def readGlobal (ps : List Pair) :
    Option (Transaction × SortedMap ExtendedPublic KeySource × OtherPairs) := do
  let t ← (← Pair.single ps 0x00 readUnsigned)
  let _ ← Pair.single ps 0xfb readVersion
  return (t, ← Pair.table ps 0x01 ExtendedPublic.decode? fun _ v => KeySource.decode? v,
    ← OtherPairs.read globalTypes ps)

/-- The pairs of the map about the transaction. -/
def globalPairs (p : Psbt) : List Pair :=
  ⟨0x00, [], p.unsigned.encodeBare⟩ ::
    Pair.ofTable 0x01 ExtendedPublic.encode KeySource.encode p.extendedKeys ++ p.others.pairs

/-- The serialized form. -/
def encode (p : Psbt) : Bytes :=
  magic ++ Pair.encodeMap p.globalPairs ++
    (p.inputs.flatMap fun i => Pair.encodeMap i.pairs) ++
    p.outputs.flatMap fun o => Pair.encodeMap o.pairs

/-- The PSBT that begins a byte string. -/
def decode? (b : Bytes) : Option Psbt := do
  let b ← if magic.isPrefixOf b then some (b.drop magic.length) else none
  let (global, b) ← (Pair.decodeMap.within CompactSize.vectorLimit b).toOption
  let (t, keys, others) ← readGlobal global
  let (inputs, b) ← (Decoder.many Pair.decodeMap t.inputs.length b).toOption
  let (outputs, _) ← (Decoder.many Pair.decodeMap t.outputs.length b).toOption
  return ⟨t, keys, others, ← inputs.mapM Input.ofPairs?, ← outputs.mapM Output.ofPairs?⟩

end Psbt

end SignetFederation
