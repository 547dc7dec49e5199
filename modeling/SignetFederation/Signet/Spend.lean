import SignetFederation.Psbt.Codec
import SignetFederation.Signet.Commitment

/-!
# The spend that authorises a block

A block is authorised by spending an output that is never in the chain: a virtual transaction whose
input commits to the block and whose output is locked by the challenge. The transaction that spends
it is what the quorum signs.

`crates/quorum-core/src/signet.rs`:

| here | there |
| --- | --- |
| `Block.signedData` | the signed bytes of `signet_txs` (`signet.rs:94-99`) |
| `Block.toSpend` | its first transaction (`signet.rs:101-117`) |
| `Block.toSign` | its second transaction (`signet.rs:119-132`) |
| `Block.signetPsbt` | `signet_psbt` (`signet.rs:138-144`) |
| `signetMagic` | `signet_magic` (`signet.rs:172-176`) |
-/

namespace SignetFederation

/-- A transaction of the virtual pair: one input without sequence and witness, one output of no
value. -/
def virtualTransaction (previous : OutPoint) (scriptSig script : Script) : Transaction :=
  ⟨0, [⟨previous, scriptSig, 0, []⟩], [⟨0, script⟩], 0⟩

namespace Block

/-- What the virtual input commits to: the block's version, predecessor, merkle root without the
solution, and time. -/
def signedData (b : Block) : Except Error Bytes := do
  return Bytes.le 4 b.header.version.toNat ++ b.header.previous.toBytes ++
    (← b.signetRoot).toBytes ++ Bytes.le 4 b.header.time.toNat

/-- The transaction whose output the solution spends. -/
def toSpend (b : Block) (challenge : Script) : Except Error Transaction := do
  return virtualTransaction .null (0x00 :: Script.push (← b.signedData)) challenge

/-- The transaction that spends it. -/
def toSign (b : Block) (challenge : Script) : Except Error Transaction := do
  return virtualTransaction ⟨(← b.toSpend challenge).txid, 0⟩ [] [Script.opReturn]

/-- The PSBT that the quorum signs for a block. -/
def signetPsbt (b : Block) (challenge : Script) : Except Error Psbt := do
  let spend ← b.toSpend challenge
  let psbt := Psbt.ofTransaction (← b.toSign challenge)
  return { psbt with
    inputs := psbt.inputs.map fun i =>
      { i with previousTransaction := some spend, spentOutput := spend.outputs.head? } }

end Block

/-- The magic of the signet with a challenge: the first four bytes of the double hash of its
serialized form. -/
def signetMagic (challenge : Script) : Magic :=
  ⟨(doubleSha256 (CompactSize.encodeBytes challenge)).toBytes.take 4, by
    simp [FixedBytes.length_eq]⟩

end SignetFederation
