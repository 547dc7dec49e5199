import SignetFederation.Chain.Transaction
import SignetFederation.Taproot.Signature
import SignetFederation.Taproot.Tree

/-!
# What a taproot signature signs

The hash of BIP341 for a signature that covers the whole transaction: its fixed fields, the outputs
that it spends, the outputs that it creates and the place of the signing input. A signature for a
leaf also covers the leaf's hash.
-/

namespace SignetFederation.Taproot

/-- The message of a signature that covers everything, by the input at `index`; `spent` are the
outputs that the inputs spend, in order. -/
def sighashMessage (t : Transaction) (spent : List TxOut) (index : Nat) (leaf : Option Digest) :
    Bytes :=
  [0x00, SighashType.all.toByte] ++
    Bytes.le 4 t.version.toNat ++ Bytes.le 4 t.lockTime.toNat ++
    (sha256 (t.inputs.flatMap fun i => i.previous.encode)).toBytes ++
    (sha256 (spent.flatMap fun o => Bytes.le 8 o.value.toNat)).toBytes ++
    (sha256 (spent.flatMap fun o => CompactSize.encodeBytes o.script)).toBytes ++
    (sha256 (t.inputs.flatMap fun i => Bytes.le 4 i.sequence.toNat)).toBytes ++
    (sha256 (t.outputs.flatMap TxOut.encode)).toBytes ++
    match leaf with
    | none => 0x00 :: Bytes.le 4 index
    | some hash => 0x02 :: (Bytes.le 4 index ++ hash.toBytes ++ [0x00, 0xff, 0xff, 0xff, 0xff])

/-- The hash that a signature for the key path or for a leaf signs. -/
def sighash (t : Transaction) (spent : List TxOut) (index : Nat) (leaf : Option Digest) : Digest :=
  taggedHash "TapSighash" (sighashMessage t spent index leaf)

end SignetFederation.Taproot
