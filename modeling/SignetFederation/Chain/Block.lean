import SignetFederation.Bytes.Hex
import SignetFederation.Chain.Merkle
import SignetFederation.Chain.Transaction

/-!
# Blocks

A header of eighty bytes and the transactions, the first of which creates the block's coins. Hashes
are shown with their bytes reversed.
-/

namespace SignetFederation

/-- A block header; the version is kept as the bits of its two's complement form. -/
structure Header where
  version : UInt32
  previous : Digest
  merkleRoot : Digest
  time : UInt32
  bits : UInt32
  nonce : UInt32
  deriving DecidableEq

/-- A block. -/
structure Block where
  header : Header
  transactions : List Transaction
  deriving DecidableEq

/-- A hash as it is shown to people. -/
def Digest.shown (d : Digest) : String := Hex.encode d.toBytes.reverse

namespace Header

def encode (h : Header) : Bytes :=
  Bytes.le 4 h.version.toNat ++ h.previous.toBytes ++ h.merkleRoot.toBytes ++
    Bytes.le 4 h.time.toNat ++ Bytes.le 4 h.bits.toNat ++ Bytes.le 4 h.nonce.toNat

def decode : Decoder Header := do
  return ⟨← Decoder.u32, ← Decoder.fixed 32, ← Decoder.fixed 32, ← Decoder.u32, ← Decoder.u32,
    ← Decoder.u32⟩

end Header

namespace Block

def encode (b : Block) : Bytes :=
  b.header.encode ++ CompactSize.encode b.transactions.length ++
    b.transactions.flatMap Transaction.encode

def decode : Decoder Block := do
  return ⟨← Header.decode, ← CompactSize.list Transaction.decode⟩

/-- The block that a whole byte string writes. -/
def ofBytes? (b : Bytes) : Except DecodeFault Block := decode.whole b

/-- The hash of the header. -/
def hash (b : Block) : Digest := doubleSha256 b.header.encode

/-- The merkle root over the transactions, if there are any. -/
def computedRoot? (b : Block) : Option Digest := Merkle.root? (b.transactions.map Transaction.txid)

end Block

end SignetFederation
