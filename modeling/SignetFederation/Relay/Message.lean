import SignetFederation.Chain.Block
import SignetFederation.Psbt.Codec
import SignetFederation.Relay.Fault

/-!
# Messages of the relay

A message carries a partially signed block template between signers: the nonce of its session, the
PSBT, the block, and the short ids of the signers whose signatures the PSBT carries.

`crates/psbt-relay/src/message.rs`:

| here | there |
| --- | --- |
| `SignetPsbtMessage` | `SignetPsbtMessage` (`message.rs:28-37`) |
| `sizeLimit` | `MAX_MESSAGE_SIZE` (`message.rs:24`) |
| `make` | `SignetPsbtMessage::new` (`message.rs:41-48`) |
| `resigned` | `SignetPsbtMessage::resigned` (`message.rs:56-63`) |
| `encode` | `SignetPsbtMessage::encode`, `consensus_encode` (`message.rs:66-68`, `:132-143`) |
| `decode` | `SignetPsbtMessage::decode` (`message.rs:71-88`) |
| `decoder`, `decodeSigners` | `consensus_decode_from_finite_reader` (`message.rs:145-171`) |
| `readPsbt` | `SignetPsbtMessage::parse_psbt` (`message.rs:91-93`) |
| `readBlock` | `SignetPsbtMessage::parse_block` (`message.rs:96-98`) |
-/

namespace SignetFederation

/-- A partially signed block template on its way between signers. -/
structure SignetPsbtMessage where
  nonce : UInt64
  psbt : Bytes
  blockTemplate : Bytes
  signers : List UInt64
  deriving DecidableEq

namespace SignetPsbtMessage

/-- The longest message, in bytes. -/
def sizeLimit : Nat := 16000000

/-- The largest number of short ids. -/
def signersLimit : Nat := 2000000

/-- The message about a PSBT and its block. -/
def make (nonce : UInt64) (psbt : Psbt) (block : Block) (signers : List UInt64) :
    SignetPsbtMessage :=
  ⟨nonce, psbt.encode, block.encode, signers⟩

/-- The message of the same session and block with another PSBT and other signers. -/
def resigned (m : SignetPsbtMessage) (psbt : Psbt) (signers : List UInt64) : SignetPsbtMessage :=
  { m with psbt := psbt.encode, signers }

/-- The serialized form. -/
def encode (m : SignetPsbtMessage) : Bytes :=
  Bytes.le 8 m.nonce.toNat ++ CompactSize.encodeBytes m.psbt ++
    CompactSize.encodeBytes m.blockTemplate ++ CompactSize.encode m.signers.length ++
    m.signers.flatMap fun id => Bytes.le 8 id.toNat

/-- Reads the short ids behind their count. -/
def decodeSigners : Decoder (List UInt64) := fun b =>
  match CompactSize.decode b with
  | .error e => .error e
  | .ok (n, b) => if n > signersLimit then .error (.oversized n) else Decoder.many Decoder.u64 n b

/-- Reads a message. -/
def decoder : Decoder SignetPsbtMessage := do
  return ⟨← Decoder.u64, ← CompactSize.bytes, ← CompactSize.bytes, ← decodeSigners⟩

/-- The message that a whole byte string writes. -/
def decode (b : Bytes) : Except RelayFault SignetPsbtMessage :=
  let n := b.length
  if n > sizeLimit then .error (.malformed (.tooLong n sizeLimit))
  else
    match decoder b with
    | .ok (m, []) => .ok m
    | .ok (_, x :: rest) => .error (.malformed (.trailing (x :: rest).length))
    | .error why => .error (.ofDecode why)

/-- The PSBT that the message carries. -/
def readPsbt (m : SignetPsbtMessage) : Except RelayFault Psbt :=
  match Psbt.decode? m.psbt with
  | some p => .ok p
  | none => .error (.malformed .badPsbt)

/-- The block that the message carries. -/
def readBlock (m : SignetPsbtMessage) : Except RelayFault Block :=
  match Block.ofBytes? m.blockTemplate with
  | .ok b => .ok b
  | .error why => .error (.malformed (.unreadable why))

end SignetPsbtMessage

end SignetFederation
