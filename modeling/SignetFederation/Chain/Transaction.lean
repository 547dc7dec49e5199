import SignetFederation.Chain.Script
import SignetFederation.Digest.Sha256

/-!
# Transactions

Inputs, outputs and their serialized forms. A transaction with a witness, or without inputs, is
written with the marker and flag of BIP144; its identifier is the hash of the form without
witnesses. Readers accept the marker only with flag one and at least one witness that is not empty.
-/

namespace SignetFederation

/-- The items of a witness, first item at the bottom of the stack. -/
abbrev Witness := List Bytes

/-- The place of an output: a transaction and an index. -/
structure OutPoint where
  txid : Digest
  vout : UInt32
  deriving DecidableEq

/-- The output place of a coinbase input. -/
def OutPoint.null : OutPoint := ⟨FixedBytes.zero 32, 0xffffffff⟩

/-- A transaction input. -/
structure TxIn where
  previous : OutPoint
  scriptSig : Script
  sequence : UInt32
  witness : Witness
  deriving DecidableEq

/-- A transaction output, with its value in the smallest unit. -/
structure TxOut where
  value : UInt64
  script : Script
  deriving DecidableEq

/-- A transaction; the version is kept as the bits of its two's complement form. -/
structure Transaction where
  version : UInt32
  inputs : List TxIn
  outputs : List TxOut
  lockTime : UInt32
  deriving DecidableEq

namespace Witness

/-- The serialized form: a count and length-prefixed items. -/
def encode (w : Witness) : Bytes := CompactSize.encode w.length ++ w.flatMap CompactSize.encodeBytes

/-- Reads `n` items whose forms take no more than `room` bytes, after those already read. -/
def decodeItems : (n : Nat) → (room : Nat) → (acc : Witness) → Decoder Witness
  | 0, _, acc, b => .ok (acc.reverse, b)
  | n + 1, room, acc, b =>
    match CompactSize.decode b with
    | .error e => .error e
    | .ok (size, b) =>
      let taken := (CompactSize.encode size).length + size
      if taken > room then .error (.oversized taken)
      else
        match Decoder.take size b with
        | .error e => .error e
        | .ok (item, b) => decodeItems n (room - taken) (item :: acc) b

/-- Reads a witness. -/
def decode : Decoder Witness := fun b =>
  match CompactSize.decode b with
  | .error e => .error e
  | .ok (n, b) =>
    if n > CompactSize.vectorLimit then .error (.oversized n)
    else decodeItems n CompactSize.vectorLimit [] b

end Witness

namespace OutPoint

def encode (o : OutPoint) : Bytes := o.txid.toBytes ++ Bytes.le 4 o.vout.toNat

def decode : Decoder OutPoint := do return ⟨← Decoder.fixed 32, ← Decoder.u32⟩

end OutPoint

namespace TxIn

/-- The form within the inputs, which leaves out the witness. -/
def encode (i : TxIn) : Bytes :=
  i.previous.encode ++ CompactSize.encodeBytes i.scriptSig ++ Bytes.le 4 i.sequence.toNat

def decode : Decoder TxIn := do
  return ⟨← OutPoint.decode, ← CompactSize.bytes, ← Decoder.u32, []⟩

end TxIn

namespace TxOut

def encode (o : TxOut) : Bytes := Bytes.le 8 o.value.toNat ++ CompactSize.encodeBytes o.script

def decode : Decoder TxOut := do return ⟨← Decoder.u64, ← CompactSize.bytes⟩

end TxOut

namespace Transaction

/-- The inputs behind their count. -/
def encodeInputs (t : Transaction) : Bytes :=
  CompactSize.encode t.inputs.length ++ t.inputs.flatMap TxIn.encode

/-- The outputs behind their count. -/
def encodeOutputs (t : Transaction) : Bytes :=
  CompactSize.encode t.outputs.length ++ t.outputs.flatMap TxOut.encode

/-- The form without witnesses. -/
def encodeBare (t : Transaction) : Bytes :=
  Bytes.le 4 t.version.toNat ++ t.encodeInputs ++ t.encodeOutputs ++ Bytes.le 4 t.lockTime.toNat

/-- Whether the form has the marker: some witness is not empty, or the missing inputs could be
taken for it. -/
def hasMarker (t : Transaction) : Bool :=
  t.inputs.isEmpty || t.inputs.any fun i => !i.witness.isEmpty

/-- The serialized form. -/
def encode (t : Transaction) : Bytes :=
  if t.hasMarker then
    Bytes.le 4 t.version.toNat ++ [0, 1] ++ t.encodeInputs ++ t.encodeOutputs ++
      t.inputs.flatMap (fun i => Witness.encode i.witness) ++ Bytes.le 4 t.lockTime.toNat
  else t.encodeBare

/-- The identifier, in the order in which it is computed. -/
def txid (t : Transaction) : Digest := doubleSha256 t.encodeBare

/-- Reads the form without witnesses; no marker is looked for. -/
def decodeBare : Decoder Transaction := do
  return ⟨← Decoder.u32, ← CompactSize.list TxIn.decode, ← CompactSize.list TxOut.decode,
    ← Decoder.u32⟩

/-- Reads one witness per input. -/
def decodeWitnesses : List TxIn → Decoder (List TxIn)
  | [] => pure []
  | i :: rest => do
    let witness ← Witness.decode
    return { i with witness } :: (← decodeWitnesses rest)

/-- Reads the serialized form. -/
def decode : Decoder Transaction := do
  let version ← Decoder.u32
  let inputs ← CompactSize.list TxIn.decode
  if inputs.isEmpty then
    let flag ← Decoder.byte
    if flag ≠ 1 then throw (.unsupportedWitnessFlag flag.toNat)
    let inputs ← CompactSize.list TxIn.decode
    let outputs ← CompactSize.list TxOut.decode
    let inputs ← decodeWitnesses inputs
    if !inputs.isEmpty && inputs.all (fun i => i.witness.isEmpty) then throw .emptyWitnesses
    return ⟨version, inputs, outputs, ← Decoder.u32⟩
  else
    return ⟨version, inputs, ← CompactSize.list TxOut.decode, ← Decoder.u32⟩

end Transaction

end SignetFederation
