import SignetFederation.Chain.Block

/-!
# Payloads of well-known commands

Peers of the block chain's own network use commands whose payloads have a fixed form. A frame with
such a command is only read if its payload has that form; what it says is not kept.
-/

namespace SignetFederation.Payload

/-- Reads a value and forgets it. -/
def forget {α : Type} (item : Decoder α) : Decoder Unit := do let _ ← item

/-- A fixed number of bytes. -/
def skip (n : Nat) : Decoder Unit := forget (Decoder.take n)

/-- Forms one after another. -/
def inOrder (items : List (Decoder Unit)) : Decoder Unit := items.forM id

/-- A counted row of one form. -/
def row (item : Decoder Unit) : Decoder Unit := forget (CompactSize.list item)

/-- A counted row of one form that takes no more bytes than the vector limit. -/
def boundedRow {α : Type} (item : Decoder α) : Decoder (List α) :=
  (CompactSize.list item).within CompactSize.vectorLimit

/-- A hash. -/
def hash : Decoder Unit := skip 32

/-- A counted byte string. -/
def bytes : Decoder Unit := forget CompactSize.bytes

/-- A counted text. -/
def text : Decoder Unit := do
  let b ← CompactSize.boundedBytes
  if !(ByteArray.mk b.toArray).validateUTF8 then throw .badText

/-- A byte that has to be one of some codes. -/
def code (what : String) (codes : List UInt8) : Decoder Unit := do
  if (← Decoder.byte) ∉ codes then throw (.badValue what)

/-- The network address of a peer: its services, an address of 16 bytes and a number of 2 bytes. -/
def address : Decoder Unit := skip 26

/-- A reference to an object: a kind, and a hash unless the kind is zero. -/
def inventory : Decoder Unit := do
  if (← Decoder.u32) ≠ 0 then hash

/-- A version, hashes of known blocks, and the hash to stop at. -/
def locator : Decoder Unit := inOrder [skip 4, row hash, hash]

/-- A header and a byte that stands for no transactions. -/
def bareHeader : Decoder Unit := do
  skip 80
  if (← Decoder.byte) ≠ 0 then throw (.badValue "header with transactions")

/-- A header, the size of the block, some of its hashes and bits that tell their places. -/
def merkleBlock : Decoder Unit := do
  skip 84
  forget (boundedRow hash)
  let n ← CompactSize.decode
  if n > CompactSize.vectorLimit then throw (.oversized n)
  skip n

/-- A transaction with its place in a block. -/
def placedTransaction : Decoder Unit := do
  if (← CompactSize.decode) ≥ 65536 then throw (.badValue "transaction index")
  forget Transaction.decode

/-- A header, a nonce, the short ids of transactions, and some transactions in full; the two rows
together have fewer than 65536 entries. -/
def compactBlock : Decoder Unit := do
  skip 88
  let ids ← boundedRow (skip 6)
  let full ← boundedRow placedTransaction
  if ids.length + full.length > 65535 then throw (.badValue "transaction count")

/-- `n` places of transactions, each as its distance from the one before, and all below 2⁶⁴. -/
def places : (n : Nat) → (next : Nat) → Decoder Unit
  | 0, _ => pure ()
  | n + 1, next => do
    let place := next + (← CompactSize.decode)
    if place + 1 ≥ 2 ^ 64 then throw (.badValue "transaction index")
    places n (place + 1)

/-- A hash and places of transactions. -/
def placesOfBlock : Decoder Unit := do
  hash
  let n ← CompactSize.decode
  if n > 62500 then throw (.oversized n)
  places n 0

/-- How addresses of other networks begin when they are written as addresses of the second one. -/
def foreignStarts : List Bytes :=
  [[0xfd, 0x87, 0xd8, 0x7e, 0xeb, 0x43], List.replicate 10 0 ++ [0xff, 0xff]]

/-- An address of one of several networks behind its length. -/
def networkAddress : Decoder Unit := do
  let network ← Decoder.byte
  let n ← CompactSize.decode
  let sized (expected : Nat) : Decoder Bytes :=
    if n = expected then Decoder.take n else throw (.badValue "address length")
  if n > 512 then throw (.badValue "address length")
  match network.toNat with
  | 1 => forget (sized 4)
  | 2 => do
    let a ← sized 16
    if foreignStarts.any (·.isPrefixOf a) then throw (.badValue "address")
  | 3 => forget (sized 10)
  | 4 => forget (sized 32)
  | 5 => forget (sized 32)
  | 6 => do
    if (← sized 16).headD 0 ≠ 0xfc then throw (.badValue "address")
  | _ => skip n

/-- A time, services, an address and a number of 2 bytes. -/
def peerAddress : Decoder Unit :=
  inOrder [skip 4, forget CompactSize.decode, networkAddress, skip 2]

/-- A fee rate, which is not negative. -/
def feeRate : Decoder Unit := do
  if (← Decoder.u64) ≥ 0x8000000000000000 then throw (.badValue "fee rate")

/-- The codes of reasons for a rejection. -/
def rejectCodes : List UInt8 := [0x01, 0x10, 0x11, 0x12, 0x40, 0x41, 0x42, 0x43]

/-- The well-known commands with the forms of their payloads. -/
def wellKnown : List (String × Decoder Unit) := [
  ("version", inOrder [skip 20, address, address, skip 8, text, skip 5]),
  ("verack", pure ()),
  ("addr", row (inOrder [skip 4, address])),
  ("inv", row inventory),
  ("getdata", row inventory),
  ("notfound", row inventory),
  ("getblocks", locator),
  ("getheaders", locator),
  ("mempool", pure ()),
  ("tx", forget Transaction.decode),
  ("block", forget Block.decode),
  ("headers", row bareHeader),
  ("sendheaders", pure ()),
  ("getaddr", pure ()),
  ("ping", skip 8),
  ("pong", skip 8),
  ("merkleblock", merkleBlock),
  ("filterload", inOrder [bytes, skip 8, code "bloom flag" [0, 1, 2]]),
  ("filteradd", bytes),
  ("filterclear", pure ()),
  ("getcfilters", inOrder [skip 5, hash]),
  ("cfilter", inOrder [skip 1, hash, bytes]),
  ("getcfheaders", inOrder [skip 5, hash]),
  ("cfheaders", inOrder [skip 1, hash, hash, row hash]),
  ("getcfcheckpt", inOrder [skip 1, hash]),
  ("cfcheckpt", inOrder [skip 1, hash, row hash]),
  ("sendcmpct", skip 9),
  ("cmpctblock", compactBlock),
  ("getblocktxn", placesOfBlock),
  ("blocktxn", inOrder [hash, row (forget Transaction.decode)]),
  ("alert", bytes),
  ("reject", inOrder [text, code "reject code" rejectCodes, text, hash]),
  ("feefilter", feeRate),
  ("wtxidrelay", pure ()),
  ("addrv2", row peerAddress),
  ("sendaddrv2", pure ())]

end SignetFederation.Payload
