import SignetFederation.Chain.Block
import SignetFederation.Error

/-!
# Solutions in the witness commitment

A block carries its solution in the output of its first transaction that commits to the witnesses:
the first push that begins with the signet header and goes on is the solution. The last output of
that form counts. Signing covers the block with the solution cut down to the bare header, so a
solution can be put in later; putting one in replaces any earlier one.

`crates/quorum-core/src/signet.rs`:

| here | there |
| --- | --- |
| `Commitment.header` | `SIGNET_HEADER` (`signet.rs:25`) |
| `Commitment.outputStart` | `WITNESS_COMMITMENT_PREFIX` (`signet.rs:28`) |
| `Block.commitmentIndex?` | `witness_commitment_index` (`signet.rs:31-36`) |
| `Commitment.solutionOf?`, `withSection` | `replace_section` (`signet.rs:41-62`) |
| `Block.solution` | `commitment_solution` (`signet.rs:69-73`) |
| `Block.signetRoot` | `signet_merkle_root` (`signet.rs:77-89`) |
| `Block.embedSection`, `embedInPlace` | `embed_commitment_section` (`signet.rs:148-164`) |
-/

namespace SignetFederation

/-- The place of the last element with a property. -/
def lastIndex? {α : Type} (p : α → Bool) : List α → Option Nat
  | [] => none
  | a :: rest =>
    match lastIndex? p rest with
    | some i => some (i + 1)
    | none => if p a then some 0 else none

namespace Commitment

/-- The bytes that begin a solution's push. -/
def header : Bytes := [0xec, 0xc7, 0xda, 0xa2]

/-- The bytes that begin a witness commitment: a mark as unspendable, a push of 36 bytes and the
commitment's own header. -/
def outputStart : Bytes := [0x6a, 0x24, 0xaa, 0x21, 0xa9, 0xed]

/-- Whether a script is a witness commitment. -/
def isCommitment (s : Script) : Bool := outputStart.isPrefixOf s && decide (38 ≤ s.length)

/-- The solution that an instruction pushes behind the header. -/
def solutionOf? : Instruction → Option Bytes
  | .push data =>
    if header.isPrefixOf data then
      match data.drop header.length with
      | [] => none
      | solution => some solution
    else none
  | .op _ => none

/-- Whether an instruction is something else than a solution. -/
def isPlain (i : Instruction) : Bool := (solutionOf? i).isNone

/-- The first solution among the instructions. -/
def solution? (is : List Instruction) : Option Bytes := is.findSome? solutionOf?

/-- The instructions with the first solution replaced by a push of `data`, which comes last if there
is no solution. -/
def withSection (data : Bytes) (is : List Instruction) : List Instruction :=
  is.takeWhile isPlain ++ .push data :: (is.dropWhile isPlain).tail

/-- The instructions of a commitment script. -/
def instructions (s : Script) : Except Error (List Instruction) :=
  match Script.instructions? s with
  | some is => .ok is
  | none => .error (.block .cutPush)

/-- A commitment script with its solution replaced. -/
def resealed (data : Bytes) (s : Script) : Except Error Script := do
  return Script.ofInstructions (withSection data (← instructions s))

end Commitment

namespace Transaction

/-- The place of the witness commitment among the outputs. -/
def commitmentIndex? (t : Transaction) : Option Nat :=
  lastIndex? (fun o => Commitment.isCommitment o.script) t.outputs

/-- The transaction with the script of one output replaced. -/
def withOutputScript (t : Transaction) (index : Nat) (script : Script) : Transaction :=
  { t with outputs := t.outputs.modify index fun o => { o with script } }

end Transaction

namespace Block

/-- The place of the witness commitment among the outputs of the first transaction. -/
def commitmentIndex? (b : Block) : Option Nat := b.transactions.head?.bind Transaction.commitmentIndex?

/-- The first transaction, the place of its witness commitment and the commitment's script. -/
def commitment (b : Block) : Except Error (Transaction × Nat × Script) :=
  match b.transactions with
  | [] => .error .missingCommitment
  | t :: _ =>
    match t.commitmentIndex? with
    | none => .error .missingCommitment
    | some i =>
      match t.outputs[i]? with
      | some o => .ok (t, i, o.script)
      | none => .error .missingCommitment

/-- The solution in the block, without its header. -/
def solution (b : Block) : Except Error (Option Bytes) := do
  let (_, _, script) ← b.commitment
  return Commitment.solution? (← Commitment.instructions script)

/-- The transactions with another script for the witness commitment. -/
def withCommitment (b : Block) (index : Nat) (script : Script) : List Transaction :=
  match b.transactions with
  | [] => []
  | t :: rest => t.withOutputScript index script :: rest

/-- The merkle root over some transactions. -/
def rootOf (ts : List Transaction) : Except Error Digest :=
  match Merkle.root? (ts.map Transaction.txid) with
  | some root => .ok root
  | none => .error (.block .noTransactions)

/-- The merkle root that signatures commit to: that of the block with its solution cut down to the
bare header. -/
def signetRoot (b : Block) : Except Error Digest := do
  let (_, i, script) ← b.commitment
  rootOf (b.withCommitment i (← Commitment.resealed Commitment.header script))

/-- The block with a section, a solution behind its header, pushed into the witness commitment. A
section that no push can hold is refused. -/
def embedSection (b : Block) (data : Bytes) : Except Error Block := do
  if !(Commitment.header.isPrefixOf data) || (data.drop Commitment.header.length).isEmpty then
    throw (.block .noHeader)
  let (_, i, script) ← b.commitment
  if Script.pushLimit ≤ data.length then throw (.block .longPush)
  let transactions := b.withCommitment i (← Commitment.resealed data script)
  return ⟨{ b.header with merkleRoot := ← rootOf transactions }, transactions⟩

/-- A section embedded in place: the block as it stands afterwards, and the answer. The script is
written before the merkle root is known, so a root that cannot be had leaves the script behind. -/
def embedInPlace (b : Block) (data : Bytes) : Block × Except Error Unit :=
  if !(Commitment.header.isPrefixOf data) || (data.drop Commitment.header.length).isEmpty then
    (b, .error (.block .noHeader))
  else
    match b.commitment with
    | .error why => (b, .error why)
    | .ok (_, i, script) =>
      if Script.pushLimit ≤ data.length then (b, .error (.block .longPush))
      else
        match Commitment.resealed data script with
        | .error why => (b, .error why)
        | .ok script =>
          let written := { b with transactions := b.withCommitment i script }
          match rootOf written.transactions with
          | .error why => (written, .error why)
          | .ok root =>
            ({ written with header := { written.header with merkleRoot := root } }, .ok ())

end Block

end SignetFederation
