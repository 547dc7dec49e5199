import SignetFederation.Psbt.Basic
import SignetFederation.Quorum.Basic
import SignetFederation.Taproot.Sighash

/-!
# What signers need in a PSBT

Before a PSBT is signed or merged, its only input is filled with what the quorum prescribes: the
output it spends, the internal key, the leaf with its control block and the coverage of signatures.
What is already there has to agree. The messages that signatures sign follow from the transaction
and the spent output.

`crates/quorum-core/src/sign/mod.rs`:

| here | there |
| --- | --- |
| `Psbt.onlyInput` | `spent_output` (`mod.rs:35-53`) |
| `Quorum.update` | `update_psbt` (`mod.rs:58-98`) |
| `Quorum.ownsLeaves` | the check of the leaves that are there (`mod.rs:82-88`) |
| `Quorum.fillInput` | the fields it sets (`mod.rs:78-95`) |
| `Sighashes` | `Sighashes` (`mod.rs:29-32`) |
| `Quorum.sighashes` | `sighashes` (`mod.rs:100-113`) |
-/

namespace SignetFederation

namespace Psbt

/-- What is known of the output that an input spends. -/
def Input.spent? (i : Input) (vout : UInt32) : Option TxOut :=
  match i.spentOutput with
  | some out => some out
  | none => i.previousTransaction.bind fun t => t.outputs[vout.toNat]?

/-- The only input and the output that it spends. -/
def onlyInput (p : Psbt) : Except Error (Input × TxOut) :=
  match p.unsigned.inputs, p.inputs with
  | [placed], [input] =>
    match input.spent? placed.previous.vout with
    | some out => .ok (input, out)
    | none => .error (.psbt .noSpentOutput)
  | placed, _ => .error (.psbt (.inputCount placed.length))

end Psbt

namespace Quorum

/-- Whether all leaf scripts of an input are the quorum's own. -/
def ownsLeaves (q : Quorum) (input : Psbt.Input) : Bool :=
  input.tapScripts.entries.all fun e => e.2.1 == q.script && e.1 == q.controlBlock

/-- The input with what the quorum prescribes. -/
def fillInput (q : Quorum) (input : Psbt.Input) (spent : TxOut) : Psbt.Input :=
  { input with
    spentOutput := some (input.spentOutput.getD spent)
    tapInternalKey := some q.internal
    tapMerkleRoot := some q.merkleRoot
    tapScripts := input.tapScripts.insert q.controlBlock (q.script, Taproot.scriptLeaf)
    sighashType := some (input.sighashType.getD (UInt32.ofNat SighashType.all.toByte.toNat)) }

/-- The PSBT with what the quorum prescribes. -/
def update (q : Quorum) (p : Psbt) : Except Error Psbt := do
  let (input, spent) ← p.onlyInput
  if spent.script ≠ q.challenge then throw (.scriptMismatch (.spentScript spent.script q.challenge))
  match input.tapInternalKey with
  | some key => if key ≠ q.internal then throw (.scriptMismatch (.internalKey key))
  | none => pure ()
  if !q.ownsLeaves input then throw (.scriptMismatch .leafScript)
  return { p with inputs := [q.fillInput input spent] }

end Quorum

/-- The messages that signatures for the key path and for the leaf sign. -/
structure Sighashes where
  keyPath : Digest
  script : Digest
  deriving DecidableEq

namespace Sighashes

/-- The message for a slot. -/
def forSlot (h : Sighashes) : Slot → Digest
  | .keyPath => h.keyPath
  | .script _ => h.script

end Sighashes

/-- The messages of a PSBT for a quorum. -/
def Quorum.sighashes (q : Quorum) (p : Psbt) : Except Error Sighashes := do
  let (_, spent) ← p.onlyInput
  return ⟨Taproot.sighash p.unsigned [spent] 0 none,
    Taproot.sighash p.unsigned [spent] 0 (some q.leafHash)⟩

end SignetFederation
