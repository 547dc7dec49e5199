import SignetFederation.Descriptor.Checksum
import SignetFederation.Keys.Expression
import SignetFederation.Relay.Fault
import SignetFederation.Taproot.Signature
import SignetFederation.Timespan

/-!
# What goes wrong in a federation

The causes of failure in setting up a quorum, in a signing round and in reading or writing a block's
solution, each with its wording.

`crates/quorum-core/src`:

| here | there |
| --- | --- |
| `Error` | `Error` (`error.rs:11-79`) |
| `SignatureFault` | the texts of `SigningRound::verify` (`sign/round.rs:252-263`) |
| `MismatchFault` | those of `update_psbt`, `SigningRound::merge` and `build_witness` (`sign/mod.rs:61-87`, `sign/round.rs:150-164`, `solution.rs:94-178`) |
| `PsbtFault` | those of `spent_output` and `SigningRound::merge` (`sign/mod.rs:37-52`, `sign/round.rs:142-145`) |
| `BlockFault` | those of `signet_merkle_root` and `SignetSolution::from_bytes` (`signet.rs:41-89`, `solution.rs:41-60`) |
-/

namespace SignetFederation

/-- Why a signature is not accepted for its slot. -/
inductive SignatureFault where
  | coverage (found : SighashType)
  | unverified
  deriving DecidableEq

/-- The wording of a signature fault. -/
def SignatureFault.message : SignatureFault → String
  | coverage found => "unexpected sighash type " ++ found.text
  | unverified => "signature failed verification"

/-- How a PSBT or a witness disagrees with the quorum. -/
inductive MismatchFault where
  | spentScript (found expected : Bytes)
  | internalKey (found : XOnlyKey)
  | leafScript
  | foreignLeafScript
  | leafHash (signer : XOnlyKey) (found : Digest)
  | keyPathWitness
  | witnessCount (found expected : Nat)
  | witnessScript
  | witnessControlBlock
  | witnessSignature (bytes : Nat)
  | tooManySignatures (found required : Nat)
  deriving DecidableEq

/-- The wording of a mismatch. -/
def MismatchFault.message : MismatchFault → String
  | spentScript found expected =>
    "PSBT spends " ++ Hex.encode found ++ " instead of the quorum challenge " ++ Hex.encode expected
  | internalKey found => "PSBT internal key " ++ found.text ++ " is not the quorum internal key"
  | leafScript => "PSBT leaf script differs from the quorum script"
  | foreignLeafScript => "partial PSBT carries a foreign leaf script"
  | leafHash signer found =>
    "signature by " ++ signer.text ++ " commits to leaf " ++ Hex.encode found.toBytes
  | keyPathWitness => "key-path witness is not a schnorr signature"
  | witnessCount found expected =>
    "witness has " ++ toString found ++ " items, expected " ++ toString expected
  | witnessScript => "witness script differs from the quorum script"
  | witnessControlBlock => "witness control block differs from the quorum control block"
  | witnessSignature n => "witness signature has " ++ toString n ++ " bytes"
  | tooManySignatures found required =>
    "witness has " ++ toString found ++ " signatures, the leaf requires exactly " ++
      toString required

/-- Why a PSBT cannot be used. -/
inductive PsbtFault where
  | noInputs
  | inputCount (found : Nat)
  | noSpentOutput
  | otherTransaction
  | partialWithoutInputs
  | unreadable
  deriving DecidableEq

/-- The wording of a PSBT fault. -/
def PsbtFault.message : PsbtFault → String
  | noInputs => "PSBT has no inputs"
  | inputCount n => "expected exactly one input, got " ++ toString n
  | noSpentOutput => "input is missing its spent output"
  | otherTransaction => "partial PSBT signs a different transaction"
  | partialWithoutInputs => "partial PSBT has no inputs"
  | unreadable => "PSBT does not decode"

/-- Why a block or a solution cannot be used. -/
inductive BlockFault where
  | noHeader
  | noTransactions
  | foreignPsbt (nonce : UInt64)
  | trailing (bytes : Nat)
  | cutPush
  | longPush
  | unreadable (why : DecodeFault)
  deriving DecidableEq

/-- The wording of a block fault. -/
def BlockFault.message : BlockFault → String
  | noHeader => "commitment section lacks the signet header"
  | noTransactions => "block has no transactions"
  | foreignPsbt nonce =>
    "PSBT for nonce " ++ toString nonce ++ " does not commit to its block template"
  | trailing n => toString n ++ " trailing bytes after signet solution"
  | cutPush => "unexpected end of script"
  | longPush => "push is too long"
  | unreadable why => why.message

/-- Why an operation of the federation failed. -/
inductive Error where
  | invalidKey (key : String) (inDescriptor : Bool) (why : KeyFault)
  | invalidDescriptor (why : Descriptor.Fault)
  | invalidThreshold (threshold signers : Nat)
  | addressMismatch (signer : Nat) (expected actual : String)
  | conflictingSignature (slot : Slot)
  | invalidSignature (slot : Slot) (why : SignatureFault)
  | foreignSigner (key : XOnlyKey)
  | incompleteSignatures (required actual : Nat)
  | scriptMismatch (why : MismatchFault)
  | collectionTimeout (after : Timespan)
  | roundFailed (reason : String)
  | missingCommitment
  | psbt (why : PsbtFault)
  | block (why : BlockFault)
  | relay (why : RelayFault)
  | sessionNotFound (nonce : UInt64)
  | keyFile
  | untweakable
  deriving DecidableEq

/-- The wording of an error. -/
def Error.message : Error → String
  | invalidKey key inDescriptor why =>
    "key '" ++ key ++ "' is not valid: " ++ (if inDescriptor then "tr(): " else "") ++ why.message
  | invalidDescriptor why => "Invalid descriptor: " ++ why.message
  | invalidThreshold threshold signers =>
    "Invalid threshold " ++ toString threshold ++ " for " ++ toString signers ++ " signers"
  | addressMismatch signer expected actual =>
    "Address mismatch for signer " ++ toString signer ++ ": expected " ++ expected ++
      ", derived " ++ actual
  | conflictingSignature slot => "Conflicting signature for " ++ slot.text
  | invalidSignature slot why => "Invalid signature for " ++ slot.text ++ ": " ++ why.message
  | foreignSigner key =>
    "Invalid signature for " ++ key.text ++ ": key is not part of the multi_a leaf"
  | incompleteSignatures required actual =>
    "Incomplete signature set: required " ++ toString required ++ ", got " ++ toString actual
  | scriptMismatch why => "Script mismatch: " ++ why.message
  | collectionTimeout after => "Signature collection timed out after " ++ after.text
  | roundFailed reason => "Signing round failed: " ++ reason
  | missingCommitment => "Block has no witness commitment"
  | psbt why => "PSBT error: " ++ why.message
  | block why => "Block error: " ++ why.message
  | relay why => "Relay error: " ++ why.message
  | sessionNotFound nonce => "Session not found: " ++ toString nonce
  | keyFile => "Internal error: key file does not parse"
  | untweakable => "Internal error: internal key cannot be tweaked"

end SignetFederation
