import SignetFederation.Quorum.Descriptor
import SignetFederation.Secp256k1.Schnorr
import SignetFederation.Signing.Update

/-!
# Signers

A signer fills one slot: given a PSBT it answers with a copy that carries its signature. A local
signer does so with a secret key, which is the one whose public key the quorum has in that slot.

`crates/quorum-core/src/sign/signer.rs`:

| here | there |
| --- | --- |
| `PsbtSigner` | `PsbtSigner` (`signer.rs:19-25`) |
| `LocalSigner` | `LocalSigner` (`signer.rs:28-33`) |
| `LocalSigner.make` | `LocalSigner::new` (`signer.rs:37-55`) |
| `LocalSigner.ofDescriptor` | `LocalSigner::from_descriptor` (`signer.rs:58-63`) |
| `LocalSigner.publicKey` | `LocalSigner::public_key` (`signer.rs:66-68`) |
| `LocalSigner.shortId` | `LocalSigner::short_id` (`signer.rs:71-73`) |
| `LocalSigner.sign` | `LocalSigner::sign_psbt` (`signer.rs:87-119`) |
-/

namespace SignetFederation

/-- Whoever can fill a slot. -/
structure PsbtSigner where
  slot : Slot
  sign : Psbt → Except Error Psbt

/-- A signer with a secret key of its own. -/
structure LocalSigner where
  quorum : Quorum
  slot : Slot
  secret : SecretKey
  occupies : quorum.keyFor slot = some secret.xOnly

namespace LocalSigner

/-- The signer of a slot, if its key is the one that the quorum has there. -/
def make (q : Quorum) (slot : Slot) (secret : SecretKey) : Except Error LocalSigner :=
  if h : q.keyFor slot = some secret.xOnly then .ok ⟨q, slot, secret, h⟩
  else
    .error (.invalidKey secret.xOnly.text false
      (if (q.keyFor slot).isSome then .notInSlot slot else .noSlot slot))

/-- The signer whose secret key a descriptor holds. -/
def ofDescriptor (d : QuorumDescriptor) : Except Error LocalSigner :=
  match d.localKey with
  | some (slot, secret) => make d.quorum slot secret
  | none => .error (.invalidDescriptor .noPrivateKey)

/-- The public key. -/
def publicKey (s : LocalSigner) : XOnlyKey := s.secret.xOnly

/-- The number that names the signer within a session. -/
def shortId (s : LocalSigner) (nonce : UInt64) : UInt64 := SignetFederation.shortId nonce s.publicKey

/-- The secret key that signs: for the key path, that of the output key. -/
def signingKey (s : LocalSigner) : Except Error SecretKey :=
  match s.slot with
  | .script _ => .ok s.secret
  | .keyPath =>
    match Taproot.outputSecret? s.secret s.quorum.merkleRoot with
    | some secret => .ok secret
    | none => .error .untweakable

end LocalSigner

/-- An input with a signature in a slot of the quorum. -/
def Psbt.Input.withSignature (i : Psbt.Input) (q : Quorum) (slot : Slot) (key : XOnlyKey)
    (s : TapSignature) : Psbt.Input :=
  match slot with
  | .keyPath => { i with tapKeySignature := some s }
  | .script _ =>
    { i with tapScriptSignatures := i.tapScriptSignatures.insert ⟨key, q.leafHash⟩ s }

namespace LocalSigner

/-- The PSBT with what the quorum prescribes and the signer's signature. -/
def sign (s : LocalSigner) (p : Psbt) : Except Error Psbt := do
  let p ← s.quorum.update p
  let hashes ← s.quorum.sighashes p
  let signature := Schnorr.sign (← s.signingKey) (hashes.forSlot s.slot)
  return { p with
    inputs := p.inputs.modifyHead fun i =>
      i.withSignature s.quorum s.slot s.publicKey ⟨signature, .all⟩ }

/-- The signer as one that fills its slot. -/
def toPsbtSigner (s : LocalSigner) : PsbtSigner := ⟨s.slot, s.sign⟩

end LocalSigner

end SignetFederation
