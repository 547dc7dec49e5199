import SignetFederation.Descriptor.Grammar
import SignetFederation.Quorum.Basic
import SignetFederation.Text.Blank

/-!
# Descriptors of quorums

A descriptor text names a quorum by its key expressions. At most one of them holds a secret key:
then the descriptor is the view of the signer in that slot.

`crates/quorum-core/src/quorum/builder.rs`:

| here | there |
| --- | --- |
| `QuorumDescriptor` | `QuorumDescriptor` (`builder.rs:16-20`) |
| `QuorumDescriptor.parse` | `QuorumDescriptor::parse` (`builder.rs:26-68`) |
| `QuorumDescriptor.readKeys` | its loop over the key texts (`builder.rs:32-42`) |
| `QuorumDescriptor.findSecret` | its loop over the secret keys (`builder.rs:44-55`) |
| `QuorumDescriptor.challenge` | `QuorumDescriptor::challenge` (`builder.rs:81-83`) |
| `QuorumDescriptor.localSlot` | `QuorumDescriptor::local_slot` (`builder.rs:91-93`) |
| `QuorumDescriptor.shown` | its `Display` (`builder.rs:100-108`) |
| `QuorumDescriptor.summary` | its `Debug` (`builder.rs:110-118`) |
-/

namespace SignetFederation

/-- A quorum's descriptor: its text with the checksum, and the secret key of a slot if it holds
one. -/
structure QuorumDescriptor where
  text : String
  quorum : Quorum
  localKey : Option (Slot × SecretKey)
  deriving DecidableEq

namespace QuorumDescriptor

/-- The keys that expressions stand for, each with its text, after those already read in reverse. -/
def readKeys (acc : List (String × KeyExpression)) :
    List String → Except Error (List (String × KeyExpression))
  | [] => .ok acc.reverse
  | text :: rest =>
    match KeyExpression.parse text with
    | .ok key => readKeys ((text, key) :: acc) rest
    | .error why => .error (.invalidKey text true why)

/-- The secret key of a key list and its slot; a second secret key is refused. -/
def findSecret (found : Option (Slot × SecretKey)) (index : Nat) :
    List (String × KeyExpression) → Except Error (Option (Slot × SecretKey))
  | [] => .ok found
  | (text, key) :: rest =>
    match key.secret, found with
    | none, _ => findSecret found (index + 1) rest
    | some _, some _ => .error (.invalidKey text false .secondPrivate)
    | some secret, none => findSecret (some (Slot.ofKeyIndex index, secret)) (index + 1) rest

/-- The result of a reader of descriptor text. -/
def lift {α : Type} : Except Descriptor.Fault α → Except Error α
  | .ok a => .ok a
  | .error why => .error (.invalidDescriptor why)

/-- The descriptor that a text writes. -/
def parse (text : String) : Except Error QuorumDescriptor := do
  let body ← lift (Descriptor.stripChecksum (Text.trimmed text))
  let parts ← lift (Descriptor.parts body)
  let keys ← readKeys [] (parts.internal :: parts.keys)
  let localKey ← findSecret none 0 keys
  match keys.map fun k => k.2.publicKey with
  | [] => throw (.invalidThreshold parts.threshold 0)
  | internal :: signers =>
    let quorum ← Quorum.make internal signers parts.threshold
    return ⟨← lift (Descriptor.withChecksum body), quorum, localKey⟩

/-- The slot of the secret key. -/
def localSlot (d : QuorumDescriptor) : Option Slot := d.localKey.map Prod.fst

/-- The challenge of the quorum. -/
def challenge (d : QuorumDescriptor) : Script := d.quorum.challenge

/-- The text to show: a view with a secret key is not shown. -/
def shown (d : QuorumDescriptor) : String :=
  if d.localKey.isSome then "<descriptor with private key>" else d.text

/-- The descriptor in one line for logs. -/
def summary (d : QuorumDescriptor) : String :=
  "QuorumDescriptor \x7b threshold: " ++ toString d.quorum.threshold ++ ", signers: " ++
    toString d.quorum.signers.length ++ ", local_slot: " ++
    (match d.localSlot with
      | none => "None"
      | some slot => "Some(" ++ slot.name ++ ")") ++ " \x7d"

end QuorumDescriptor

end SignetFederation
