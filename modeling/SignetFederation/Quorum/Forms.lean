import SignetFederation.Error
import SignetFederation.Json.Form
import SignetFederation.Quorum.Setup
import SignetFederation.Text.Quoted

/-!
# Written forms of quorum data

The JSON forms of slots and of members' keys, the key file of a quorum, which lists the keys of all
members, and the summary that is written beside the descriptors.

`crates`:

| here | there |
| --- | --- |
| `SignerKeyPair.hasSecret` | `SignerKeyPair::has_private` (`quorum-core/src/types.rs:47-49`) |
| `SignerKeyPair.summary` | its `Debug` (`quorum-core/src/types.rs:52-62`) |
| `KeyFile.parse` | `parse_key_file` (`quorum-core/src/types.rs:65-67`) |
| `KeyFile.render` | the key file of `run_keygen` (`quorum-signer/src/main.rs:202`) |
| `QuorumInfo` | `QuorumInfo` (`quorum-signer/src/main.rs:125-131`) |
| `QuorumInfo.ofDescriptor` | what `run_descriptor` fills in (`quorum-signer/src/main.rs:215-221`) |
-/

namespace SignetFederation

instance : JsonForm Slot where
  toJson
    | .keyPath => .str "KeyPath"
    | .script i => .obj [("Script", .nat i)]
  reader := Json.choice [
    ("KeyPath", .bare .keyPath),
    ("Script", .carrying (Slot.script <$> Json.natural 18446744073709551616))]

namespace SignerKeyPair

/-- Whether the member has a secret key. -/
def hasSecret (k : SignerKeyPair) : Bool := k.secret.isSome

/-- A member in one line for logs; the secret key is not shown. -/
def summary (k : SignerKeyPair) : String :=
  "SignerKeyPair \x7b extended_private_key: " ++
    (if k.hasSecret then "Some(\"<redacted>\")" else "None") ++
    ", extended_public_key: " ++ Text.quoted k.publicKey ++ " \x7d"

/-- The fields of a member, as far as they were read. -/
structure Partial where
  secret : Option (Option String)
  publicKey : Option String

/-- The fields of a member. -/
def fields : List (Json.Field Partial) := [
  Json.field "extended_private_key" Partial.secret (fun v s => { s with secret := some v })
    (Json.optional Json.string),
  Json.member "extended_public_key" Partial.publicKey fun v s => { s with publicKey := some v }]

/-- The member whose fields were read; a secret key may be missing. -/
def Partial.finish (s : Partial) : Option SignerKeyPair :=
  s.publicKey.map fun key => ⟨s.secret.join, key⟩

instance : JsonForm SignerKeyPair where
  toJson k := .obj ((match k.secret with
    | some secret => [("extended_private_key", .str secret)]
    | none => []) ++ [("extended_public_key", .str k.publicKey)])
  reader := Json.record fields ⟨none, none⟩ Partial.finish false

end SignerKeyPair

namespace KeyFile

/-- The members that a key file lists. -/
def parse (text : String) : Except Error (List SignerKeyPair) :=
  match (JsonForm.read text : Except Json.Fault (List SignerKeyPair)) with
  | .ok members => .ok members
  | .error _ => .error .keyFile

/-- The key file of some members. -/
def render (members : List SignerKeyPair) : String := (JsonForm.toJson members).pretty

end KeyFile

/-- What is written about a quorum beside the descriptors of its members. -/
structure QuorumInfo where
  descriptor : String
  threshold : Nat
  signers : Nat
  challenge : String
  address : String
  deriving DecidableEq

namespace QuorumInfo

/-- The summary of a quorum by its descriptor. -/
def ofDescriptor (d : QuorumDescriptor) (threshold signers : Nat) : QuorumInfo :=
  ⟨d.text, threshold, signers, Hex.encode d.challenge, d.quorum.address .signet⟩

/-- The fields of a summary, as far as they were read. -/
structure Partial where
  descriptor : Option String
  threshold : Option Nat
  signers : Option Nat
  challenge : Option String
  address : Option String

/-- The fields of a summary. -/
def fields : List (Json.Field Partial) := [
  Json.member "descriptor" Partial.descriptor fun v s => { s with descriptor := some v },
  Json.count "threshold" Partial.threshold fun v s => { s with threshold := some v },
  Json.count "signers" Partial.signers fun v s => { s with signers := some v },
  Json.member "challenge" Partial.challenge fun v s => { s with challenge := some v },
  Json.member "address" Partial.address fun v s => { s with address := some v }]

/-- The summary whose fields were read. -/
def Partial.finish (s : Partial) : Option QuorumInfo := do
  return ⟨← s.descriptor, ← s.threshold, ← s.signers, ← s.challenge, ← s.address⟩

instance : JsonForm QuorumInfo where
  toJson i := .obj [("descriptor", .str i.descriptor), ("threshold", .nat i.threshold),
    ("signers", .nat i.signers), ("challenge", .str i.challenge), ("address", .str i.address)]
  reader := Json.record fields ⟨none, none, none, none, none⟩ Partial.finish false

end QuorumInfo

end SignetFederation
