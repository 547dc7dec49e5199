import SignetFederation.Quorum.Descriptor

/-!
# Setting up a quorum

A quorum is set up from an ordered list of members, the internal key first. The public descriptor
names everybody's public key; the view of a member with a secret key has that key in its place.
Before the quorum is handed out every view is read back and has to give the same challenge.

`crates/quorum-core/src`:

| here | there |
| --- | --- |
| `SignerKeyPair` | `SignerKeyPair` (`types.rs:17-24`) |
| `SignerView` | `SignerView` (`quorum/builder.rs:122-125`) |
| `SignerView.summary` | its `Debug` (`quorum/builder.rs:127-131`) |
| `Setup.build` | `QuorumBuilder::build` (`quorum/builder.rs:142-185`) |
| `Setup.checkViews` | its check of the views (`quorum/builder.rs:161-172`) |
| `Setup.views` | `QuorumBuilder::signer_views` (`quorum/builder.rs:188-205`) |
| `Setup.viewsFrom` | its loop over the members (`quorum/builder.rs:188-205`) |
-/

namespace SignetFederation

/-- The key expressions of one member. -/
structure SignerKeyPair where
  secret : Option String
  publicKey : String
  deriving DecidableEq

/-- A member's own descriptor. -/
structure SignerView where
  slot : Slot
  descriptor : String
  deriving DecidableEq

/-- A view in one line for logs; it does not show the descriptor. -/
def SignerView.summary (v : SignerView) : String :=
  "SignerView \x7b slot: " ++ v.slot.name ++ " \x7d"

namespace Setup

/-- The body of a descriptor with the given key expressions, the internal one first. -/
def body (keys : List String) (threshold : Nat) : String :=
  match keys with
  | [] => ""
  | internal :: rest => Descriptor.Parts.render ⟨internal, threshold, rest⟩

/-- The views of the members from `index` on. -/
def viewsFrom (keys : List String) (threshold : Nat) :
    (index : Nat) → List SignerKeyPair → Except Error (List SignerView)
  | _, [] => .ok []
  | index, k :: rest =>
    match k.secret with
    | none => viewsFrom keys threshold (index + 1) rest
    | some secret => do
      let text ← QuorumDescriptor.lift
        (Descriptor.withChecksum (body (keys.set index secret) threshold))
      return ⟨Slot.ofKeyIndex index, text⟩ :: (← viewsFrom keys threshold (index + 1) rest)

/-- The views of the members who have secret keys. -/
def views (members : List SignerKeyPair) (threshold : Nat) : Except Error (List SignerView) :=
  viewsFrom (members.map SignerKeyPair.publicKey) threshold 0 members

/-- Checks that views give the challenge of a descriptor. -/
def checkViews (d : QuorumDescriptor) : List SignerView → Except Error Unit
  | [] => .ok ()
  | v :: rest => do
    let own ← QuorumDescriptor.parse v.descriptor
    if own.challenge ≠ d.challenge then
      throw (.addressMismatch v.slot.keyIndex (d.quorum.address .signet) (own.quorum.address .signet))
    checkViews d rest

/-- The public descriptor of the members' quorum. -/
def build (members : List SignerKeyPair) (threshold : Nat) : Except Error QuorumDescriptor := do
  if members.length < 2 then throw (.invalidThreshold threshold (members.length - 1))
  let d ← QuorumDescriptor.parse (body (members.map SignerKeyPair.publicKey) threshold)
  if d.localKey.isSome then
    throw (.invalidKey "extended_public_key" false .privateInPublicList)
  checkViews d (← views members threshold)
  return d

end Setup

end SignetFederation
