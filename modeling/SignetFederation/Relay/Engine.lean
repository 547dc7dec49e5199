import SignetFederation.Digest.Blake3
import SignetFederation.Quorum.Basic
import SignetFederation.Relay.Frame
import SignetFederation.Relay.Window

/-!
# Relay decisions

An engine decides for each message whether it is processed, to whom it is forwarded and whether the
local signer should sign it. A message that was seen before is dropped, as is one that names a
signer who is not in the quorum; the latter leaves no trace in the window.

`crates/psbt-relay/src/engine.rs`:

| here | there |
| --- | --- |
| `DedupKey` | `DedupKey` (`engine.rs:20-26`) |
| `DedupKey.ofText?` | its `FromStr` (`engine.rs:28-38`) |
| `DedupKey.text` | its `Display` (`engine.rs:40-47`) |
| `RelayPolicy` | `RelayPolicy` (`engine.rs:51-59`) |
| `RelayPolicy.default` | its `Default` (`engine.rs:61-70`) |
| `DropReason` | `DropReason` (`engine.rs:74-81`) |
| `Decision` | `RelayDecision` (`engine.rs:85-93`) |
| `RelayEngine` | `RelayEngine` (`engine.rs:102-108`) |
| `RelayEngine.make` | `RelayEngine::new`, `with_quorum`, `with_local_signer` (`engine.rs:112-133`) |
| `RelayEngine.dedupKey` | `RelayEngine::dedup_key` (`engine.rs:143-155`) |
| `DedupKey.keyOf`, `MessageKey.bytes` | the bytes that it hashes (`engine.rs:144-154`) |
| `RelayEngine.record` | `RelayEngine::record` (`engine.rs:158-163`) |
| `RelayEngine.handle` | `RelayEngine::handle` (`engine.rs:167-203`) |
| `RelayEngine.handleFrame` | `RelayEngine::handle_frame` (`engine.rs:206-219`) |
| `RelayEngine.originate` | `RelayEngine::originate` (`engine.rs:222-225`) |
| `RelayEngine.encodeFrame` | `RelayEngine::encode_frame` (`engine.rs:227-229`) |
| `RelayEngine.cleanup` | `RelayEngine::cleanup` (`engine.rs:232-237`) |
-/

namespace SignetFederation

/-- What makes two messages the same. -/
inductive DedupKey where
  | nonce
  | nonceAndSigners
  deriving DecidableEq

namespace DedupKey

/-- The name of a rule. -/
def text : DedupKey → String
  | nonce => "nonce"
  | nonceAndSigners => "nonce-and-signers"

/-- The rule of a name. -/
def ofText? (s : String) : Option DedupKey := [nonce, nonceAndSigners].find? fun d => d.text = s

/-- The wording of a name that no rule has. -/
def unknown (s : String) : String := "unknown dedup key '" ++ s ++ "'"

end DedupKey

/-- How an engine relays. -/
structure RelayPolicy where
  capacity : Nat
  ttl : Option Timespan
  dedup : DedupKey
  flood : Bool
  deriving DecidableEq

namespace RelayPolicy

/-- Room for 1024 messages, an hour each, told apart by their nonces and flooded. -/
def default : RelayPolicy := ⟨1024, some (.ofSeconds 3600), .nonce, true⟩

/-- The longest time to live, in nanoseconds; longer ones do not end. -/
def ttlLimit : Nat := 9223372036854775807000000

/-- The time to live in nanoseconds. -/
def ttlNanos (p : RelayPolicy) : Option Int :=
  p.ttl.bind fun t => if t.toNanos ≤ ttlLimit then some (Int.ofNat t.toNanos) else none

end RelayPolicy

/-- Why a message is dropped. -/
inductive DropReason where
  | duplicate
  | malformed
  | unknownSigner
  deriving DecidableEq

/-- The number of a connection. -/
abbrev PeerId := Nat

/-- What becomes of a message. -/
inductive Decision where
  | drop (why : DropReason)
  | accept (forwardTo : List PeerId) (sign : Bool)
  deriving DecidableEq

/-- Whether a message is processed. -/
def Decision.isAccepted : Decision → Bool
  | accept _ _ => true
  | drop _ => false

/-- What tells messages apart: the nonce, and the short ids in ascending order where they count. -/
structure MessageKey where
  nonce : UInt64
  signers : List UInt64
  deriving DecidableEq, Hashable

/-- Numbers in ascending order, each once. -/
def distinctIds (ids : List UInt64) : List UInt64 := (ids.mergeSort fun a b => a ≤ b).eraseReps

/-- What tells messages apart under a rule. -/
def DedupKey.keyOf (d : DedupKey) (m : SignetPsbtMessage) : MessageKey :=
  match d with
  | .nonce => ⟨m.nonce, []⟩
  | .nonceAndSigners => ⟨m.nonce, distinctIds m.signers⟩

/-- The bytes of a key, as they are hashed: eight for each number, without a count. -/
def MessageKey.bytes (k : MessageKey) : Bytes :=
  Bytes.le 8 k.nonce.toNat ++ k.signers.flatMap fun id => Bytes.le 8 id.toNat

/-- The relay of one node. The window holds what is hashed in the place of the hashes, by which it
would decide alike (`hashes_decide_alike`). -/
structure RelayEngine where
  policy : RelayPolicy
  magic : Magic
  quorum : Option Quorum
  localKey : Option XOnlyKey
  window : SeenWindow MessageKey

namespace RelayEngine

/-- An engine that has seen nothing. -/
def make (policy : RelayPolicy) (magic : Magic) (quorum : Option Quorum)
    (localKey : Option XOnlyKey) : RelayEngine :=
  ⟨policy, magic, quorum, localKey, .empty policy.capacity policy.ttlNanos⟩

/-- The hash that stands for what tells a message apart. -/
def dedupKey (e : RelayEngine) (m : SignetPsbtMessage) : Digest :=
  blake3 (e.policy.dedup.keyOf m).bytes

/-- Whether all signers that a message names are in the quorum; without a quorum all names will
do. -/
def knowsSigners (e : RelayEngine) (m : SignetPsbtMessage) : Bool :=
  match e.quorum with
  | none => true
  | some q =>
    let known := q.shortIds m.nonce
    m.signers.all fun id => known.contains id

/-- Whether the local signer has yet to sign a message. -/
def wantsSignature (e : RelayEngine) (m : SignetPsbtMessage) : Bool :=
  match e.localKey with
  | none => false
  | some key => !m.signers.contains (shortId m.nonce key)

/-- The peers that get a message from one of them, or from this node itself. -/
def targets (e : RelayEngine) (sender : Option PeerId) (peers : List PeerId) : List PeerId :=
  if e.policy.flood then peers.filter fun p => some p ≠ sender else []

/-- Records a message, and tells whether it was new. -/
def record (e : RelayEngine) (m : SignetPsbtMessage) (now : Instant) :
    Except ClockOverflow (RelayEngine × Bool) := do
  let (window, fresh) ← e.window.insertAt (e.policy.dedup.keyOf m) now
  return ({ e with window }, fresh)

/-- Decides about a message from a peer, or from this node itself, while some peers are
connected. -/
def handle (e : RelayEngine) (sender : Option PeerId) (peers : List PeerId)
    (m : SignetPsbtMessage) (now : Instant) : Except ClockOverflow (RelayEngine × Decision) := do
  if !e.knowsSigners m then return (e, .drop .unknownSigner)
  let (e, fresh) ← e.record m now
  if !fresh then return (e, .drop .duplicate)
  return (e, .accept (e.targets sender peers) (e.wantsSignature m))

/-- Decides about a frame, and gives the message in it. -/
def handleFrame (e : RelayEngine) (sender : Option PeerId) (peers : List PeerId) (frame : Bytes)
    (now : Instant) : Except ClockOverflow (RelayEngine × Decision × Option SignetPsbtMessage) :=
  match SignetPsbtMessage.ofFrame frame e.magic with
  | .error _ => .ok (e, .drop .malformed, none)
  | .ok m => do
    let (e, decision) ← e.handle sender peers m now
    return (e, decision, some m)

/-- The frame of a message. -/
def encodeFrame (e : RelayEngine) (m : SignetPsbtMessage) : Bytes := m.toFrame e.magic

/-- Records a message of this node, so that its echo is dropped, and gives its frame. -/
def originate (e : RelayEngine) (m : SignetPsbtMessage) (now : Instant) :
    Except ClockOverflow (RelayEngine × Bytes) := do
  let (e, _) ← e.record m now
  return (e, e.encodeFrame m)

/-- Forgets the messages whose time is over. -/
def cleanup (e : RelayEngine) (now : Instant) : Except ClockOverflow RelayEngine := do
  return { e with window := ← e.window.expire now }

end RelayEngine

end SignetFederation
