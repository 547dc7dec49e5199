import SignetFederation.Relay.Node
import SignetFederation.Service.Settings
import SignetFederation.Signing.Session

/-!
# The node of a relay service

A service relays between the peers that are connected to it and keeps a signing session for each
nonce. A message that it accepts is merged into its session, provided that its PSBT signs the block
that it carries; a service that is a signer then adds its own signature and broadcasts the result.

`crates/psbt-relay-svc/src`:

| here | there |
| --- | --- |
| `PeerQueues` | `WsTransport` (`ws.rs:17-19`) |
| `PeerQueues.connect` | `WsTransport::register` (`ws.rs:23-28`) |
| `PeerQueues.disconnect` | `WsTransport::remove` (`ws.rs:30-32`) |
| `PeerQueues.push` | `WsTransport::send` (`ws.rs:37-42`) |
| `PeerQueues.registered` | `WsTransport::peers` (`ws.rs:44-46`) |
| `Service` | `AppState` (`main.rs:74-78`) |
| `Service.make` | `build_state` (`main.rs:142-170`) |
| `Service.drain` | `process_deliveries` (`main.rs:239-256`) |
| `Service.handle`, `process` | `process` (`main.rs:259-295`) |
| `Service.committedPsbt` | its check of the PSBT against the block (`main.rs:268-276`) |
| `Service.signRound` | its step of the local signer (`main.rs:284-291`) |
| `Service.surrender` | `surrender` (`main.rs:384-389`) |
-/

namespace SignetFederation

/-- The frames for one peer. The peer may have gone without the service having noticed, and it stays
in the list once it is removed. -/
structure PeerQueue where
  frames : List Bytes
  isOpen : Bool
  isRegistered : Bool
  deriving DecidableEq

/-- The queues of all peers that ever connected, by their numbers. -/
structure PeerQueues where
  queues : List PeerQueue
  deriving DecidableEq

namespace PeerQueues

/-- No peers. -/
def empty : PeerQueues := ⟨[]⟩

/-- The numbers of the registered ones in a row of queues that begins at `index`. -/
def registeredFrom (index : Nat) : List PeerQueue → List PeerId
  | [] => []
  | q :: rest =>
    if q.isRegistered then index :: registeredFrom (index + 1) rest
    else registeredFrom (index + 1) rest

/-- The registered peers in ascending order. -/
def registered (p : PeerQueues) : List PeerId := registeredFrom 0 p.queues

/-- The queues with a new peer, and its number. -/
def connect (p : PeerQueues) : PeerQueues × PeerId :=
  (⟨p.queues ++ [⟨[], true, true⟩]⟩, p.queues.length)

/-- The queues without a peer. -/
def disconnect (p : PeerQueues) (peer : PeerId) : PeerQueues :=
  ⟨p.queues.modify peer fun q => { q with isRegistered := false }⟩

/-- The queues with a peer that nobody serves any more. -/
def hangUp (p : PeerQueues) (peer : PeerId) : PeerQueues :=
  ⟨p.queues.modify peer fun q => { q with isOpen := false }⟩

/-- Takes all frames for a peer. -/
def take (p : PeerQueues) (peer : PeerId) : PeerQueues × List Bytes :=
  (⟨p.queues.modify peer fun q => { q with frames := [] }⟩,
    (p.queues[peer]?.map PeerQueue.frames).getD [])

/-- The queues with a frame at the end of a peer's. -/
def push (p : PeerQueues) (peer : PeerId) (frame : Bytes) : Except RelayFault PeerQueues :=
  match p.queues[peer]? with
  | some q =>
    if !q.isRegistered then .error (.unknownPeer peer)
    else if !q.isOpen then .error .inboxClosed
    else .ok ⟨p.queues.set peer { q with frames := q.frames ++ [frame] }⟩
  | none => .error (.unknownPeer peer)

instance : Transport PeerQueues where
  peers := registered
  send := push

end PeerQueues

/-- A service at work. -/
structure Service where
  node : RelayNode PeerQueues
  sessions : Option Sessions
  signer : Option LocalSigner

/-- What became of a delivery: the message that was signed and broadcast with the number of peers
that it reached, nothing, or an error. -/
structure Processed where
  delivery : Delivery
  result : Except Error (Option SignetPsbtMessage)
  sent : Option Nat

namespace Service

/-- A service that has seen nothing. -/
def make (settings : ServiceSettings) (setup : ServiceSetup) : Except SetupFault Service := do
  let signer ← setup.signer
  let engine := RelayEngine.make settings.policy (signetMagic setup.challenge) setup.quorum
    (signer.map LocalSigner.publicKey)
  return ⟨⟨engine, .empty, some []⟩, setup.quorum.map Sessions.empty, signer⟩

/-- Handles a frame from a peer, or from this node itself. -/
def receive (s : Service) (sender : Option PeerId) (frame : Bytes) (now : Instant) :
    Except ClockOverflow (Service × Decision) := do
  let (node, decision) ← s.node.receive sender frame now
  return ({ s with node }, decision)

/-- The PSBT that a message carries, if it signs the block that the message carries. -/
def committedPsbt (q : Quorum) (m : SignetPsbtMessage) : Except Error Psbt := do
  let p ← m.readPsbt.mapError .relay
  let b ← m.readBlock.mapError .relay
  let expected ← b.signetPsbt q.challenge
  if p.unsigned ≠ expected.unsigned then throw (.block (.foreignPsbt m.nonce))
  return p

/-- Lets a signer sign in a round; the answer is the PSBT and the short ids of all who signed. -/
def signRound (q : Quorum) (signer : LocalSigner) (nonce : UInt64) (r : Round) :
    Round × Except Error (Psbt × List UInt64) :=
  match r.apply signer.toPsbtSigner with
  | (r, .error why) => (r, .error why)
  | (r, .ok _) => (r, .ok (r.psbt, r.signedSlots.filterMap (q.shortIdOf nonce)))

/-- Merges a message into its session, and signs it if that is asked for. -/
def process (sessions : Sessions) (signer : Option LocalSigner) (d : Delivery) :
    Sessions × Except Error (Option SignetPsbtMessage) :=
  let m := d.message
  match committedPsbt sessions.quorum m with
  | .error why => (sessions, .error why)
  | .ok p =>
    match sessions.start m.nonce p with
    | (sessions, .error why) => (sessions, .error why)
    | (sessions, .ok _) =>
      match signer, d.sign with
      | some signer, true =>
        match sessions.withRound m.nonce (signRound sessions.quorum signer m.nonce) with
        | (sessions, .ok (.ok (p, ids))) => (sessions, .ok (some (m.resigned p ids)))
        | (sessions, .ok (.error why)) => (sessions, .error why)
        | (sessions, .error why) => (sessions, .error why)
      | _, _ => (sessions, .ok none)

/-- Handles a delivery: without a quorum nothing happens. -/
def handle (s : Service) (d : Delivery) : Service × Except Error (Option SignetPsbtMessage) :=
  match s.sessions with
  | none => (s, .ok none)
  | some sessions =>
    let (sessions, result) := process sessions s.signer d
    ({ s with sessions := some sessions }, result)

/-- Handles a delivery and broadcasts the message that comes of it. -/
def settle (s : Service) (d : Delivery) (now : Instant) :
    Except ClockOverflow (Service × Processed) :=
  match s.handle d with
  | (s, .ok (some m)) => do
    let (node, sent) ← s.node.broadcast m now
    return ({ s with node }, ⟨d, .ok (some m), some sent⟩)
  | (s, result) => .ok (s, ⟨d, result, none⟩)

/-- Handles some deliveries one after another. -/
def settleAll (now : Instant) : List Delivery → Service → Except ClockOverflow (Service × List Processed)
  | [], s => .ok (s, [])
  | d :: rest, s => do
    let (s, first) ← s.settle d now
    let (s, others) ← settleAll now rest s
    return (s, first :: others)

/-- Handles all deliveries that wait. -/
def drain (s : Service) (now : Instant) : Except ClockOverflow (Service × List Processed) :=
  settleAll now (s.node.deliveries.getD [])
    { s with node := { s.node with deliveries := s.node.deliveries.map fun _ => [] } }

/-- Changes the queues of peers. -/
def withPeers (s : Service) (step : PeerQueues → PeerQueues) : Service :=
  { s with node := { s.node with transport := step s.node.transport } }

/-- Ends all sessions, once a block was found. -/
def surrender (s : Service) : Service := { s with sessions := s.sessions.map Sessions.finishAll }

end Service

end SignetFederation
