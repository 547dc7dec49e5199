import SignetFederation.Relay.Engine

/-!
# Nodes

A node is an engine among peers. What it receives and accepts it forwards, as the frame it got, and
keeps for local processing. A way of sending tells for each peer what becomes of a frame.

`crates/psbt-relay/src/transport.rs`:

| here | there |
| --- | --- |
| `Transport` | `PeerTransport` (`transport.rs:16-22`) |
| `Transport.sendAll` | `RelayNode::forward` (`transport.rs:137-146`) |
| `Delivery` | `Delivery` (`transport.rs:81-85`) |
| `RelayNode` | `RelayNode` (`transport.rs:88-92`) |
| `RelayNode.receive` | `RelayNode::receive` (`transport.rs:117-128`) |
| `RelayNode.broadcast` | `RelayNode::broadcast` (`transport.rs:131-135`) |
-/

namespace SignetFederation

/-- A message that was accepted for local processing. -/
structure Delivery where
  message : SignetPsbtMessage
  sign : Bool
  deriving DecidableEq

/-- A way to reach peers: who is connected, and what sending a frame to a peer leads to. -/
class Transport (τ : Type) where
  peers : τ → List PeerId
  send : τ → PeerId → Bytes → Except RelayFault τ

namespace Transport

variable {τ : Type} [Transport τ]

/-- Sends a frame to some peers one after another, and counts those that it reached. -/
def sendAll (t : τ) (frame : Bytes) : List PeerId → τ × Nat
  | [] => (t, 0)
  | p :: rest =>
    match send t p frame with
    | .ok t =>
      let (t, n) := sendAll t frame rest
      (t, n + 1)
    | .error _ => sendAll t frame rest

end Transport

/-- An engine with a transport and the messages that wait for local processing, which are not kept
once nobody takes them. -/
structure RelayNode (τ : Type) where
  engine : RelayEngine
  transport : τ
  deliveries : Option (List Delivery)

namespace RelayNode

variable {τ : Type} [Transport τ]

/-- Handles a frame from a peer, or from this node itself. -/
def receive (n : RelayNode τ) (sender : Option PeerId) (frame : Bytes) (now : Instant) :
    Except ClockOverflow (RelayNode τ × Decision) := do
  let (engine, decision, message) ←
    n.engine.handleFrame sender (Transport.peers n.transport) frame now
  match decision, message with
  | .accept targets sign, some message =>
    let (transport, _) := Transport.sendAll n.transport frame targets
    let deliveries := n.deliveries.map fun ds => ds ++ [⟨message, sign⟩]
    return (⟨engine, transport, deliveries⟩, decision)
  | _, _ => return ({ n with engine }, decision)

/-- Sends a message of this node to every peer, and counts those that it reached. -/
def broadcast (n : RelayNode τ) (m : SignetPsbtMessage) (now : Instant) :
    Except ClockOverflow (RelayNode τ × Nat) := do
  let (engine, frame) ← n.engine.originate m now
  let (transport, sent) := Transport.sendAll n.transport frame (Transport.peers n.transport)
  return ({ n with engine, transport }, sent)

end RelayNode

end SignetFederation
