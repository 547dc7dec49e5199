import SignetFederation.Relay.Node

/-!
# Networks of nodes

A network has a number of nodes. A node is linked to some others and has an inbox of frames with
their senders; a link and an inbox can go away at any time. A node takes the first frame of its
inbox and receives it; a frame that it forwards ends up at the end of other inboxes.

`crates/psbt-relay/src/transport.rs`:

| here | there |
| --- | --- |
| `Inbound` | `Inbound` (`transport.rs:25`) |
| `Wires` | `MemoryTransport` (`transport.rs:28-32`) |
| `RelayNetwork.link` | `MemoryTransport::link` (`transport.rs:53-56`) |
| `RelayNetwork.unlink` | `MemoryTransport::unlink` (`transport.rs:59-61`) |
| `Wires.post` | `MemoryTransport::send` (`transport.rs:66-70`) |
-/

namespace SignetFederation

/-- A frame in an inbox, behind the node that sent it. -/
abbrev Inbound := PeerId × Bytes

/-- The links of a node in ascending order, and the inboxes of all nodes, as far as they are
open. -/
structure Wires where
  self : PeerId
  links : List PeerId
  inboxes : List (Option (List Inbound))
  deriving DecidableEq

namespace Wires

/-- The wires with a frame of this node at the end of an inbox. -/
def post (w : Wires) (peer : PeerId) (frame : Bytes) : Except RelayFault Wires :=
  match w.inboxes[peer]? with
  | some (some inbox) =>
    .ok { w with inboxes := w.inboxes.set peer (some (inbox ++ [(w.self, frame)])) }
  | _ => .error .inboxClosed

instance : Transport Wires where
  peers w := w.links
  send w peer frame := if peer ∈ w.links then w.post peer frame else .error (.unknownPeer peer)

end Wires

/-- A node of a network without its inbox. -/
structure NetworkNode where
  engine : RelayEngine
  links : List PeerId
  deliveries : Option (List Delivery)

/-- Nodes and their inboxes. -/
structure RelayNetwork where
  nodes : List NetworkNode
  inboxes : List (Option (List Inbound))

/-- That a node received a frame, and what it decided. -/
structure Reception where
  node : PeerId
  sender : PeerId
  decision : Decision
  deriving DecidableEq

namespace RelayNetwork

/-- Unlinked nodes with empty inboxes. -/
def ofEngines (engines : List RelayEngine) : RelayNetwork :=
  ⟨engines.map fun e => ⟨e, [], some []⟩, engines.map fun _ => some []⟩

/-- The number of nodes. -/
def size (n : RelayNetwork) : Nat := n.nodes.length

/-- A node on its wires. -/
def node? (n : RelayNetwork) (i : PeerId) : Option (RelayNode Wires) :=
  n.nodes[i]?.map fun m => ⟨m.engine, ⟨i, m.links, n.inboxes⟩, m.deliveries⟩

/-- The network after a step of a node. -/
def put (n : RelayNetwork) (i : PeerId) (node : RelayNode Wires) : RelayNetwork :=
  ⟨n.nodes.set i ⟨node.engine, node.transport.links, node.deliveries⟩, node.transport.inboxes⟩

/-- A node number among others in ascending order, each once. -/
def insertLink (peer : PeerId) : List PeerId → List PeerId
  | [] => [peer]
  | p :: rest =>
    if peer < p then peer :: p :: rest else if peer = p then p :: rest else p :: insertLink peer rest

/-- The network with another node among a node's links. -/
def addLink (n : RelayNetwork) (i peer : PeerId) : RelayNetwork :=
  { n with nodes := n.nodes.modify i fun m => { m with links := insertLink peer m.links } }

/-- The network with a link between two nodes. -/
def link (n : RelayNetwork) (a b : PeerId) : RelayNetwork := (n.addLink a b).addLink b a

/-- The network in which a node has forgotten another one; the other one has not. -/
def unlink (n : RelayNetwork) (i peer : PeerId) : RelayNetwork :=
  { n with nodes := n.nodes.modify i fun m => { m with links := m.links.filter (· ≠ peer) } }

/-- The network without a node's inbox. -/
def closeInbox (n : RelayNetwork) (i : PeerId) : RelayNetwork := { n with inboxes := n.inboxes.set i none }

/-- The network in which nobody takes a node's deliveries any more. -/
def closeDeliveries (n : RelayNetwork) (i : PeerId) : RelayNetwork :=
  { n with nodes := n.nodes.modify i fun m => { m with deliveries := none } }

/-- Takes all messages that wait at a node for local processing. -/
def takeDeliveries (n : RelayNetwork) (i : PeerId) : RelayNetwork × List Delivery :=
  ({ n with nodes := n.nodes.modify i fun m => { m with deliveries := m.deliveries.map fun _ => [] } },
    (n.nodes[i]?.bind NetworkNode.deliveries).getD [])

/-- Takes the first frame out of an inbox. -/
def takeFrame (n : RelayNetwork) (i : PeerId) : Option (RelayNetwork × Inbound) :=
  match n.inboxes[i]? with
  | some (some (first :: rest)) => some ({ n with inboxes := n.inboxes.set i (some rest) }, first)
  | _ => none

/-- Lets a node receive a frame. -/
def receive (n : RelayNetwork) (i : PeerId) (sender : Option PeerId) (frame : Bytes) (now : Instant) :
    Except ClockOverflow (RelayNetwork × Option Decision) :=
  match n.node? i with
  | none => .ok (n, none)
  | some node => do
    let (node, decision) ← node.receive sender frame now
    return (n.put i node, some decision)

/-- Lets a node broadcast a message; the answer is the number of nodes that it was sent to. -/
def broadcast (n : RelayNetwork) (i : PeerId) (m : SignetPsbtMessage) (now : Instant) :
    Except ClockOverflow (RelayNetwork × Option Nat) :=
  match n.node? i with
  | none => .ok (n, none)
  | some node => do
    let (node, sent) ← node.broadcast m now
    return (n.put i node, some sent)

/-- Lets a node receive the first frame of its inbox. -/
def deliver (n : RelayNetwork) (i : PeerId) (now : Instant) :
    Except ClockOverflow (RelayNetwork × Option Reception) :=
  match n.takeFrame i with
  | none => .ok (n, none)
  | some (n, sender, frame) => do
    let (n, decision) ← n.receive i (some sender) frame now
    return (n, decision.map fun d => ⟨i, sender, d⟩)

/-- Lets a node send a frame to another one. -/
def send (n : RelayNetwork) (i peer : PeerId) (frame : Bytes) : RelayNetwork × Except RelayFault Unit :=
  match n.node? i with
  | none => (n, .error (.unknownPeer i))
  | some node =>
    match Transport.send node.transport peer frame with
    | .ok transport => (n.put i { node with transport }, .ok ())
    | .error why => (n, .error why)

/-- Lets a node forget the messages whose time is over. -/
def cleanup (n : RelayNetwork) (i : PeerId) (now : Instant) : Except ClockOverflow RelayNetwork :=
  match n.node? i with
  | none => .ok n
  | some node => do
    let engine ← node.engine.cleanup now
    return n.put i { node with engine }

/-- Lets the nodes take turns, from node `i` on, at emptying their inboxes, until a whole turn finds
nothing; the receptions are those of `done` in reverse and then those that follow. A network whose
windows forget may go on for ever, which the fuel cuts short. -/
def pumpFrom (now : Instant) :
    (fuel : Nat) → (i : PeerId) → (idle : Bool) → (done : List Reception) → RelayNetwork →
      Except ClockOverflow (RelayNetwork × List Reception)
  | 0, _, _, done, n => .ok (n, done.reverse)
  | fuel + 1, i, idle, done, n =>
    if i < n.size then do
      match ← n.deliver i now with
      | (n, some r) => pumpFrom now fuel i false (r :: done) n
      | (n, none) => pumpFrom now fuel (i + 1) idle done n
    else if idle then .ok (n, done.reverse)
    else pumpFrom now fuel 0 true done n

/-- Lets the nodes take turns at emptying their inboxes until nothing is left. -/
def pump (fuel : Nat) (now : Instant) (n : RelayNetwork) :
    Except ClockOverflow (RelayNetwork × List Reception) :=
  pumpFrom now fuel 0 true [] n

end RelayNetwork

end SignetFederation
