import Mathlib.Data.List.Perm.Subperm
import SignetFederation.Proofs.Service.Sending
import SignetFederation.Service.Http

/-!
# What happens between a service and its peers

Peers come, are removed or stop reading, while a service takes frames from them, gets messages by
requests and broadcasts its own. An event sends on one frame or none (`relayed?`). A frame that is
sent on enters the queues of all peers that are served, but for the one that it came from, and a
broadcast answers with the number of these queues. A request that posts a message answers with the
number of registered peers instead, among which there may be some that hung up.

Main statements: `attend_spec` says all that an event does to the queues; `exists_attend`: an event
is attended to as long as everything recorded is kept within the calendar.
-/

namespace SignetFederation

/-! ## Events and answers -/

/-- What happens between a service and its peers. -/
inductive PeerEvent where
  | connect
  | disconnect (peer : PeerId)
  | hangUp (peer : PeerId)
  | receive (sender : Option PeerId) (frame : Bytes) (now : Instant)
  | post (body : Option String) (now : Instant)
  | broadcast (m : SignetPsbtMessage) (now : Instant)

/-- What an event leads to, the queues apart. -/
inductive PeerAnswer where
  | connected (peer : PeerId)
  | gone
  | decided (decision : Decision)
  | responded (r : Service.Response)
  | sent (count : Nat)

/-- What an answer to a request says under a name. -/
def Service.Response.member? (r : Response) (name : String) : Option Json.Value :=
  match r.body with
  | some (.value (.obj members)) => members.lookup name
  | _ => none

namespace PeerEvent

/-- The clock's reading at an event. -/
def now? : PeerEvent → Option Instant
  | receive _ _ now => some now
  | post _ now => some now
  | broadcast _ now => some now
  | _ => none

/-- Whether an event ends the service of a peer. -/
def Ends (peer : PeerId) : PeerEvent → Prop
  | disconnect other => peer = other
  | hangUp other => peer = other
  | _ => False

end PeerEvent

namespace PeerAnswer

/-- Whether a message was accepted. -/
def accepts : PeerAnswer → Bool
  | decided decision => decision.isAccepted
  | responded r =>
    match r.member? "accepted" with
    | some (.bool accepted) => accepted
    | _ => false
  | _ => false

/-- The number of queues that an answer tells. -/
def count? : PeerAnswer → Option Nat
  | sent count => some count
  | responded r =>
    match r.member? "forwarded" with
    | some (.nat count) => some count
    | _ => none
  | _ => none

end PeerAnswer

namespace RelayEngine

/-- The frame that an event has sent on, and the peer that it came from: that of a broadcast, and if
messages are flooded, that of each accepted message. -/
def relayed? (e : RelayEngine) : PeerEvent → PeerAnswer → Option (Bytes × Option PeerId)
  | .broadcast m _, _ => some (e.encodeFrame m, none)
  | .receive sender frame _, answer =>
    if e.policy.flood && answer.accepts then some (frame, sender) else none
  | .post body _, answer =>
    match Service.readMessage body with
    | .ok m => if e.policy.flood && answer.accepts then some (e.encodeFrame m, none) else none
    | .error _ => none
  | _, _ => none

theorem relayed?_of_ends (e : RelayEngine) {event : PeerEvent} {peer : PeerId}
    (h : event.Ends peer) (answer : PeerAnswer) : e.relayed? event answer = none := by
  cases event with
  | disconnect => rfl
  | hangUp => rfl
  | connect => exact h.elim
  | receive => exact h.elim
  | post => exact h.elim
  | broadcast => exact h.elim

/-- The frames that an event gives to a peer. -/
def share (e : RelayEngine) (peer : PeerId) (event : PeerEvent) (answer : PeerAnswer) : List Bytes :=
  match e.relayed? event answer with
  | some (frame, sender) => if sender = some peer then [] else [frame]
  | none => []

end RelayEngine

namespace Service

/-- The queues of a service's peers. -/
def peers (s : Service) : PeerQueues := s.node.transport

/-- Attends to an event. -/
def attend (s : Service) : PeerEvent → Except ClockOverflow (Service × PeerAnswer)
  | .connect => .ok (s.withPeers fun p => p.connect.1, .connected s.peers.connect.2)
  | .disconnect peer => .ok (s.withPeers fun p => p.disconnect peer, .gone)
  | .hangUp peer => .ok (s.withPeers fun p => p.hangUp peer, .gone)
  | .receive sender frame now => do
    let (s, decision) ← s.receive sender frame now
    return (s, .decided decision)
  | .post body now => do
    let (s, response) ← s.respond ⟨"POST", "/v1/psbt", body⟩ now
    return (s, .responded response)
  | .broadcast m now => do
    let (node, sent) ← s.node.broadcast m now
    return ({ s with node }, .sent sent)

/-! ## One event -/

variable {s s' : Service} {event : PeerEvent} {answer : PeerAnswer} {frame : Bytes}
  {sender : Option PeerId} {reached : List PeerId} {now : Instant}

/-- Of an engine, an event changes only the window. -/
def SameEngine (s s' : Service) : Prop := ∃ w, s'.node.engine = { s.node.engine with window := w }

theorem SameEngine.share (h : SameEngine s s') (peer : PeerId) :
    s'.node.engine.share peer = s.node.engine.share peer := by
  obtain ⟨w, h⟩ := h
  rw [h]
  rfl

theorem SameEngine.relayed? (h : SameEngine s s') :
    s'.node.engine.relayed? = s.node.engine.relayed? := by
  obtain ⟨w, h⟩ := h
  rw [h]
  rfl

/-- A frame that came from some peer, or from this node, enters the queues of all peers that are
served, except that one's. -/
structure Relays (s s' : Service) (frame : Bytes) (sender : Option PeerId)
    (reached : List PeerId) : Prop where
  nodup : reached.Nodup
  mem_iff : ∀ peer, peer ∈ reached ↔ s.peers.Serves peer ∧ sender ≠ some peer
  enters : s.peers.Enters frame reached s'.peers

/-- The frame enters as many queues as there are registered peers exactly if none of them hung up. -/
theorem Relays.length_eq_iff (h : Relays s s' frame none reached) :
    s.peers.registered.length = reached.length ↔
      ∀ peer ∈ s.peers.registered, s.peers.Serves peer := by
  have hmem : ∀ peer, peer ∈ reached ↔ s.peers.Serves peer := fun peer => by simp [h.mem_iff]
  have hsub : reached.Subperm s.peers.registered :=
    List.subperm_of_subset h.nodup fun peer hpeer => ((hmem peer).1 hpeer).mem_registered
  constructor
  · intro hlen peer hpeer
    exact (hmem peer).1 ((hsub.perm_of_length_le (Nat.le_of_eq hlen)).mem_iff.2 hpeer)
  · intro hall
    have hsub' : s.peers.registered.Subperm reached :=
      List.subperm_of_subset s.peers.nodup_registered fun peer hpeer =>
        (hmem peer).2 (hall peer hpeer)
    exact Nat.le_antisymm hsub'.length_le hsub.length_le

/-- What is sent to all registered peers but one. -/
theorem exists_relays {targets : List PeerId} (h : targets.Nodup)
    (htargets : ∀ peer, peer ∈ targets ↔ peer ∈ s.peers.registered ∧ sender ≠ some peer)
    (hsent : s'.peers = (Transport.sendAll s.peers frame targets).1) :
    ∃ reached, Relays s s' frame sender reached ∧
      (Transport.sendAll s.peers frame targets).2 = reached.length := by
  obtain ⟨reached, hnodup, hreached, henters, hcount⟩ := PeerQueues.exists_enters s.peers frame h
  refine ⟨reached, ⟨hnodup, fun peer => ?_, hsent ▸ henters⟩, hcount⟩
  rw [hreached, htargets]
  constructor
  · exact fun ⟨⟨_, hother⟩, hserves⟩ => ⟨hserves, hother⟩
  · exact fun ⟨hserves, hother⟩ => ⟨⟨hserves.mem_registered, hother⟩, hserves⟩

/-- A frame is sent on if it is accepted and messages are flooded. -/
theorem receive_spec {decision : Decision} (h : s.receive sender frame now = .ok (s', decision)) :
    SameEngine s s' ∧
      (((s.node.engine.policy.flood && decision.isAccepted) = true ∧
          (∃ reached, Relays s s' frame sender reached) ∧
          (sender = none → forwarded decision = s.peers.registered.length)) ∨
        ((s.node.engine.policy.flood && decision.isAccepted) = false ∧ s'.peers = s.peers ∧
          forwarded decision = 0)) := by
  obtain ⟨⟨node, d⟩, hnode, h⟩ := bind_eq_ok_iff.1 h
  cases h
  obtain ⟨hwindow, ⟨hdropped, hsame⟩ | ⟨⟨sign, rfl⟩, hsent⟩⟩ := RelayNode.receive_cases hnode
  · refine ⟨hwindow, .inr ⟨by rw [hdropped, Bool.and_false], hsame, ?_⟩⟩
    cases decision with
    | drop => rfl
    | accept => cases hdropped
  · refine ⟨hwindow, ?_⟩
    rw [Decision.isAccepted, Bool.and_true]
    have hnode : ({ s with node } : Service).peers = (Transport.sendAll s.peers frame
      (s.node.engine.targets sender s.peers.registered)).1 := hsent
    change (_ ∧ _ ∧ (_ → (s.node.engine.targets sender s.peers.registered).length = _)) ∨
      _ ∧ _ ∧ (s.node.engine.targets sender s.peers.registered).length = 0
    cases hflood : s.node.engine.policy.flood with
    | true =>
      have htargets : ∀ peer, peer ∈ s.node.engine.targets sender s.peers.registered ↔
          peer ∈ s.peers.registered ∧ sender ≠ some peer := by
        simp [RelayEngine.mem_targets_iff, hflood, eq_comm]
      obtain ⟨reached, hrelays, _⟩ := exists_relays
        (s.node.engine.nodup_targets sender s.peers.nodup_registered) htargets hnode
      refine .inl ⟨rfl, ⟨reached, hrelays⟩, ?_⟩
      rintro rfl
      simp [RelayEngine.targets, hflood]
    | false =>
      have hnone : s.node.engine.targets sender s.peers.registered = [] := by
        simp [RelayEngine.targets, hflood]
      rw [hnone] at hnode ⊢
      exact .inr ⟨rfl, hnode, rfl⟩

/-- A broadcast is sent to all registered peers and counts those that it reached. -/
theorem broadcast_spec {m : SignetPsbtMessage} {node : RelayNode PeerQueues} {sent : Nat}
    (h : s.node.broadcast m now = .ok (node, sent)) :
    SameEngine s { s with node } ∧
      ∃ reached, Relays s { s with node } (s.node.engine.encodeFrame m) none reached ∧
        sent = reached.length := by
  obtain ⟨hwindow, hsent⟩ := RelayNode.broadcast_cases h
  obtain ⟨hpeers, hcount⟩ := Prod.mk.inj hsent
  have hnode : ({ s with node } : Service).peers = (Transport.sendAll s.peers
    (s.node.engine.encodeFrame m) s.peers.registered).1 := hpeers
  have hall : ∀ peer, peer ∈ s.peers.registered ↔
      peer ∈ s.peers.registered ∧ (none : Option PeerId) ≠ some peer := by simp
  obtain ⟨reached, hrelays, hreached⟩ := exists_relays s.peers.nodup_registered hall hnode
  exact ⟨hwindow, reached, hrelays, hcount.trans hreached⟩

theorem respond_post (s : Service) (body : Option String) (now : Instant) :
    s.respond ⟨"POST", "/v1/psbt", body⟩ now = s.postMessage body now := by
  have hroute : Route.ofPath? (Route.path "/v1/psbt") = some .message := by decide +kernel
  have hmethod : ¬ "POST" = "OPTIONS" := by decide
  unfold respond
  simp only [hroute, if_neg hmethod]
  rfl

/-- An answer to a request without a message says nothing of one. -/
theorem member?_of_readMessage_error {body : Option String} {r : Response}
    (h : readMessage body = .error r) (name : String) : r.member? name = none := by
  unfold readMessage at h
  cases body with
  | none =>
    cases h
    rfl
  | some text =>
    simp only at h
    split at h
    · cases h
      rfl
    · split at h
      · cases h
        rfl
      · cases h
        rfl
      · split at h
        · split at h
          · cases h
          · cases h
            rfl
        · cases h
          rfl

/-- The answer to a posted message tells whether it was accepted, and for how many peers. -/
theorem post_cases {body : Option String} {r : Response}
    (h : s.respond ⟨"POST", "/v1/psbt", body⟩ now = .ok (s', r)) :
    (∃ m decision, readMessage body = .ok m ∧
        s.receive none (s.node.engine.encodeFrame m) now = .ok (s', decision) ∧
        (PeerAnswer.responded r).accepts = decision.isAccepted ∧
        (PeerAnswer.responded r).count? = some (forwarded decision)) ∨
      (∃ why, readMessage body = .error why) ∧ (PeerAnswer.responded r).count? = none ∧ s' = s := by
  rw [respond_post, postMessage] at h
  cases hread : readMessage body with
  | error r' =>
    rw [hread] at h
    cases h
    refine .inr ⟨⟨r, rfl⟩, ?_, rfl⟩
    rw [PeerAnswer.count?, member?_of_readMessage_error hread]
  | ok m =>
    rw [hread] at h
    obtain ⟨⟨_, decision⟩, hreceive, h⟩ := bind_eq_ok_iff.1 h
    cases h
    exact .inl ⟨m, decision, rfl, hreceive, rfl, rfl⟩

/-- What an event does: a frame that is sent on enters the queues of those who get it, and the answer
to a broadcast counts them, but that to a posted message counts all registered peers. Otherwise no
queue changes and none is counted. A peer is served from when it comes until it goes. -/
structure Attended (s : Service) (event : PeerEvent) (answer : PeerAnswer) (s' : Service) : Prop where
  engine : SameEngine s s'
  relays : ∀ frame sender, s.node.engine.relayed? event answer = some (frame, sender) →
    ∃ reached, Relays s s' frame sender reached ∧
      (∀ m now, event = .broadcast m now → answer.count? = some reached.length) ∧
      ∀ body now, event = .post body now →
        answer.count? = some s.peers.registered.length ∧ sender = none
  keeps : s.node.engine.relayed? event answer = none →
    (∀ peer, s'.peers.framesFor peer = s.peers.framesFor peer) ∧
      ∀ count, answer.count? = some count → count = 0
  serves : ∀ peer, s'.peers.Serves peer ↔
    (s.peers.Serves peer ∧ ¬ event.Ends peer) ∨ answer = .connected peer
  size : s.peers.queues.length ≤ s'.peers.queues.length
  fresh : ∀ peer, answer = .connected peer → peer = s.peers.queues.length

/-- The number of a new peer is that of the queues before it, so no older peer has it. -/
theorem attended_connect (s : Service) :
    Attended s .connect (.connected s.peers.connect.2) (s.withPeers fun p => p.connect.1) where
  engine := ⟨_, rfl⟩
  relays _ _ h := by cases h
  keeps _ := ⟨s.peers.framesFor_connect, fun _ h => by cases h⟩
  serves peer := by
    change s.peers.connect.1.Serves peer ↔ _
    rw [s.peers.serves_connect]
    simp [PeerEvent.Ends, PeerQueues.connect, eq_comm]
  size := by
    change s.peers.queues.length ≤ s.peers.connect.1.queues.length
    simp [PeerQueues.connect]
  fresh peer h := (PeerAnswer.connected.inj h).symm

/-- An event that ends the service of a peer. -/
theorem attended_leaves {step : PeerQueues → PeerQueues} {peer : PeerId}
    (hevent : ∀ other, event.Ends other ↔ other = peer)
    (hrelayed : s.node.engine.relayed? event .gone = none)
    (h : PeerQueues.Leaves peer s.peers (step s.peers)) :
    Attended s event .gone (s.withPeers step) where
  engine := ⟨_, rfl⟩
  relays _ _ h := by
    rw [hrelayed] at h
    cases h
  keeps _ := ⟨h.frames, fun _ h => by cases h⟩
  serves other := by
    change (step s.peers).Serves other ↔ _
    rw [h.serves, hevent]
    simp
  size := Nat.le_of_eq h.size.symm
  fresh _ h := by cases h

/-- An event that sends on a frame, and with which no peer comes or goes. -/
theorem attended_of_relays (hengine : SameEngine s s')
    (hrelayed : s.node.engine.relayed? event answer = some (frame, sender))
    (hrelays : Relays s s' frame sender reached) (hstays : ∀ peer, ¬ event.Ends peer)
    (hknown : ∀ peer, answer ≠ .connected peer)
    (hbroadcast : ∀ m now, event = .broadcast m now → answer.count? = some reached.length)
    (hpost : ∀ body now, event = .post body now →
      answer.count? = some s.peers.registered.length ∧ sender = none) :
    Attended s event answer s' where
  engine := hengine
  relays frame' sender' h := by
    cases hrelayed.symm.trans h
    exact ⟨reached, hrelays, hbroadcast, hpost⟩
  keeps h := by cases hrelayed.symm.trans h
  serves peer := by simp [hrelays.enters.serves, hstays, hknown]
  size := Nat.le_of_eq hrelays.enters.size.symm
  fresh peer h := absurd h (hknown peer)

/-- An event that leaves the queues as they are. -/
theorem attended_of_same (hengine : SameEngine s s')
    (hrelayed : s.node.engine.relayed? event answer = none) (hpeers : s'.peers = s.peers)
    (hstays : ∀ peer, ¬ event.Ends peer) (hknown : ∀ peer, answer ≠ .connected peer)
    (hcount : ∀ count, answer.count? = some count → count = 0) : Attended s event answer s' where
  engine := hengine
  relays _ _ h := by cases hrelayed.symm.trans h
  keeps _ := ⟨fun peer => by rw [hpeers], hcount⟩
  serves peer := by simp [hpeers, hstays, hknown]
  size := by rw [hpeers]
  fresh peer h := absurd h (hknown peer)

theorem attend_spec (h : s.attend event = .ok (s', answer)) : Attended s event answer s' := by
  cases event with
  | connect =>
    cases h
    exact attended_connect s
  | disconnect peer =>
    cases h
    exact attended_leaves (fun _ => Iff.rfl) rfl (s.peers.leaves_disconnect peer)
  | hangUp peer =>
    cases h
    exact attended_leaves (fun _ => Iff.rfl) rfl (s.peers.leaves_hangUp peer)
  | receive sender frame now =>
    obtain ⟨⟨_, decision⟩, hreceive, heq⟩ := bind_eq_ok_iff.1 h
    cases heq
    obtain ⟨hengine, ⟨hsends, ⟨reached, hrelays⟩, _⟩ | ⟨hsends, hpeers, _⟩⟩ := receive_spec hreceive
    · exact attended_of_relays hengine (if_pos hsends) hrelays (fun _ => id) nofun nofun nofun
    · exact attended_of_same hengine (if_neg (Bool.eq_false_iff.1 hsends)) hpeers (fun _ => id)
        nofun nofun
  | post body now =>
    obtain ⟨⟨_, r⟩, hpost, heq⟩ := bind_eq_ok_iff.1 h
    cases heq
    obtain ⟨m, decision, hread, hreceive, haccepts, hcount⟩ | ⟨⟨why, hread⟩, hcount, rfl⟩ :=
      post_cases hpost
    · have hrelayed : s.node.engine.relayed? (.post body now) (.responded r) =
          if s.node.engine.policy.flood && decision.isAccepted then
            some (s.node.engine.encodeFrame m, none) else none := by
        rw [RelayEngine.relayed?, hread, ← haccepts]
      obtain ⟨hengine, ⟨hsends, ⟨reached, hrelays⟩, hall⟩ | ⟨hsends, hpeers, hnone⟩⟩ :=
        receive_spec hreceive
      · refine attended_of_relays hengine (hrelayed.trans (if_pos hsends)) hrelays (fun _ => id)
          nofun nofun fun _ _ _ => ⟨?_, rfl⟩
        rw [hcount, hall rfl]
      · refine attended_of_same hengine (hrelayed.trans (if_neg (Bool.eq_false_iff.1 hsends))) hpeers
          (fun _ => id) nofun fun count h => ?_
        rw [hcount, hnone] at h
        exact (Option.some.inj h).symm
    · refine attended_of_same ⟨_, rfl⟩ (by rw [RelayEngine.relayed?, hread]) rfl (fun _ => id) nofun
        fun count h => ?_
      rw [hcount] at h
      cases h
  | broadcast m now =>
    obtain ⟨⟨node, sent⟩, hbroadcast, heq⟩ := bind_eq_ok_iff.1 h
    cases heq
    obtain ⟨hengine, reached, hrelays, rfl⟩ := broadcast_spec hbroadcast
    exact attended_of_relays hengine rfl hrelays (fun _ => id) nofun (fun _ _ _ => rfl) nofun

namespace Attended

variable {peer : PeerId} (h : Attended s event answer s')

include h

/-- A peer that is served gets its share. -/
theorem framesFor_of_serves (hpeer : s.peers.Serves peer) : s'.peers.framesFor peer =
    s.peers.framesFor peer ++ s.node.engine.share peer event answer := by
  unfold RelayEngine.share
  cases hrelayed : s.node.engine.relayed? event answer with
  | none =>
    rw [(h.keeps hrelayed).1]
    exact (List.append_nil _).symm
  | some relayed =>
    obtain ⟨frame, sender⟩ := relayed
    obtain ⟨reached, hrelays, _⟩ := h.relays frame sender hrelayed
    rw [hrelays.enters.frames]
    by_cases hsender : sender = some peer
    · rw [if_neg fun hmem => ((hrelays.mem_iff peer).1 hmem).2 hsender]
      exact congrArg _ (if_pos hsender).symm
    · rw [if_pos ((hrelays.mem_iff peer).2 ⟨hpeer, hsender⟩)]
      exact congrArg _ (if_neg hsender).symm

/-- No other queue changes. -/
theorem framesFor_of_not_serves (hpeer : ¬ s.peers.Serves peer) :
    s'.peers.framesFor peer = s.peers.framesFor peer := by
  cases hrelayed : s.node.engine.relayed? event answer with
  | none => exact (h.keeps hrelayed).1 peer
  | some relayed =>
    obtain ⟨reached, hrelays, _⟩ := h.relays relayed.1 relayed.2 hrelayed
    rw [hrelays.enters.frames, if_neg fun hmem => hpeer ((hrelays.mem_iff peer).1 hmem).1,
      List.append_nil]

/-- A peer that comes has an empty queue. -/
theorem framesFor_of_connected (hanswer : answer = .connected peer) :
    s'.peers.framesFor peer = [] := by
  have hpast : s.peers.queues.length ≤ peer := Nat.le_of_eq (h.fresh peer hanswer).symm
  rw [h.framesFor_of_not_serves fun hpeer => Nat.not_lt.2 hpast hpeer.lt_length,
    PeerQueues.framesFor, List.getElem?_eq_none hpast]
  rfl

/-- A peer that is gone does not come back. -/
theorem not_serves (hknown : peer < s.peers.queues.length)
    (hgone : s.peers.Serves peer → event.Ends peer) : ¬ s'.peers.Serves peer := by
  rw [h.serves]
  rintro (⟨hpeer, hstays⟩ | hanswer)
  · exact hstays (hgone hpeer)
  · exact Nat.ne_of_lt hknown (h.fresh peer hanswer)

end Attended

/-- An event is attended to if all that is recorded, and what it records, is kept within the
calendar, and then that is so again. -/
theorem exists_attend (h : s.node.engine.Timely)
    (hnow : ∀ now ∈ event.now?, now.Reaches s.node.engine.window.ttl) :
    ∃ s' answer, s.attend event = .ok (s', answer) ∧ s'.node.engine.Timely ∧
      s'.node.engine.window.ttl = s.node.engine.window.ttl := by
  have hreceive : ∀ sender frame now, now.Reaches s.node.engine.window.ttl →
      ∃ s' decision, s.receive sender frame now = .ok (s', decision) ∧ s'.node.engine.Timely ∧
        s'.node.engine.window.ttl = s.node.engine.window.ttl := by
    intro sender frame now hnow
    obtain ⟨node, decision, hnode, hrest⟩ := s.node.exists_receive sender frame h hnow
    exact ⟨{ s with node }, decision, bind_eq_ok_iff.2 ⟨_, hnode, rfl⟩, hrest⟩
  cases event with
  | connect => exact ⟨_, _, rfl, h, rfl⟩
  | disconnect peer => exact ⟨_, _, rfl, h, rfl⟩
  | hangUp peer => exact ⟨_, _, rfl, h, rfl⟩
  | receive sender frame now =>
    obtain ⟨s', decision, hs', hrest⟩ := hreceive sender frame now (hnow now rfl)
    exact ⟨s', _, bind_eq_ok_iff.2 ⟨_, hs', rfl⟩, hrest⟩
  | post body now =>
    cases hread : readMessage body with
    | error r =>
      have hpost : s.postMessage body now = .ok (s, r) := by rw [postMessage, hread]
      rw [← respond_post] at hpost
      exact ⟨s, _, bind_eq_ok_iff.2 ⟨_, hpost, rfl⟩, h, rfl⟩
    | ok m =>
      obtain ⟨s', decision, hs', hrest⟩ :=
        hreceive none (s.node.engine.encodeFrame m) now (hnow now rfl)
      obtain ⟨r, hpost⟩ : ∃ r, s.postMessage body now = .ok (s', r) := by
        rw [postMessage, hread]
        exact ⟨_, bind_eq_ok_iff.2 ⟨_, hs', rfl⟩⟩
      rw [← respond_post] at hpost
      exact ⟨s', _, bind_eq_ok_iff.2 ⟨_, hpost, rfl⟩, hrest⟩
  | broadcast m now =>
    obtain ⟨node, sent, hnode, hrest⟩ := s.node.exists_broadcast m h (hnow now rfl)
    exact ⟨{ s with node }, _, bind_eq_ok_iff.2 ⟨_, hnode, rfl⟩, hrest⟩

end Service

end SignetFederation
