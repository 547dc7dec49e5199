import SignetFederation.Proofs.Outcome
import SignetFederation.Relay.Node
import Std.Data.HashSet.Lemmas

/-!
# Nodes that forget nothing

What a node does with a message as long as its window has room and no time is over: it takes what it
has not seen, notes it, and drops what it has. `Retains` is the condition on one step. Under it the
engine never fails, a message is seen from the moment it is noted, and nothing else becomes seen but
what has the same key.

Main statements: `receive_of_new`, `receive_of_sees` and `broadcast_of_retains`.
-/

namespace SignetFederation

/-! ## Windows -/

namespace SeenWindow

variable {κ : Type} [BEq κ] [Hashable κ] {w : SeenWindow κ} {k : κ} {now : Instant}

/-- Taking a key at a moment makes the window forget nothing: no key's time is over, and unless the
key is there already there is room for it. -/
def Retains (w : SeenWindow κ) (k : κ) (now : Instant) : Prop :=
  w.expire now = .ok w ∧ (w.contains k = true ∨ w.order.length < w.capacity)

theorem retains_of_empty (capacity : Nat) (ttl : Option Int) (k : κ) (now : Instant) :
    (empty capacity ttl).Retains k now := by
  refine ⟨?_, .inr ?_⟩
  · cases ttl <;> rfl
  · change 0 < max capacity 1
    omega

/-- The window with a key, if it is not there already. -/
def remember (w : SeenWindow κ) (k : κ) (now : Instant) : SeenWindow κ :=
  if w.contains k then w
  else { w with order := w.order ++ [(k, now)], seen := w.seen.insert k }

theorem insertAt_of_retains (h : w.Retains k now) :
    w.insertAt k now = .ok (w.remember k now, !w.contains k) := by
  obtain ⟨hexpire, hroom⟩ := h
  unfold insertAt remember
  rw [hexpire]
  change (if w.contains k then Except.ok (w, false) else _) = _
  by_cases hk : w.contains k = true
  · rw [if_pos hk, if_pos hk, hk]
    rfl
  · have hlt := hroom.resolve_left hk
    have hzero : w.order.length + 1 - w.capacity = 0 := by omega
    have hevict : evict (w.order.length + 1 - w.capacity) w.order w.seen = (w.order, w.seen) := by
      rw [hzero]
      unfold evict
      rfl
    rw [if_neg hk, if_neg hk, Bool.eq_false_iff.2 hk, hevict]
    rfl

/-- A remembered key is in the window, and the other keys are as before. -/
theorem contains_remember [LawfulBEq κ] (k' : κ) :
    (w.remember k now).contains k' = (k == k' || w.contains k') := by
  unfold remember
  by_cases hk : w.contains k = true
  · rw [if_pos hk]
    by_cases heq : (k == k') = true
    · rw [← eq_of_beq heq, hk, Bool.or_true]
    · rw [Bool.eq_false_iff.2 heq, Bool.false_or]
  · rw [if_neg hk]
    exact Std.HashSet.contains_insert

end SeenWindow

/-! ## Engines -/

namespace RelayEngine

variable {e : RelayEngine} {m : SignetPsbtMessage} {now : Instant}

/-- Whether the engine has seen a message with the same key. -/
def sees (e : RelayEngine) (m : SignetPsbtMessage) : Bool :=
  e.window.contains (e.policy.dedup.keyOf m)

/-- Recording a message at a moment makes the engine forget nothing. -/
def Retains (e : RelayEngine) (m : SignetPsbtMessage) (now : Instant) : Prop :=
  e.window.Retains (e.policy.dedup.keyOf m) now

/-- The engine that has seen a message. -/
def note (e : RelayEngine) (m : SignetPsbtMessage) (now : Instant) : RelayEngine :=
  { e with window := e.window.remember (e.policy.dedup.keyOf m) now }

theorem sees_note (m' : SignetPsbtMessage) : (e.note m now).sees m' =
    (e.policy.dedup.keyOf m == e.policy.dedup.keyOf m' || e.sees m') :=
  SeenWindow.contains_remember _

theorem sees_note_self : (e.note m now).sees m = true := by
  rw [sees_note, beq_self_eq_true, Bool.true_or]

theorem note_of_sees (h : e.sees m = true) : e.note m now = e := by
  have hw : e.window.remember (e.policy.dedup.keyOf m) now = e.window := if_pos h
  unfold note
  rw [hw]

theorem record_of_retains (h : e.Retains m now) :
    e.record m now = .ok (e.note m now, !e.sees m) := by
  unfold record
  rw [SeenWindow.insertAt_of_retains h]
  rfl

/-- A message of this node is noted, new or not. -/
theorem originate_of_retains (h : e.Retains m now) :
    e.originate m now = .ok (e.note m now, m.toFrame e.magic) := by
  unfold originate
  rw [record_of_retains h]
  rfl

section Handle

variable {sender : Option PeerId} {peers : List PeerId} {frame : Bytes}

theorem handle_of_sees (hknown : e.knowsSigners m = true) (h : e.Retains m now)
    (hsees : e.sees m = true) :
    e.handle sender peers m now = .ok (e, .drop .duplicate) := by
  unfold handle
  rw [hknown, record_of_retains h, hsees, note_of_sees hsees]
  rfl

theorem handle_of_new (hknown : e.knowsSigners m = true) (h : e.Retains m now)
    (hsees : e.sees m = false) :
    e.handle sender peers m now =
      .ok (e.note m now, .accept (e.targets sender peers) (e.wantsSignature m)) := by
  unfold handle
  rw [hknown, record_of_retains h, hsees]
  rfl

theorem handleFrame_of_handle {e' : RelayEngine} {decision : Decision}
    (hframe : SignetPsbtMessage.ofFrame frame e.magic = .ok m)
    (h : e.handle sender peers m now = .ok (e', decision)) :
    e.handleFrame sender peers frame now = .ok (e', decision, some m) := by
  unfold handleFrame
  rw [hframe]
  change (e.handle sender peers m now >>= _) = _
  rw [h]
  rfl

end Handle

/-- What cannot be read leaves no trace. -/
theorem handleFrame_of_error {sender : Option PeerId} {peers : List PeerId} {frame : Bytes}
    {why : RelayFault} (hframe : SignetPsbtMessage.ofFrame frame e.magic = .error why) :
    e.handleFrame sender peers frame now = .ok (e, .drop .malformed, none) := by
  unfold handleFrame
  rw [hframe]

end RelayEngine

/-! ## Nodes -/

namespace RelayNode

variable {τ : Type} [Transport τ] {n : RelayNode τ} {m : SignetPsbtMessage} {now : Instant}
  {sender : Option PeerId} {frame : Bytes}

/-- The node after a message that it had not seen: it has noted the message, sent its frame on and
kept it for local processing. -/
def accept (n : RelayNode τ) (sender : Option PeerId) (m : SignetPsbtMessage) (frame : Bytes)
    (now : Instant) : RelayNode τ where
  engine := n.engine.note m now
  transport := (Transport.sendAll n.transport frame
    (n.engine.targets sender (Transport.peers n.transport))).1
  deliveries := n.deliveries.map fun ds => ds ++ [⟨m, n.engine.wantsSignature m⟩]

section

variable (hframe : SignetPsbtMessage.ofFrame frame n.engine.magic = .ok m)
  (hknown : n.engine.knowsSigners m = true) (h : n.engine.Retains m now)

include hframe hknown h

theorem receive_of_sees (hsees : n.engine.sees m = true) :
    n.receive sender frame now = .ok (n, .drop .duplicate) := by
  unfold receive
  rw [RelayEngine.handleFrame_of_handle hframe (RelayEngine.handle_of_sees hknown h hsees)]
  rfl

theorem receive_of_new (hsees : n.engine.sees m = false) :
    n.receive sender frame now = .ok (n.accept sender m frame now,
      .accept (n.engine.targets sender (Transport.peers n.transport))
        (n.engine.wantsSignature m)) := by
  unfold receive
  rw [RelayEngine.handleFrame_of_handle hframe (RelayEngine.handle_of_new hknown h hsees)]
  rfl

end

theorem receive_of_error {why : RelayFault}
    (hframe : SignetPsbtMessage.ofFrame frame n.engine.magic = .error why) :
    n.receive sender frame now = .ok (n, .drop .malformed) := by
  unfold receive
  rw [RelayEngine.handleFrame_of_error hframe]
  rfl

/-- A message of this node is noted and sent to every peer. -/
theorem broadcast_of_retains (h : n.engine.Retains m now) :
    n.broadcast m now = .ok ({ n with
      engine := n.engine.note m now
      transport := (Transport.sendAll n.transport (m.toFrame n.engine.magic)
        (Transport.peers n.transport)).1 },
      (Transport.sendAll n.transport (m.toFrame n.engine.magic)
        (Transport.peers n.transport)).2) := by
  unfold broadcast
  rw [RelayEngine.originate_of_retains h]
  rfl

end RelayNode

end SignetFederation
