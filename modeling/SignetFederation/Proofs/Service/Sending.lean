import SignetFederation.Proofs.Relay.Calendar
import SignetFederation.Proofs.Service.Queues

/-!
# Where a frame goes

A frame is sent to some peers one after another, and a peer that refuses it does not keep it from
those behind. So it stands at the end of the queues of exactly those that are served, once in each,
and they are counted (`exists_enters`). A peer that comes has an empty queue, and one that is removed
or hangs up keeps what it has (`Leaves`). A node sends on what it accepts, and nothing else
(`RelayNode.receive_cases`).
-/

namespace SignetFederation

namespace PeerQueues

variable {p p' p'' : PeerQueues} {peer : PeerId} {frame : Bytes} {peers peers' targets : List PeerId}

/-! ## Sending -/

/-- A frame is put at the end of the queues of some peers, once each; the peers are the same. -/
structure Enters (frame : Bytes) (peers : List PeerId) (p p' : PeerQueues) : Prop where
  frames : ∀ peer, p'.framesFor peer = p.framesFor peer ++ if peer ∈ peers then [frame] else []
  size : p'.queues.length = p.queues.length
  serves : ∀ peer, p'.Serves peer ↔ p.Serves peer

theorem Enters.refl (frame : Bytes) (p : PeerQueues) : Enters frame [] p p :=
  ⟨fun _ => by simp, rfl, fun _ => Iff.rfl⟩

theorem Enters.trans (h : Enters frame peers p p') (h' : Enters frame peers' p' p'')
    (hapart : ∀ peer ∈ peers, peer ∉ peers') : Enters frame (peers ++ peers') p p'' where
  frames peer := by
    rw [h'.frames, h.frames, List.append_assoc]
    congr 1
    by_cases hpeer : peer ∈ peers
    · simp [hpeer, hapart peer hpeer]
    · simp [hpeer]
  size := h'.size.trans h.size
  serves peer := (h'.serves peer).trans (h.serves peer)

theorem framesFor_of_getElem? {q : PeerQueue} (h : p.queues[peer]? = some q) :
    p.framesFor peer = q.frames := by
  rw [framesFor, h]
  rfl

/-- Sending to one peer, if it does not fail. -/
theorem enters_of_push (h : p.push peer frame = .ok p') :
    p.Serves peer ∧ Enters frame [peer] p p' := by
  unfold push at h
  split at h
  · next q hq =>
    obtain ⟨hregistered, h⟩ := ite_error_eq_ok_iff.1 h
    obtain ⟨hopen, h⟩ := ite_error_eq_ok_iff.1 h
    cases h
    refine ⟨⟨q, hq, by simpa using hregistered, by simpa using hopen⟩, fun other => ?_,
      List.length_set, serves_set hq rfl rfl⟩
    rw [framesFor_set hq]
    by_cases hother : other = peer
    · rw [if_pos hother, hother, framesFor_of_getElem? hq, if_pos (List.mem_singleton_self peer)]
    · rw [if_neg hother, if_neg (List.mem_singleton.not.2 hother), List.append_nil]
  · cases h

/-- A frame that is sent to some peers, each once, enters the queues of those that are served, and is
counted for each. -/
theorem exists_enters (p : PeerQueues) (frame : Bytes) (h : targets.Nodup) :
    ∃ peers, peers.Nodup ∧ (∀ peer, peer ∈ peers ↔ peer ∈ targets ∧ p.Serves peer) ∧
      Enters frame peers p (Transport.sendAll p frame targets).1 ∧
      (Transport.sendAll p frame targets).2 = peers.length := by
  induction targets generalizing p with
  | nil => exact ⟨[], .nil, by simp, .refl frame p, rfl⟩
  | cons first targets ih =>
    obtain ⟨hfirst, htargets⟩ := List.nodup_cons.1 h
    unfold Transport.sendAll
    split
    · next p₁ hpush =>
      obtain ⟨hserves, henters⟩ := enters_of_push hpush
      obtain ⟨peers, hnodup, hpeers, hrest, hcount⟩ := ih p₁ htargets
      have hnew : first ∉ peers := fun hmem => hfirst ((hpeers first).1 hmem).1
      refine ⟨first :: peers, List.nodup_cons.2 ⟨hnew, hnodup⟩, fun peer => ?_,
        henters.trans hrest ?_, congrArg Nat.succ hcount⟩
      · rw [List.mem_cons, List.mem_cons, hpeers, henters.serves]
        constructor
        · rintro (rfl | ⟨hmem, hpeer⟩)
          · exact ⟨.inl rfl, hserves⟩
          · exact ⟨.inr hmem, hpeer⟩
        · rintro ⟨rfl | hmem, hpeer⟩
          · exact .inl rfl
          · exact .inr ⟨hmem, hpeer⟩
      · intro peer hpeer
        rwa [List.mem_singleton.1 hpeer]
    · next why hpush =>
      obtain ⟨peers, hnodup, hpeers, hrest, hcount⟩ := ih p htargets
      refine ⟨peers, hnodup, fun peer => ?_, hrest, hcount⟩
      rw [hpeers, List.mem_cons]
      constructor
      · exact fun ⟨hmem, hpeer⟩ => ⟨.inr hmem, hpeer⟩
      · rintro ⟨rfl | hmem, hpeer⟩
        · obtain ⟨p', hp'⟩ := exists_push_of_serves frame hpeer
          cases hp'.symm.trans hpush
        · exact ⟨hmem, hpeer⟩

/-! ## Who is registered -/

theorem pairwise_registeredFrom (queues : List PeerQueue) (index : Nat) :
    (registeredFrom index queues).Pairwise (· < ·) := by
  induction queues generalizing index with
  | nil => exact .nil
  | cons first rest ih =>
    have habove : ∀ peer ∈ registeredFrom (index + 1) rest, index < peer := by
      intro peer hpeer
      obtain ⟨n, _, rfl, _⟩ := mem_registeredFrom_iff.1 hpeer
      omega
    rw [registeredFrom]
    split
    · exact List.pairwise_cons.2 ⟨habove, ih (index + 1)⟩
    · exact ih (index + 1)

theorem nodup_registered (p : PeerQueues) : p.registered.Nodup :=
  (pairwise_registeredFrom p.queues 0).imp Nat.ne_of_lt

theorem Serves.mem_registered (h : p.Serves peer) : peer ∈ p.registered := by
  obtain ⟨q, hq, hregistered, _⟩ := h
  exact mem_registered_of_queue hq hregistered

theorem Serves.lt_length (h : p.Serves peer) : peer < p.queues.length := by
  obtain ⟨q, hq, _⟩ := h
  exact (List.getElem?_eq_some_iff.1 hq).1

/-! ## Peers that come and go -/

theorem framesFor_connect (p : PeerQueues) (peer : PeerId) :
    p.connect.1.framesFor peer = p.framesFor peer := by
  unfold framesFor connect
  simp only [List.getElem?_append]
  split
  · rfl
  · next hlt =>
    rw [List.getElem?_eq_none (Nat.le_of_not_lt hlt)]
    cases peer - p.queues.length <;> rfl

theorem serves_connect (p : PeerQueues) (peer : PeerId) :
    p.connect.1.Serves peer ↔ p.Serves peer ∨ peer = p.queues.length := by
  unfold Serves connect
  by_cases hlt : peer < p.queues.length
  · simp [List.getElem?_append_left hlt, Nat.ne_of_lt hlt]
  · have hnone := List.getElem?_eq_none (Nat.le_of_not_lt hlt)
    rw [List.getElem?_append_right (Nat.le_of_not_lt hlt), hnone]
    by_cases hnew : peer = p.queues.length
    · simp [hnew]
    · have hpast : 1 ≤ peer - p.queues.length :=
        Nat.sub_pos_of_lt (Nat.lt_of_le_of_ne (Nat.le_of_not_lt hlt) (Ne.symm hnew))
      simp [hnew, List.getElem?_eq_none, hpast]

/-- A peer is served no longer. It keeps its frames, and no other peer is touched. -/
structure Leaves (peer : PeerId) (p p' : PeerQueues) : Prop where
  frames : ∀ other, p'.framesFor other = p.framesFor other
  size : p'.queues.length = p.queues.length
  serves : ∀ other, p'.Serves other ↔ p.Serves other ∧ other ≠ peer

/-- One of the two marks by which a peer is served is taken away. -/
theorem leaves_modify (p : PeerQueues) (peer : PeerId) {shut : PeerQueue → PeerQueue}
    (hframes : ∀ q, (shut q).frames = q.frames)
    (hshut : ∀ q, ¬ ((shut q).isRegistered = true ∧ (shut q).isOpen = true)) :
    Leaves peer p ⟨p.queues.modify peer shut⟩ where
  frames other := by
    unfold framesFor
    rw [List.getElem?_modify]
    cases p.queues[other]? with
    | none => rfl
    | some q => by_cases h : peer = other <;> simp [h, hframes]
  size := List.length_modify ..
  serves other := by
    unfold Serves
    rw [List.getElem?_modify]
    by_cases h : peer = other
    · simp [h, hshut]
    · simp [h, Ne.symm h]

theorem leaves_disconnect (p : PeerQueues) (peer : PeerId) : Leaves peer p (p.disconnect peer) :=
  leaves_modify p peer (fun _ => rfl) fun _ h => Bool.false_ne_true h.1

theorem leaves_hangUp (p : PeerQueues) (peer : PeerId) : Leaves peer p (p.hangUp peer) :=
  leaves_modify p peer (fun _ => rfl) fun _ h => Bool.false_ne_true h.2

end PeerQueues

/-! ## Nodes -/

namespace RelayEngine

variable {e e' : RelayEngine} {sender : Option PeerId} {peers : List PeerId} {frame : Bytes}
  {now : Instant} {decision : Decision}

theorem nodup_targets (e : RelayEngine) (sender : Option PeerId) (h : peers.Nodup) :
    (e.targets sender peers).Nodup := by
  unfold targets
  split
  · exact h.filter _
  · exact .nil

theorem mem_targets_iff {peer : PeerId} : peer ∈ e.targets sender peers ↔
    e.policy.flood = true ∧ peer ∈ peers ∧ some peer ≠ sender := by
  unfold targets
  split <;> simp [*]

/-- A frame is accepted for the peers that get it, or dropped. -/
theorem handleFrame_cases {m : Option SignetPsbtMessage}
    (h : e.handleFrame sender peers frame now = .ok (e', decision, m)) :
    (∃ w, e' = { e with window := w }) ∧
      (decision.isAccepted = false ∨
        ∃ m', m = some m' ∧ decision = .accept (e.targets sender peers) (e.wantsSignature m')) := by
  have hcall : e.call ⟨now, .handleFrame sender peers frame⟩ = .ok (e', .framed decision m) := by
    change (e.handleFrame sender peers frame now >>= _) = _
    rw [h]
    rfl
  refine ⟨?_, ?_⟩
  · obtain rfl | ⟨_, w, _, _, _, rfl⟩ := of_call_eq_ok hcall
    · exact ⟨_, rfl⟩
    · exact ⟨w, rfl⟩
  · unfold handleFrame at h
    split at h
    · cases h
      exact .inl rfl
    · next m' _ =>
      obtain ⟨⟨_, _⟩, hhandle, heq⟩ := bind_eq_ok_iff.1 h
      cases heq
      obtain ⟨_, rfl⟩ | ⟨_, rfl | rfl⟩ := handle_cases hhandle
      · exact .inl rfl
      · exact .inl rfl
      · exact .inr ⟨m', rfl, rfl⟩

theorem originate_cases {m : SignetPsbtMessage} (h : e.originate m now = .ok (e', frame)) :
    (∃ w, e' = { e with window := w }) ∧ frame = m.toFrame e.magic := by
  obtain ⟨⟨_, _⟩, hrecord, heq⟩ := bind_eq_ok_iff.1 h
  obtain ⟨⟨w, _⟩, _, hwindow⟩ := bind_eq_ok_iff.1 hrecord
  cases hwindow
  cases heq
  exact ⟨⟨w, rfl⟩, rfl⟩

/-- All that the window holds is kept to moments within the calendar. -/
structure Timely (e : RelayEngine) : Prop where
  sound : e.window.Sound e.window.capacity e.window.ttl
  reaches : ∀ x ∈ e.window.order, x.2.Reaches e.window.ttl

theorem timely_make (policy : RelayPolicy) (magic : Magic) (quorum : Option Quorum)
    (localKey : Option XOnlyKey) : (make policy magic quorum localKey).Timely :=
  ⟨SeenWindow.sound_empty policy.capacity policy.ttlNanos, List.forall_mem_nil _⟩

/-- A call returns, and what it records is kept to a moment within the calendar like the rest. -/
theorem Timely.exists_call (h : e.Timely) {c : RelayCall} (hnow : c.now.Reaches e.window.ttl) :
    ∃ e' answer, e.call c = .ok (e', answer) ∧ e'.Timely ∧ e'.window.ttl = e.window.ttl := by
  obtain ⟨⟨e', answer⟩, hcall⟩ := RelayEngine.exists_call (c := c) h.reaches
  refine ⟨e', answer, hcall, ?_⟩
  obtain rfl | ⟨u, w, accepted, hu, huse, rfl⟩ := of_call_eq_ok hcall
  · exact ⟨h, rfl⟩
  · have hsound := h.sound.use huse
    have hspan : w.ttl = e.window.ttl := hsound.span
    refine ⟨⟨?_, ?_⟩, hspan⟩
    · change w.Sound w.capacity w.ttl
      rwa [hsound.room, hspan]
    · change ∀ x ∈ w.order, x.2.Reaches w.ttl
      rw [hspan]
      refine SeenWindow.forall_order_of_use huse h.sound.indexed h.reaches ?_
      rintro k now rfl
      have hreading : now = c.now := now_of_use? hu
      rwa [hreading]

end RelayEngine

namespace RelayNode

variable {τ : Type} [Transport τ] {n n' : RelayNode τ} {sender : Option PeerId} {frame : Bytes}
  {now : Instant} {decision : Decision}

/-- A node sends what it accepts to those who get it, and nothing else. -/
theorem receive_cases (h : n.receive sender frame now = .ok (n', decision)) :
    (∃ w, n'.engine = { n.engine with window := w }) ∧
      ((decision.isAccepted = false ∧ n'.transport = n.transport) ∨
        (∃ sign, decision =
          .accept (n.engine.targets sender (Transport.peers n.transport)) sign) ∧
        n'.transport = (Transport.sendAll n.transport frame
          (n.engine.targets sender (Transport.peers n.transport))).1) := by
  obtain ⟨⟨e', d, m⟩, hframe, h⟩ := bind_eq_ok_iff.1 h
  obtain ⟨hwindow, hdropped | ⟨m', rfl, rfl⟩⟩ := RelayEngine.handleFrame_cases hframe
  · cases d with
    | drop =>
      cases h
      exact ⟨hwindow, .inl ⟨rfl, rfl⟩⟩
    | accept => cases hdropped
  · cases h
    exact ⟨hwindow, .inr ⟨⟨_, rfl⟩, rfl⟩⟩

/-- A node sends a message of its own to all peers. -/
theorem broadcast_cases {m : SignetPsbtMessage} {sent : Nat}
    (h : n.broadcast m now = .ok (n', sent)) :
    (∃ w, n'.engine = { n.engine with window := w }) ∧
      (n'.transport, sent) = Transport.sendAll n.transport (m.toFrame n.engine.magic)
        (Transport.peers n.transport) := by
  obtain ⟨⟨e', frame⟩, horiginate, h⟩ := bind_eq_ok_iff.1 h
  obtain ⟨hwindow, rfl⟩ := RelayEngine.originate_cases horiginate
  cases h
  exact ⟨hwindow, rfl⟩

theorem exists_receive (n : RelayNode τ) (sender : Option PeerId) (frame : Bytes)
    (h : n.engine.Timely) (hnow : now.Reaches n.engine.window.ttl) :
    ∃ n' decision, n.receive sender frame now = .ok (n', decision) ∧ n'.engine.Timely ∧
      n'.engine.window.ttl = n.engine.window.ttl := by
  obtain ⟨e', _, hcall, htimely, hspan⟩ := h.exists_call
    (c := ⟨now, .handleFrame sender (Transport.peers n.transport) frame⟩) hnow
  obtain ⟨⟨_, decision, m⟩, hframe, heq⟩ := bind_eq_ok_iff.1 hcall
  cases heq
  obtain ⟨_, hdropped | ⟨m', rfl, rfl⟩⟩ := RelayEngine.handleFrame_cases hframe
  · cases decision with
    | drop why =>
      exact ⟨_, .drop why, bind_eq_ok_iff.2 ⟨_, hframe, rfl⟩, htimely, hspan⟩
    | accept => cases hdropped
  · exact ⟨_, _, bind_eq_ok_iff.2 ⟨_, hframe, rfl⟩, htimely, hspan⟩

theorem exists_broadcast (n : RelayNode τ) (m : SignetPsbtMessage) (h : n.engine.Timely)
    (hnow : now.Reaches n.engine.window.ttl) :
    ∃ n' sent, n.broadcast m now = .ok (n', sent) ∧ n'.engine.Timely ∧
      n'.engine.window.ttl = n.engine.window.ttl := by
  obtain ⟨e', _, hcall, htimely, hspan⟩ := h.exists_call (c := ⟨now, .originate m⟩) hnow
  obtain ⟨⟨_, frame⟩, horiginate, heq⟩ := bind_eq_ok_iff.1 hcall
  cases heq
  exact ⟨_, _, bind_eq_ok_iff.2 ⟨_, horiginate, rfl⟩, htimely, hspan⟩

end RelayNode

end SignetFederation
