import Mathlib.Data.List.Perm.Subperm
import SignetFederation.Proofs.Relay.Accounts

/-!
# Flooding delivers exactly once

The runs of a flooding network into which messages with different keys are brought, each once. The
nodes take frames out of their inboxes in any order. As long as no node forgets a message, and all
messages can be read from their frames, each step is a step of the `Spread` of every message
(`Flooding`), so what holds there holds here.

Main statement: `flood_exactly_once`. It needs messages within the size limit
(`flood_loses_oversized`).
-/

namespace SignetFederation

namespace RelayNetwork

variable {magic : Magic} {ms : List SignetPsbtMessage} {links : PeerId → List PeerId}
  {events : List FloodEvent} {first n n' rest : RelayNetwork} {v p : PeerId}
  {m m' : SignetPsbtMessage} {frame : Bytes} {now : Instant}

/-! ## Runs -/

/-- Recording a message at a moment makes a node forget nothing. -/
def Retains (n : RelayNetwork) (v : PeerId) (m : SignetPsbtMessage) (now : Instant) : Prop :=
  ∀ node, n.nodes[v]? = some node → node.engine.Retains m now

/-- The runs of a network in which no node forgets anything, with what happened, the last first: each
message is brought in at most once, and frames are taken in any order. -/
inductive Flood (magic : Magic) (ms : List SignetPsbtMessage) (first : RelayNetwork) :
    List FloodEvent → RelayNetwork → Prop
  | start : Flood magic ms first [] first
  | broadcast {events : List FloodEvent} {n n' : RelayNetwork} {sent : Nat} (v : PeerId)
      (m : SignetPsbtMessage) (now : Instant) (hrun : Flood magic ms first events n)
      (hm : m ∈ ms) (hnew : m ∉ events.filterMap FloodEvent.starts) (hkeep : n.Retains v m now)
      (hstep : n.broadcast v m now = .ok (n', some sent)) :
      Flood magic ms first (.broadcast v m :: events) n'
  | inject {events : List FloodEvent} {n n' : RelayNetwork} {d : Decision} (v : PeerId)
      (m : SignetPsbtMessage) (now : Instant) (hrun : Flood magic ms first events n)
      (hm : m ∈ ms) (hnew : m ∉ events.filterMap FloodEvent.starts) (hkeep : n.Retains v m now)
      (hstep : n.receive v none (m.toFrame magic) now = .ok (n', some d)) :
      Flood magic ms first (.inject v m :: events) n'
  | take {events : List FloodEvent} {n rest n' : RelayNetwork} {d : Decision} (p v : PeerId)
      (place : Nat) (frame : Bytes) (now : Instant) (hrun : Flood magic ms first events n)
      (htake : n.takeFrameAt p place = some (rest, v, frame))
      (hkeep : ∀ m, SignetPsbtMessage.ofFrame frame magic = .ok m → n.Retains p m now)
      (hstep : rest.receive p (some v) frame now = .ok (n', some d)) :
      Flood magic ms first (.take p v frame d.isAccepted :: events) n'

/-- The links of all nodes, each behind its node. -/
def directedLinks (n : RelayNetwork) : List (PeerId × PeerId) :=
  (List.range n.nodes.length).flatMap fun v => (n.linksOf v).map (v, ·)

/-! ## Every step is a step of the spread -/

/-- What holds of a network after a run: the account of every message is in order, and only messages
that were brought in are seen. -/
structure Flooding (magic : Magic) (ms : List SignetPsbtMessage) (links : PeerId → List PeerId)
    (events : List FloodEvent) (n : RelayNetwork) : Prop extends Wired magic ms links n where
  sound : ∀ m ∈ ms, (account magic events n m).Sound links
  takes : ∀ t ∈ events.filterMap FloodEvent.takes, ∃ m ∈ ms, t.2.2 = m.toFrame magic
  starts : ∀ m ∈ events.filterMap FloodEvent.starts, m ∈ ms
  onceStarted : (events.filterMap FloodEvent.starts).Nodup
  seenStarted : ∀ m ∈ ms, ∀ v, n.sees v m = true → m ∈ events.filterMap FloodEvent.starts
  origin : ∀ m ∈ ms, ∀ v, .broadcast v m ∈ events ∨ .inject v m ∈ events → n.sees v m = true

theorem Ready.flooding (h : n.Ready magic ms) : n.Flooding magic ms n.linksOf [] where
  toWired := h.wired
  sound m hm := by
    have hblank : account magic [] n m = Spread.blank := by
      ext v
      · exact h.sees_eq_false v hm
      · simp [account, Spread.blank]
      · simp only [account, h.deliveriesOf_eq_nil]
        rfl
      · simp only [account, h.inboxOf_eq_nil]
        rfl
      · rfl
      · simp [account, Spread.blank]
    rw [hblank]
    exact Spread.sound_blank
  takes _ h := by cases h
  starts _ h := by cases h
  onceStarted := List.nodup_nil
  seenStarted m hm v hv := by
    rw [h.sees_eq_false v hm] at hv
    cases hv
  origin := by
    rintro m - v (hmem | hmem) <;> cases hmem

namespace Flooding

/-- What is left to show for a step about one message when nothing changes about the others. -/
theorem advance (h : n.Flooding magic ms links events) {e : FloodEvent} (hm : m ∈ ms)
    (hwired : n'.Wired magic ms links) (hsound : (account magic (e :: events) n' m).Sound links)
    (hothers : ∀ m' ∈ ms, m ≠ m' →
      account magic (e :: events) n' m' = account magic events n m')
    (hstarts : ∀ m', e.starts = some m' → m' = m ∧ m ∉ events.filterMap FloodEvent.starts)
    (hbegun : m ∈ (e :: events).filterMap FloodEvent.starts)
    (htakes : ∀ t, e.takes = some t → t.2.2 = m.toFrame magic)
    (hseen : ∀ v, n.sees v m = true ∨ .broadcast v m = e ∨ .inject v m = e →
      n'.sees v m = true) : n'.Flooding magic ms links (e :: events) where
  toWired := hwired
  sound m' hm' := by
    by_cases hne : m = m'
    · exact hne ▸ hsound
    · rw [hothers m' hm' hne]
      exact h.sound m' hm'
  takes t ht := by
    obtain ⟨e', he', heq⟩ := List.mem_filterMap.1 ht
    rcases List.mem_cons.1 he' with rfl | hold
    · exact ⟨m, hm, htakes t heq⟩
    · exact h.takes t (List.mem_filterMap.2 ⟨e', hold, heq⟩)
  starts m' hm' := by
    obtain ⟨e', he', heq⟩ := List.mem_filterMap.1 hm'
    rcases List.mem_cons.1 he' with rfl | hold
    · exact (hstarts m' heq).1 ▸ hm
    · exact h.starts m' (List.mem_filterMap.2 ⟨e', hold, heq⟩)
  onceStarted := by
    rw [List.filterMap_cons]
    split
    · exact h.onceStarted
    · next m' heq =>
      obtain ⟨rfl, hnew⟩ := hstarts m' heq
      exact List.nodup_cons.2 ⟨hnew, h.onceStarted⟩
  seenStarted m' hm' v hv := by
    by_cases hne : m = m'
    · exact hne ▸ hbegun
    · have hsame : n'.sees v m' = n.sees v m' :=
        congrArg (fun S => S.seen v) (hothers m' hm' hne)
      obtain ⟨e', he', heq⟩ := List.mem_filterMap.1 (h.seenStarted m' hm' v (hsame ▸ hv))
      exact List.mem_filterMap.2 ⟨e', List.mem_cons_of_mem e he', heq⟩
  origin m' hm' v hv := by
    by_cases hne : m = m'
    · subst hne
      refine hseen v ?_
      rcases hv with hv | hv
      · exact (List.mem_cons.1 hv).elim (fun he => .inr (.inl he))
          fun hold => .inl (h.origin m hm' v (.inl hold))
      · exact (List.mem_cons.1 hv).elim (fun he => .inr (.inr he))
          fun hold => .inl (h.origin m hm' v (.inr hold))
    · have hsame : n'.sees v m' = n.sees v m' :=
        congrArg (fun S => S.seen v) (hothers m' hm' hne)
      rw [hsame]
      refine h.origin m' hm' v (hv.imp (fun hv => ?_) fun hv => ?_)
      · refine (List.mem_cons.1 hv).resolve_left fun he => ?_
        exact hne (hstarts m' (he ▸ rfl)).1.symm
      · refine (List.mem_cons.1 hv).resolve_left fun he => ?_
        exact hne (hstarts m' (he ▸ rfl)).1.symm

variable (h : n.Flooding magic ms links events)
  (hsize : ∀ m ∈ ms, m.encode.length ≤ SignetPsbtMessage.sizeLimit)

include h hsize

/-- Who brings a message into the network hears it. -/
theorem begin {node : NetworkNode} (hnode : n.nodes[v]? = some node) (hm : m ∈ ms)
    (hnew : m ∉ events.filterMap FloodEvent.starts) {e : FloodEvent}
    (he : e = .broadcast v m ∨ e = .inject v m) {kept : List Delivery}
    (hkept : ∀ d ∈ kept, d.message = m)
    (hsound : (account magic (e :: events)
      (n.hear v m (m.toFrame magic) none kept now) m).Sound links) :
    (n.hear v m (m.toFrame magic) none kept now).Flooding magic ms links (e :: events) := by
  have hstarts : e.starts = some m := by rcases he with rfl | rfl <;> rfl
  have hconcerns : ∀ m', e.Concerns magic m' → m = m' := by
    rcases he with rfl | rfl <;> exact fun _ hc => hc
  refine h.advance hm (h.hear hnode hm none fun d hd => hkept d hd ▸ hm) hsound
    (fun m' hm' hne => ?_) (fun m' heq => ?_) ?_ (fun t ht => ?_) fun x hx => ?_
  · rw [account_of_not_concerns fun hc => hne (hconcerns m' hc),
      h.account_hear_of_ne hsize hnode hm hm' hne none hkept now]
  · rw [hstarts] at heq
    exact ⟨(Option.some.inj heq).symm, hnew⟩
  · exact List.mem_filterMap.2 ⟨e, List.mem_cons_self .., hstarts⟩
  · rcases he with rfl | rfl <;> cases ht
  · rw [h.sees_hear hnode hm hm]
    have hor : n.sees x m = true ∨ x = v := hx.imp_right fun hx => by
      rcases he with rfl | rfl <;> simpa using hx
    rcases hor with hold | rfl
    · rw [hold, Bool.true_or]
    · simp

/-- A broadcast keeps everything in order. -/
theorem broadcast (hm : m ∈ ms) (hnew : m ∉ events.filterMap FloodEvent.starts)
    (hkeep : n.Retains v m now) {sent : Nat} (hstep : n.broadcast v m now = .ok (n', some sent)) :
    n'.Flooding magic ms links (.broadcast v m :: events) := by
  cases hnode : n.nodes[v]? with
  | none =>
    unfold RelayNetwork.broadcast node? at hstep
    rw [hnode] at hstep
    cases hstep
  | some node =>
    have hmagic := (h.engines node (List.mem_of_getElem? hnode)).magic
    obtain ⟨sent', hsent⟩ := broadcast_of_retains hnode (hkeep node hnode)
    rw [hsent, hmagic] at hstep
    cases hstep
    have hunseen : n.sees v m = false :=
      Bool.eq_false_iff.2 fun hv => hnew (h.seenStarted m hm v hv)
    refine h.begin hsize hnode hm hnew (.inl rfl) (by simp) ?_
    rw [h.account_broadcast hsize hnode hm]
    exact (h.sound m hm).step (.broadcast v hunseen)

/-- A message from outside keeps everything in order. -/
theorem inject (hm : m ∈ ms) (hnew : m ∉ events.filterMap FloodEvent.starts)
    (hkeep : n.Retains v m now) {d : Decision}
    (hstep : n.receive v none (m.toFrame magic) now = .ok (n', some d)) :
    n'.Flooding magic ms links (.inject v m :: events) := by
  cases hnode : n.nodes[v]? with
  | none =>
    unfold RelayNetwork.receive node? at hstep
    rw [hnode] at hstep
    cases hstep
  | some node =>
    have hfloods := h.engines node (List.mem_of_getElem? hnode)
    have hunseen : n.sees v m = false :=
      Bool.eq_false_iff.2 fun hv => hnew (h.seenStarted m hm v hv)
    have hframe : SignetPsbtMessage.ofFrame (m.toFrame magic) node.engine.magic = .ok m := by
      rw [hfloods.magic]
      exact SignetPsbtMessage.ofFrame_toFrame magic (hsize m hm)
    rw [receive_of_new hnode hframe (hfloods.knows m hm) (hkeep node hnode) hfloods.flood hunseen]
      at hstep
    cases hstep
    refine h.begin hsize hnode hm hnew (.inr rfl) (by simp) ?_
    rw [h.account_inject hsize hnode hm]
    exact (h.sound m hm).step (.inject v hunseen)

omit hsize in
/-- What waits in an inbox was brought into the network. -/
theorem exists_message {place : Nat} (htake : n.takeFrameAt p place = some (rest, v, frame)) :
    ∃ m ∈ ms, frame = m.toFrame magic ∧ 0 < (account magic events n m).waiting v p ∧
      m ∈ events.filterMap FloodEvent.starts := by
  have hmem : (v, frame) ∈ n.inboxOf p := by
    refine (inboxOf_takeFrameAt htake p).subset ?_
    rw [if_pos rfl]
    exact List.mem_cons_self ..
  obtain ⟨m, hm, hframe⟩ := h.frames p _ hmem
  have hwaiting : 0 < (account magic events n m).waiting v p :=
    List.count_pos_iff.2 (hframe ▸ hmem)
  refine ⟨m, hm, hframe, hwaiting, h.seenStarted m hm v ?_⟩
  -- only who has seen a message sends it
  refine Bool.not_eq_false _ ▸ fun hv => ?_
  have hsilent := (h.sound m hm).silent v p hv
  unfold Spread.sent at hsilent
  omega

/-- Taking a frame keeps everything in order; it never fails. -/
theorem take {place : Nat} (htake : n.takeFrameAt p place = some (rest, v, frame))
    (hkeep : ∀ m, SignetPsbtMessage.ofFrame frame magic = .ok m → n.Retains p m now) :
    ∃ n' d, rest.receive p (some v) frame now = .ok (n', some d) ∧
      n'.Flooding magic ms links (.take p v frame d.isAccepted :: events) := by
  obtain ⟨m, hm, rfl, hwaiting, hbegun⟩ := h.exists_message htake
  obtain ⟨node, hnode⟩ := h.exists_node htake
  have hrest := h.takeFrameAt htake
  have hnode' : rest.nodes[p]? = some node := nodes_takeFrameAt htake ▸ hnode
  have hfloods := h.engines node (List.mem_of_getElem? hnode)
  have hread := SignetPsbtMessage.ofFrame_toFrame magic (hsize m hm)
  have hretains := hkeep m hread node hnode
  have hframe : SignetPsbtMessage.ofFrame (m.toFrame magic) node.engine.magic = .ok m := by
    rw [hfloods.magic]
    exact hread
  have hother : ∀ m' ∈ ms, m ≠ m' → m.toFrame magic ≠ m'.toFrame magic := fun m' hm' hne heq =>
    hne (SignetPsbtMessage.toFrame_inj (hsize m hm) (hsize m' hm') heq)
  have hconcerns : ∀ m' ∈ ms, m ≠ m' → ∀ accepted,
      ¬ (FloodEvent.take p v (m.toFrame magic) accepted).Concerns magic m' :=
    fun m' hm' hne _ => hother m' hm' hne
  cases hsees : n.sees p m with
  | true =>
    refine ⟨rest, .drop .duplicate, receive_of_sees hnode' hframe (hfloods.knows m hm) hretains
      ((sees_takeFrameAt htake p m).trans hsees), h.advance hm hrest ?_ (fun m' hm' hne => ?_)
      nofun ?_ (fun t ht => ?_) fun x hx => ?_⟩
    · rw [Decision.isAccepted, account_drop htake]
      exact (h.sound m hm).step (.drop v p hwaiting hsees)
    · rw [account_of_not_concerns (hconcerns m' hm' hne _),
        account_takeFrameAt_of_ne htake (hother m' hm' hne)]
    · exact hbegun
    · cases ht
      rfl
    · rw [sees_takeFrameAt htake]
      exact hx.resolve_right (by rintro (hx | hx) <;> cases hx)
  | false =>
    refine ⟨_, _, receive_of_new hnode' hframe (hfloods.knows m hm) hretains hfloods.flood
      ((sees_takeFrameAt htake p m).trans hsees), h.advance hm
      (hrest.hear hnode' hm (some v) (by simpa using hm)) ?_ (fun m' hm' hne => ?_)
      nofun ?_ (fun t ht => ?_) fun x hx => ?_⟩
    · rw [Decision.isAccepted, h.account_accept hsize hnode hm htake]
      exact (h.sound m hm).step (.accept v p hwaiting hsees)
    · rw [account_of_not_concerns (hconcerns m' hm' hne _),
        hrest.account_hear_of_ne hsize hnode' hm hm' hne (some v) (by simp),
        account_takeFrameAt_of_ne htake (hother m' hm' hne)]
    · exact hbegun
    · cases ht
      rfl
    · rw [hrest.sees_hear hnode' hm hm, sees_takeFrameAt htake,
        hx.resolve_right (by rintro (hx | hx) <;> cases hx), Bool.true_or]

omit h in
/-- **Every run keeps everything in order.** -/
theorem of_flood (hready : first.Ready magic ms) (hrun : Flood magic ms first events n) :
    n.Flooding magic ms first.linksOf events := by
  induction hrun with
  | start => exact hready.flooding
  | broadcast v m now _ hm hnew hkeep hstep ih =>
    exact ih.broadcast hsize hm hnew hkeep hstep
  | inject v m now _ hm hnew hkeep hstep ih => exact ih.inject hsize hm hnew hkeep hstep
  | take p v place frame now _ htake hkeep hstep ih =>
    obtain ⟨n', d, hreceive, hafter⟩ := ih.take hsize htake hkeep
    rw [hstep] at hreceive
    cases hreceive
    exact hafter

/-! ## What the accounts say -/

variable (h : n.Flooding magic ms links events)

include h

omit hsize

/-- A frame that was sent is one of a message. -/
theorem exists_message_of_sent (hsent : 0 < timesSent events n v p frame) :
    ∃ m ∈ ms, frame = m.toFrame magic := by
  have hor : 0 < (n.inboxOf p).count (v, frame) ∨
      0 < (events.filterMap FloodEvent.takes).count (v, p, frame) := by
    unfold timesSent at hsent
    omega
  rcases hor with hwaits | htaken
  · exact h.frames p _ (List.count_pos_iff.1 hwaits)
  · exact h.takes _ (List.count_pos_iff.1 htaken)

theorem timesSent_le_one (v p : PeerId) (frame : Bytes) : timesSent events n v p frame ≤ 1 := by
  rcases Nat.eq_zero_or_pos (timesSent events n v p frame) with hzero | hpos
  · omega
  · obtain ⟨m, hm, rfl⟩ := h.exists_message_of_sent hpos
    exact (h.sound m hm).once v p

theorem linked_of_sent (hsent : 0 < timesSent events n v p frame) : p ∈ links v := by
  obtain ⟨m, hm, rfl⟩ := h.exists_message_of_sent hsent
  exact (h.sound m hm).linked v p hsent

/-- Whoever accepted a frame does not send it back. -/
theorem timesSent_of_accepted (hmem : .take p v frame true ∈ events) :
    timesSent events n p v frame = 0 := by
  obtain ⟨m, hm, hframe⟩ := h.takes (v, p, frame) (List.mem_filterMap.2 ⟨_, hmem, rfl⟩)
  simp only at hframe
  subst hframe
  exact ((h.sound m hm).noEcho p v (decide_eq_true hmem)).2

theorem nodup_messages (v : PeerId) : ((n.deliveriesOf v).map Delivery.message).Nodup := by
  refine List.nodup_iff_count_le_one.2 fun m => ?_
  by_cases hm : m ∈ ms
  · have hhanded := (h.sound m hm).handed v
    change ((n.deliveriesOf v).map Delivery.message).count m = _ at hhanded
    rw [hhanded]
    exact Bool.toNat_le _
  · have hzero : ((n.deliveriesOf v).map Delivery.message).count m = 0 := by
      refine List.count_eq_zero_of_not_mem fun hmem => hm ?_
      obtain ⟨d, hd, rfl⟩ := List.mem_map.1 hmem
      exact h.handed v d hd
    omega

/-- No key is handed on twice. -/
theorem nodup_keys {node : NetworkNode} (hnode : n.nodes[v]? = some node) :
    ((n.deliveriesOf v).map fun d => node.engine.policy.dedup.keyOf d.message).Nodup := by
  have hkeys := (h.nodup_messages v).map_on (f := node.engine.policy.dedup.keyOf)
    fun m hm m' hm' heq => by
      obtain ⟨d, hd, rfl⟩ := List.mem_map.1 hm
      obtain ⟨d', hd', rfl⟩ := List.mem_map.1 hm'
      exact (h.keyOf_inj hnode (h.handed v d hd) (h.handed v d' hd')).1 heq
  rw [List.map_map] at hkeys
  exact hkeys

/-- A message is handed on wherever it is seen, but not by the node that broadcast it. -/
theorem count_handed (hm : m ∈ ms) (v : PeerId) :
    ((n.deliveriesOf v).map Delivery.message).count m =
      if n.sees v m = true ∧ .broadcast v m ∉ events then 1 else 0 := by
  have hhanded := (h.sound m hm).handed v
  change ((n.deliveriesOf v).map Delivery.message).count m =
    (n.sees v m && !decide (.broadcast v m ∈ events)).toNat at hhanded
  rw [hhanded]
  by_cases hall : n.sees v m = true ∧ .broadcast v m ∉ events
  · simp [hall]
  · rw [if_neg hall]
    cases hsees : n.sees v m <;> simp_all

/-- Once nothing waits, a message has been seen by everyone within reach of where it began. -/
theorem sees_of_connected (hquiet : ∀ p, n.inboxOf p = []) {o : PeerId}
    (hbegun : .broadcast o m ∈ events ∨ .inject o m ∈ events)
    (hconn : Relation.ReflTransGen (fun a b => b ∈ links a) o v) : m ∈ ms ∧ n.sees v m = true := by
  have hm : m ∈ ms := h.starts m <| by
    rcases hbegun with hmem | hmem
    all_goals exact List.mem_filterMap.2 ⟨_, hmem, rfl⟩
  refine ⟨hm, (h.sound m hm).seen_of_connected (fun a b => ?_) hconn (h.origin m hm o hbegun)⟩
  change (n.inboxOf b).count _ = 0
  rw [hquiet]
  rfl

/-- There are not more events than messages and sendings. -/
theorem length_le (hlinks : ∀ v p, p ∈ links v → (v, p) ∈ first.directedLinks) :
    events.length ≤ ms.length * (1 + first.directedLinks.length) := by
  have hsplit : ∀ es : List FloodEvent, es.length =
      (es.filterMap FloodEvent.starts).length + (es.filterMap FloodEvent.takes).length := by
    intro es
    induction es with
    | nil => rfl
    | cons e es ih =>
      cases e <;> simp only [List.filterMap_cons, FloodEvent.starts, FloodEvent.takes,
        List.length_cons] <;> omega
  have hstarts : (events.filterMap FloodEvent.starts).length ≤ ms.length :=
    (List.subperm_of_subset h.onceStarted h.starts).length_le
  have hnodup : (events.filterMap FloodEvent.takes).Nodup := by
    refine List.nodup_iff_count_le_one.2 ?_
    rintro ⟨v, p, frame⟩
    have hle := h.timesSent_le_one v p frame
    unfold timesSent at hle
    omega
  have hsubset : events.filterMap FloodEvent.takes ⊆ first.directedLinks.flatMap fun l =>
      ms.map fun m => (l.1, l.2, m.toFrame magic) := by
    rintro ⟨v, p, frame⟩ ht
    obtain ⟨m, hm, rfl⟩ := h.takes _ ht
    have hsent : 0 < timesSent events n v p (m.toFrame magic) := by
      have hpos := List.count_pos_iff.2 ht
      unfold timesSent
      omega
    exact List.mem_flatMap.2
      ⟨(v, p), hlinks v p (h.linked_of_sent hsent), List.mem_map.2 ⟨m, hm, rfl⟩⟩
  have htakes := (List.subperm_of_subset hnodup hsubset).length_le
  have hlength : (first.directedLinks.flatMap fun l =>
      ms.map fun m => (l.1, l.2, m.toFrame magic)).length =
      first.directedLinks.length * ms.length := by
    simp [List.length_flatMap]
  rw [hlength] at htakes
  rw [hsplit events, Nat.mul_add, Nat.mul_one, Nat.mul_comm ms.length]
  exact Nat.add_le_add hstarts htakes

end Flooding

theorem mem_directedLinks (hp : p ∈ n.linksOf v) : (v, p) ∈ n.directedLinks := by
  refine List.mem_flatMap.2 ⟨v, List.mem_range.2 ?_, List.mem_map.2 ⟨p, hp, rfl⟩⟩
  refine Nat.lt_of_not_le fun hle => ?_
  unfold linksOf at hp
  rw [List.getElem?_eq_none hle] at hp
  cases hp

/-! ## The whole run -/

/-- What a run of a flooding network comes to. -/
structure Delivered (magic : Magic) (ms : List SignetPsbtMessage) (first : RelayNetwork)
    (events : List FloodEvent) (n : RelayNetwork) : Prop where
  /-- No node hands a key to local processing twice. -/
  handsOnce : ∀ v node, n.nodes[v]? = some node →
    ((n.deliveriesOf v).map fun d => node.engine.policy.dedup.keyOf d.message).Nodup
  /-- No node sends a frame to another one twice, and all frames are of the messages. -/
  sendsOnce : ∀ v p frame, timesSent events n v p frame ≤ 1 ∧
    (0 < timesSent events n v p frame → ∃ m ∈ ms, frame = m.toFrame magic)
  /-- No node sends a frame to whom it accepted it from. -/
  noEcho : ∀ p v frame, .take p v frame true ∈ events → timesSent events n p v frame = 0
  /-- The run comes to an end. -/
  ends : events.length ≤ ms.length * (1 + first.directedLinks.length)
  /-- Until then the frames that wait can be taken. -/
  goesOn : ∀ p v place frame rest now, n.takeFrameAt p place = some (rest, v, frame) →
    (∀ m, SignetPsbtMessage.ofFrame frame magic = .ok m → n.Retains p m now) →
    ∃ n' d, rest.receive p (some v) frame now = .ok (n', some d)
  /-- Once nothing waits, everyone within reach has processed the message exactly once, but for
  the node that broadcast it. -/
  reaches : (∀ p, n.inboxOf p = []) → ∀ o m, .broadcast o m ∈ events ∨ .inject o m ∈ events →
    ∀ v, Relation.ReflTransGen (fun a b => b ∈ first.linksOf a) o v →
      ((n.deliveriesOf v).map Delivery.message).count m =
        if .broadcast v m ∈ events then 0 else 1

/-- **Flooding delivers exactly once.** In a network of linked nodes that flood, into which readable
messages with different keys are brought, each by a broadcast or from outside, no node forgetting
any: whatever the order in which frames are taken, no node processes a key or sends it to another
node twice, or sends it back; the run ends; and then everyone within reach has processed every
message exactly once, except for a node that broadcast it, which never does. -/
theorem flood_exactly_once (hready : first.Ready magic ms)
    (hsize : ∀ m ∈ ms, m.encode.length ≤ SignetPsbtMessage.sizeLimit)
    (hrun : Flood magic ms first events n) : Delivered magic ms first events n := by
  have h := Flooding.of_flood hsize hready hrun
  refine ⟨fun v node hnode => h.nodup_keys hnode,
    fun v p frame => ⟨h.timesSent_le_one v p frame, h.exists_message_of_sent⟩,
    fun p v frame hmem => h.timesSent_of_accepted hmem,
    h.length_le fun v p hp => mem_directedLinks hp,
    fun p v place frame rest now htake hkeep => ?_, fun hquiet o m hbegun v hconn => ?_⟩
  · obtain ⟨n', d, hreceive, _⟩ := h.take hsize htake hkeep
    exact ⟨n', d, hreceive⟩
  · obtain ⟨hm, hsees⟩ := h.sees_of_connected hquiet hbegun hconn
    rw [h.count_handed hm, hsees]
    by_cases hown : .broadcast v m ∈ events <;> simp [hown]

/-! ## Two nodes -/

/-- The engine of a node without a quorum. -/
def sampleEngine : RelayEngine := .make .default ⟨[1, 2, 3, 4], rfl⟩ none none

/-- Two such nodes, linked. -/
def samplePair : RelayNetwork := (ofEngines [sampleEngine, sampleEngine]).link 0 1

theorem ready_samplePair (m : SignetPsbtMessage) :
    samplePair.Ready sampleEngine.magic [m] := by
  have hfloods : sampleEngine.Floods sampleEngine.magic [m] :=
    ⟨rfl, rfl, fun _ _ => rfl, List.nodup_singleton _⟩
  have hunseen : ∀ m, sampleEngine.sees m = false := fun m => Std.HashSet.contains_empty
  refine (ready_ofEngines (fun e he => ?_) fun e he m _ => ?_).link Nat.zero_lt_two Nat.one_lt_two
  all_goals
    obtain rfl : e = sampleEngine := by simpa using he
  · exact hfloods
  · exact hunseen m

theorem retains_samplePair (v : PeerId) (m : SignetPsbtMessage) (now : Instant) :
    samplePair.Retains v m now := by
  have hnodes : samplePair.nodes = [⟨sampleEngine, [1], some []⟩, ⟨sampleEngine, [0], some []⟩] :=
    rfl
  intro node hnode
  have hmem := List.mem_of_getElem? hnode
  rw [hnodes] at hmem
  have hengine : node.engine = sampleEngine := by
    rcases List.mem_cons.1 hmem with rfl | hmem
    · rfl
    · rw [List.mem_singleton.1 hmem]
  rw [hengine]
  exact SeenWindow.retains_of_empty _ _ _ _

/-- The pair after its first node broadcast a message, and the frame was taken out of the inbox of
the second. -/
def sampleRest (m : SignetPsbtMessage) (now : Instant) : RelayNetwork :=
  ⟨(samplePair.hear 0 m (m.toFrame sampleEngine.magic) none [] now).nodes, [some [], some []]⟩

theorem flood_samplePair (m : SignetPsbtMessage) (now : Instant) :
    Flood sampleEngine.magic [m] samplePair [.broadcast 0 m]
      (samplePair.hear 0 m (m.toFrame sampleEngine.magic) none [] now) := by
  have hnode : samplePair.nodes[0]? = some ⟨sampleEngine, [1], some []⟩ := rfl
  have hkeep := retains_samplePair 0 m now
  obtain ⟨sent, hsent⟩ := broadcast_of_retains hnode (hkeep _ hnode)
  exact .broadcast 0 m now .start (List.mem_singleton_self m) List.not_mem_nil hkeep hsent

theorem takeFrameAt_samplePair (m : SignetPsbtMessage) (now : Instant) :
    (samplePair.hear 0 m (m.toFrame sampleEngine.magic) none [] now).takeFrameAt 1 0 =
      some (sampleRest m now, 0, m.toFrame sampleEngine.magic) := rfl

/-- A message that the second node reads reaches it once, and never comes back to the first. -/
theorem flood_exactly_once_sample :
    let m : SignetPsbtMessage := ⟨7, [], [], []⟩
    let frame := m.toFrame sampleEngine.magic
    ∃ events n, Flood sampleEngine.magic [m] samplePair events n ∧
      events = [.take 1 0 frame true, .broadcast 0 m] ∧
      Delivered sampleEngine.magic [m] samplePair events n ∧
      (∀ p, n.inboxOf p = []) ∧
      ((n.deliveriesOf 1).map Delivery.message).count m = 1 ∧
      ((n.deliveriesOf 0).map Delivery.message).count m = 0 := by
  intro m frame
  have hsize : m.encode.length ≤ SignetPsbtMessage.sizeLimit := by decide +kernel
  have hread := SignetPsbtMessage.ofFrame_toFrame sampleEngine.magic hsize
  have hnode : (sampleRest m 0).nodes[1]? = some ⟨sampleEngine, [0], some []⟩ := rfl
  have hunseen : (sampleRest m 0).sees 1 m = false :=
    (sees_eq hnode).trans Std.HashSet.contains_empty
  have hkeep : ∀ m', SignetPsbtMessage.ofFrame frame sampleEngine.magic = .ok m' →
      (samplePair.hear 0 m frame none [] 0).Retains 1 m' 0 := by
    intro m' _ node hnode'
    cases hnode.symm.trans hnode'
    exact SeenWindow.retains_of_empty _ _ _ _
  have hreceive : (sampleRest m 0).receive 1 (some 0) frame 0 =
      .ok ((sampleRest m 0).hear 1 m frame (some 0) [⟨m, false⟩] 0, some (.accept [] false)) :=
    receive_of_new hnode hread rfl (hkeep m hread _ hnode) rfl hunseen
  have hrun := (flood_samplePair m 0).take 1 0 0 frame 0 (takeFrameAt_samplePair m 0) hkeep hreceive
  have hdone := flood_exactly_once (ready_samplePair m) (by simpa using hsize) hrun
  have hquiet : ∀ p, ((sampleRest m 0).hear 1 m frame (some 0) [⟨m, false⟩] 0).inboxOf p = [] := by
    rintro (_ | _ | p) <;> rfl
  have hlink : Relation.ReflTransGen (fun a b => b ∈ samplePair.linksOf a) 0 1 :=
    .single (List.mem_singleton_self 1)
  have hbegun : FloodEvent.broadcast 0 m ∈
      [FloodEvent.take 1 0 frame true, .broadcast 0 m] := by simp
  refine ⟨_, _, hrun, rfl, hdone, hquiet, ?_, ?_⟩
  · exact (hdone.reaches hquiet 0 m (.inl hbegun) 1 hlink).trans (if_neg (by simp [Decision.isAccepted]))
  · exact (hdone.reaches hquiet 0 m (.inl hbegun) 0 .refl).trans (if_pos hbegun)

/-- A message beyond the size limit is sent but refused, so that nobody processes it. -/
theorem flood_loses_oversized :
    let m : SignetPsbtMessage := ⟨7, List.replicate 16000000 0, [], []⟩
    ∃ events n, samplePair.Ready sampleEngine.magic [m] ∧
      Flood sampleEngine.magic [m] samplePair events n ∧ (∀ p, n.inboxOf p = []) ∧
      .broadcast 0 m ∈ events ∧ 1 ∈ samplePair.linksOf 0 ∧ n.deliveriesOf 1 = [] := by
  intro m
  have hlength : m.encode.length = 16000015 := by
    rw [SignetPsbtMessage.length_encode]
    simp only [m, CompactSize.encodeBytes, List.length_append, List.length_replicate]
    decide +kernel
  have hread := SignetPsbtMessage.ofFrame_of_oversized (m := m) sampleEngine.magic
    (by rw [hlength]; decide) (by rw [hlength]; decide)
  have hnode : (sampleRest m 0).nodes[1]? = some ⟨sampleEngine, [0], some []⟩ := rfl
  have hreceive : (sampleRest m 0).receive 1 (some 0) (m.toFrame sampleEngine.magic) 0 =
      .ok (sampleRest m 0, some (.drop .malformed)) := receive_of_error hnode hread
  have hrun := (flood_samplePair m 0).take 1 0 0 _ 0 (takeFrameAt_samplePair m 0)
    (fun m' hm' => by rw [hread] at hm'; cases hm') hreceive
  exact ⟨_, _, ready_samplePair m, hrun, by rintro (_ | _ | p) <;> rfl, by simp,
    List.mem_singleton_self 1, rfl⟩

end RelayNetwork

end SignetFederation
