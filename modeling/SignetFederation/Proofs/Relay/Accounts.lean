import Mathlib.Data.List.Perm.Basic
import SignetFederation.Proofs.Relay.Framing
import SignetFederation.Proofs.Relay.Hearing
import SignetFederation.Proofs.Relay.Spread

/-!
# Accounts of a flooding network

A network of flooding nodes into which messages with different keys are brought, by a broadcast or
from outside, and whose nodes take frames out of their inboxes. `account` says what has become of a
message after some events. What happens to one message leaves the accounts of the others alone, and
changes its own as the operations of `Spread` say: `account_broadcast`, `account_inject`,
`account_accept` and `account_drop`.
-/

namespace SignetFederation

/-! ## Events -/

/-- What happens in a flooding network: a node broadcasts a message, gets one from outside, or takes
a frame of another node out of its inbox, and accepts it or not. -/
inductive FloodEvent where
  | broadcast (node : PeerId) (message : SignetPsbtMessage)
  | inject (node : PeerId) (message : SignetPsbtMessage)
  | take (node sender : PeerId) (frame : Bytes) (accepted : Bool)
  deriving DecidableEq

namespace FloodEvent

/-- The message that is brought into the network. -/
def starts : FloodEvent → Option SignetPsbtMessage
  | broadcast _ m => some m
  | inject _ m => some m
  | take .. => none

/-- The sender and the receiver of a frame that is taken, and the frame. -/
def takes : FloodEvent → Option (PeerId × PeerId × Bytes)
  | take node sender frame _ => some (sender, node, frame)
  | _ => none

@[simp]
theorem filterMap_takes_broadcast (v : PeerId) (m : SignetPsbtMessage) (events : List FloodEvent) :
    (broadcast v m :: events).filterMap takes = events.filterMap takes := rfl

@[simp]
theorem filterMap_takes_inject (v : PeerId) (m : SignetPsbtMessage) (events : List FloodEvent) :
    (inject v m :: events).filterMap takes = events.filterMap takes := rfl

@[simp]
theorem filterMap_takes_take (p v : PeerId) (frame : Bytes) (accepted : Bool)
    (events : List FloodEvent) : (take p v frame accepted :: events).filterMap takes =
      (v, p, frame) :: events.filterMap takes := rfl

/-- The event is about a message: it is brought in, or its frame is taken. -/
def Concerns (magic : Magic) (m : SignetPsbtMessage) : FloodEvent → Prop
  | broadcast _ m' => m' = m
  | inject _ m' => m' = m
  | take _ _ frame _ => frame = m.toFrame magic

end FloodEvent

/-- An engine that floods messages with different keys, whose signers it knows. -/
structure RelayEngine.Floods (magic : Magic) (ms : List SignetPsbtMessage) (e : RelayEngine) :
    Prop where
  magic : e.magic = magic
  flood : e.policy.flood = true
  knows : ∀ m ∈ ms, e.knowsSigners m = true
  keys : (ms.map e.policy.dedup.keyOf).Nodup

namespace RelayNetwork

/-- A network of linked nodes that flood and that have not seen any of the messages. -/
structure Ready (magic : Magic) (ms : List SignetPsbtMessage) (n : RelayNetwork) : Prop where
  sizes : n.inboxes.length = n.nodes.length
  engines : ∀ node ∈ n.nodes, node.engine.Floods magic ms
  unseen : ∀ node ∈ n.nodes, ∀ m ∈ ms, node.engine.sees m = false
  idle : ∀ node ∈ n.nodes, node.deliveries = some []
  empty : ∀ inbox ∈ n.inboxes, inbox = some []
  ascending : ∀ node ∈ n.nodes, node.links.Pairwise (· < ·)
  linked : ∀ node ∈ n.nodes, ∀ p ∈ node.links, p < n.nodes.length

theorem mem_insertLink {peer p : PeerId} {ps : List PeerId} :
    p ∈ insertLink peer ps ↔ p = peer ∨ p ∈ ps := by
  induction ps with
  | nil => simp [insertLink]
  | cons q ps ih =>
    unfold insertLink
    split
    · simp
    · split
      · next _ heq =>
        subst heq
        simp
      · rw [List.mem_cons, ih, List.mem_cons]
        exact or_left_comm

theorem pairwise_insertLink {peer : PeerId} {ps : List PeerId} (h : ps.Pairwise (· < ·)) :
    (insertLink peer ps).Pairwise (· < ·) := by
  induction ps with
  | nil => exact List.pairwise_singleton _ _
  | cons q ps ih =>
    obtain ⟨hq, hps⟩ := List.pairwise_cons.1 h
    unfold insertLink
    split
    · next hlt =>
      refine List.pairwise_cons.2 ⟨fun p hp => ?_, h⟩
      rcases List.mem_cons.1 hp with rfl | hp
      · exact hlt
      · exact Nat.lt_trans hlt (hq p hp)
    · next hle =>
      split
      · exact h
      · next hne =>
        refine List.pairwise_cons.2 ⟨fun p hp => ?_, ih hps⟩
        rcases mem_insertLink.1 hp with rfl | hp
        · exact Nat.lt_of_le_of_ne (Nat.le_of_not_lt hle) (Ne.symm hne)
        · exact hq p hp

/-- Unlinked nodes that flood and have seen nothing are a beginning. -/
theorem ready_ofEngines {magic : Magic} {ms : List SignetPsbtMessage} {engines : List RelayEngine}
    (hfloods : ∀ e ∈ engines, e.Floods magic ms)
    (hunseen : ∀ e ∈ engines, ∀ m ∈ ms, e.sees m = false) : (ofEngines engines).Ready magic ms := by
  have hnodes : ∀ node ∈ (ofEngines engines).nodes, ∃ e ∈ engines, node = ⟨e, [], some []⟩ := by
    intro node hnode
    obtain ⟨e, he, rfl⟩ := List.mem_map.1 hnode
    exact ⟨e, he, rfl⟩
  refine ⟨by simp [ofEngines], fun node hnode => ?_, fun node hnode => ?_, fun node hnode => ?_,
    fun inbox hinbox => ?_, fun node hnode => ?_, fun node hnode p hp => ?_⟩
  · obtain ⟨e, he, rfl⟩ := hnodes node hnode
    exact hfloods e he
  · obtain ⟨e, he, rfl⟩ := hnodes node hnode
    exact hunseen e he
  · obtain ⟨e, he, rfl⟩ := hnodes node hnode
    rfl
  · obtain ⟨e, he, rfl⟩ := List.mem_map.1 hinbox
    rfl
  · obtain ⟨e, he, rfl⟩ := hnodes node hnode
    exact List.Pairwise.nil
  · obtain ⟨e, he, rfl⟩ := hnodes node hnode
    cases hp

theorem Ready.addLink {magic : Magic} {ms : List SignetPsbtMessage} {n : RelayNetwork}
    (h : n.Ready magic ms) {i peer : PeerId} (hpeer : peer < n.nodes.length) :
    (n.addLink i peer).Ready magic ms := by
  have hlength : (n.addLink i peer).nodes.length = n.nodes.length := List.length_modify _ _ _
  have hnodes : ∀ node ∈ (n.addLink i peer).nodes, ∃ old ∈ n.nodes,
      node = old ∨ node = { old with links := insertLink peer old.links } := by
    intro node hnode
    obtain ⟨x, hx⟩ := List.mem_iff_getElem?.1 hnode
    unfold RelayNetwork.addLink at hx
    rw [List.getElem?_modify] at hx
    obtain ⟨old, hold, rfl⟩ := Option.map_eq_some_iff.1 hx
    refine ⟨old, List.mem_of_getElem? hold, ?_⟩
    split
    · exact .inr rfl
    · exact .inl rfl
  refine ⟨h.sizes.trans hlength.symm, fun node hnode => ?_, fun node hnode => ?_,
    fun node hnode => ?_, h.empty, fun node hnode => ?_, fun node hnode p hp => ?_⟩
  all_goals obtain ⟨old, hold, rfl | rfl⟩ := hnodes node hnode
  · exact h.engines _ hold
  · exact h.engines old hold
  · exact h.unseen _ hold
  · exact h.unseen old hold
  · exact h.idle _ hold
  · exact h.idle old hold
  · exact h.ascending _ hold
  · exact pairwise_insertLink (h.ascending old hold)
  · rw [hlength]
    exact h.linked _ hold p hp
  · rw [hlength]
    rcases mem_insertLink.1 hp with rfl | hp
    · exact hpeer
    · exact h.linked old hold p hp

/-- Linking two nodes leaves a beginning. -/
theorem Ready.link {magic : Magic} {ms : List SignetPsbtMessage} {n : RelayNetwork}
    (h : n.Ready magic ms) {a b : PeerId} (ha : a < n.nodes.length) (hb : b < n.nodes.length) :
    (n.link a b).Ready magic ms :=
  (h.addLink hb).addLink ((List.length_modify _ _ _).symm ▸ ha)

/-- How often a node sent a frame to another one: it was taken, or it still waits. -/
def timesSent (events : List FloodEvent) (n : RelayNetwork) (v p : PeerId) (frame : Bytes) : Nat :=
  (n.inboxOf p).count (v, frame) + (events.filterMap FloodEvent.takes).count (v, p, frame)

/-! ## The network at any time -/

/-- What holds of a flooding network however far the messages have come: it is wired as in the
beginning, no inbox is closed, and all frames and deliveries are of the messages. -/
structure Wired (magic : Magic) (ms : List SignetPsbtMessage) (links : PeerId → List PeerId)
    (n : RelayNetwork) : Prop where
  sizes : n.inboxes.length = n.nodes.length
  engines : ∀ node ∈ n.nodes, node.engine.Floods magic ms
  kept : ∀ node ∈ n.nodes, node.deliveries.isSome
  sameLinks : ∀ v, n.linksOf v = links v
  nodup : ∀ v, (links v).Nodup
  linked : ∀ v, ∀ p ∈ links v, p < n.nodes.length
  opened : ∀ inbox ∈ n.inboxes, inbox.isSome
  frames : ∀ p, ∀ entry ∈ n.inboxOf p, ∃ m ∈ ms, entry.2 = m.toFrame magic
  handed : ∀ v, ∀ d ∈ n.deliveriesOf v, d.message ∈ ms

variable {magic : Magic} {ms : List SignetPsbtMessage} {links : PeerId → List PeerId}
  {events : List FloodEvent} {first n n' rest : RelayNetwork} {v p : PeerId}
  {m m' : SignetPsbtMessage} {frame : Bytes} {now : Instant}

theorem Ready.sees_eq_false (h : n.Ready magic ms) (v : PeerId) (hm : m ∈ ms) :
    n.sees v m = false := by
  cases hnode : n.nodes[v]? with
  | none => simp [sees, hnode]
  | some node => exact (sees_eq hnode).trans (h.unseen node (List.mem_of_getElem? hnode) m hm)

theorem Ready.inboxOf_eq_nil (h : n.Ready magic ms) (p : PeerId) : n.inboxOf p = [] := by
  cases hinbox : n.inboxes[p]? with
  | none => simp [inboxOf, hinbox]
  | some inbox => simp [inboxOf, hinbox, h.empty inbox (List.mem_of_getElem? hinbox)]

theorem Ready.deliveriesOf_eq_nil (h : n.Ready magic ms) (v : PeerId) :
    n.deliveriesOf v = [] := by
  cases hnode : n.nodes[v]? with
  | none => simp [deliveriesOf, hnode]
  | some node => simp [deliveriesOf, hnode, h.idle node (List.mem_of_getElem? hnode)]

theorem Ready.wired (h : n.Ready magic ms) : n.Wired magic ms n.linksOf where
  sizes := h.sizes
  engines := h.engines
  kept node hnode := by
    rw [h.idle node hnode]
    rfl
  sameLinks _ := rfl
  nodup v := by
    cases hnode : n.nodes[v]? with
    | none => simp [linksOf, hnode]
    | some node =>
      rw [linksOf_eq hnode]
      exact (h.ascending node (List.mem_of_getElem? hnode)).imp Nat.ne_of_lt
  linked v p hp := by
    cases hnode : n.nodes[v]? with
    | none => simp [linksOf, hnode] at hp
    | some node =>
      rw [linksOf_eq hnode] at hp
      exact h.linked node (List.mem_of_getElem? hnode) p hp
  opened inbox hinbox := by
    rw [h.empty inbox hinbox]
    rfl
  frames p entry hentry := by
    rw [h.inboxOf_eq_nil] at hentry
    cases hentry
  handed v d hd := by
    rw [h.deliveriesOf_eq_nil] at hd
    cases hd

/-- What taking a frame out of an inbox leaves. -/
theorem takeFrameAt_eq_some {place : Nat} (h : n.takeFrameAt p place = some (rest, v, frame)) :
    ∃ inbox, n.inboxes[p]? = some (some inbox) ∧ inbox[place]? = some (v, frame) ∧
      rest = { n with inboxes := n.inboxes.set p (some (inbox.eraseIdx place)) } := by
  unfold takeFrameAt at h
  split at h
  · next inbox hinbox =>
    obtain ⟨entry, hentry, heq⟩ := Option.map_eq_some_iff.1 h
    cases heq
    exact ⟨inbox, hinbox, hentry, rfl⟩
  · cases h

/-- Exactly one frame is gone. -/
theorem inboxOf_takeFrameAt {place : Nat} (h : n.takeFrameAt p place = some (rest, v, frame))
    (x : PeerId) : (if x = p then (v, frame) :: rest.inboxOf x else rest.inboxOf x).Perm
      (n.inboxOf x) := by
  obtain ⟨inbox, hinbox, hentry, rfl⟩ := takeFrameAt_eq_some h
  unfold inboxOf
  simp only
  by_cases hx : x = p
  · subst hx
    obtain ⟨hlt, hentry⟩ := List.getElem?_eq_some_iff.1 hentry
    rw [if_pos rfl, List.getElem?_set_self (List.getElem?_eq_some_iff.1 hinbox).1, hinbox, ← hentry]
    exact List.getElem_cons_eraseIdx_perm hlt
  · rw [if_neg hx, List.getElem?_set_ne (Ne.symm hx)]

namespace Wired

variable (h : n.Wired magic ms links)

include h

theorem exists_inbox (hp : p ∈ links v) : ∃ inbox, n.inboxes[p]? = some (some inbox) := by
  have hlt : p < n.inboxes.length := h.sizes ▸ h.linked v p hp
  obtain ⟨inbox, hinbox⟩ := Option.isSome_iff_exists.1 (h.opened _ (List.getElem_mem hlt))
  exact ⟨inbox, List.getElem?_eq_some_iff.2 ⟨hlt, hinbox⟩⟩

/-- Who has an inbox is there. -/
theorem exists_node {place : Nat} (htake : n.takeFrameAt p place = some (rest, v, frame)) :
    ∃ node, n.nodes[p]? = some node := by
  obtain ⟨inbox, hinbox, -, -⟩ := takeFrameAt_eq_some htake
  have hlt : p < n.nodes.length := h.sizes ▸ (List.getElem?_eq_some_iff.1 hinbox).1
  exact ⟨_, List.getElem?_eq_getElem hlt⟩

/-- Messages of the run are told apart by any node. -/
theorem keyOf_inj {node : NetworkNode} (hnode : n.nodes[v]? = some node) (hm : m ∈ ms)
    (hm' : m' ∈ ms) : node.engine.policy.dedup.keyOf m = node.engine.policy.dedup.keyOf m' ↔
      m = m' :=
  ⟨List.inj_on_of_nodup_map (h.engines node (List.mem_of_getElem? hnode)).keys hm hm',
    fun heq => heq ▸ rfl⟩

theorem inboxOf_hear (m : SignetPsbtMessage) (frame : Bytes) (s : Option PeerId)
    (kept : List Delivery) (now : Instant) (x : PeerId) :
    (n.hear v m frame s kept now).inboxOf x =
      n.inboxOf x ++ if x ∈ links v ∧ some x ≠ s then [(v, frame)] else [] := by
  have hnodup : (n.linksOf v).Nodup := h.sameLinks v ▸ h.nodup v
  rw [RelayNetwork.inboxOf_hear hnodup (fun p hp => h.exists_inbox (h.sameLinks v ▸ hp)), h.sameLinks]

/-- Hearing a message of the run leaves the network as it should be. -/
theorem hear {node : NetworkNode} (hnode : n.nodes[v]? = some node) (hm : m ∈ ms)
    (s : Option PeerId) {kept : List Delivery} (hkept : ∀ d ∈ kept, d.message ∈ ms) :
    (n.hear v m (m.toFrame magic) s kept now).Wired magic ms links := by
  have hat : ∀ after ∈ (n.hear v m (m.toFrame magic) s kept now).nodes,
      after.engine.Floods magic ms ∧ after.deliveries.isSome := by
    intro after hafter
    obtain ⟨x, hx⟩ := List.mem_iff_getElem?.1 hafter
    rw [getElem?_hear] at hx
    obtain ⟨before, hbefore, rfl⟩ := Option.map_eq_some_iff.1 hx
    have hmem := List.mem_of_getElem? hbefore
    have hfloods := h.engines before hmem
    have hsome := h.kept before hmem
    split
    · exact ⟨⟨hfloods.magic, hfloods.flood, hfloods.knows, hfloods.keys⟩, by simpa using hsome⟩
    · exact ⟨hfloods, hsome⟩
  have hlength : (n.hear v m (m.toFrame magic) s kept now).nodes.length = n.nodes.length :=
    List.length_modify _ _ _
  refine ⟨?_, fun after hafter => (hat after hafter).1, fun after hafter => (hat after hafter).2,
    fun x => (linksOf_hear kept x).trans (h.sameLinks x), h.nodup, fun x p hp => ?_,
    fun inbox hinbox => ?_, fun x entry hentry => ?_, fun x d hd => ?_⟩
  · rw [hlength, ← h.sizes]
    exact List.length_mapIdx
  · rw [hlength]
    exact h.linked x p hp
  · obtain ⟨i, hi⟩ := List.mem_iff_getElem?.1 hinbox
    unfold RelayNetwork.hear at hi
    simp only [Wires.getElem?_appendTo] at hi
    obtain ⟨before, hbefore, rfl⟩ := Option.map_eq_some_iff.1 hi
    simpa using h.opened before (List.mem_of_getElem? hbefore)
  · rw [h.inboxOf_hear] at hentry
    rcases List.mem_append.1 hentry with hold | hnew
    · exact h.frames x entry hold
    · split at hnew
      · rw [List.mem_singleton.1 hnew]
        exact ⟨m, hm, rfl⟩
      · cases hnew
  · rw [deliveriesOf_hear hnode (h.kept node (List.mem_of_getElem? hnode))] at hd
    rcases List.mem_append.1 hd with hold | hnew
    · exact h.handed x d hold
    · split at hnew
      · exact hkept d hnew
      · cases hnew

/-- Taking a frame out of an inbox leaves the network as it should be. -/
theorem takeFrameAt {place : Nat} (htake : n.takeFrameAt p place = some (rest, v, frame)) :
    rest.Wired magic ms links := by
  have hframes : ∀ x, ∀ entry ∈ rest.inboxOf x, entry ∈ n.inboxOf x := by
    intro x entry hentry
    refine (inboxOf_takeFrameAt htake x).subset ?_
    split
    · exact List.mem_cons_of_mem _ hentry
    · exact hentry
  obtain ⟨inbox, hinbox, hentry, rfl⟩ := takeFrameAt_eq_some htake
  refine ⟨?_, h.engines, h.kept, h.sameLinks, h.nodup, h.linked, fun box hbox => ?_,
    fun x entry hentry => h.frames x entry (hframes x entry hentry), h.handed⟩
  · rw [List.length_set]
    exact h.sizes
  · rcases List.mem_or_eq_of_mem_set hbox with hold | rfl
    · exact h.opened box hold
    · rfl

end Wired

/-! ## The account of a message -/

/-- What has become of a message in a network after some events. -/
def account (magic : Magic) (events : List FloodEvent) (n : RelayNetwork) (m : SignetPsbtMessage) :
    Spread where
  seen v := n.sees v m
  own v := decide (.broadcast v m ∈ events)
  handed v := ((n.deliveriesOf v).map Delivery.message).count m
  waiting v p := (n.inboxOf p).count (v, m.toFrame magic)
  taken v p := (events.filterMap FloodEvent.takes).count (v, p, m.toFrame magic)
  acceptedFrom p v := decide (.take p v (m.toFrame magic) true ∈ events)

/-- Events about other messages do not count. -/
theorem account_of_not_concerns {e : FloodEvent} (he : ¬ e.Concerns magic m') :
    account magic (e :: events) n m' = account magic events n m' := by
  cases e with
  | broadcast v m =>
    have hne : m' ≠ m := Ne.symm he
    ext <;> simp [account, FloodEvent.takes, hne]
  | inject v m => ext <;> simp [account, FloodEvent.takes]
  | take p v frame accepted =>
    have hne : frame ≠ m'.toFrame magic := he
    ext <;> simp [account, FloodEvent.takes, hne, Ne.symm hne]

section Hear

variable (h : n.Wired magic ms links)
  (hsize : ∀ m ∈ ms, m.encode.length ≤ SignetPsbtMessage.sizeLimit)
  {node : NetworkNode} (hnode : n.nodes[v]? = some node) (hm : m ∈ ms) (hm' : m' ∈ ms)

include h hnode hm hm'

/-- A message that is heard is seen from then on, and no other one. -/
theorem Wired.sees_hear (frame : Bytes) (s : Option PeerId) (kept : List Delivery) (now : Instant)
    (x : PeerId) : (n.hear v m frame s kept now).sees x m' =
      (n.sees x m' || (x == v && decide (m = m'))) := by
  have hkey : (node.engine.policy.dedup.keyOf m == node.engine.policy.dedup.keyOf m') =
      decide (m = m') := by
    rw [Bool.beq_eq_decide_eq]
    exact decide_eq_decide.2 (h.keyOf_inj hnode hm hm')
  rw [RelayNetwork.sees_hear hnode, hkey]

omit hnode in
include hsize in
/-- The frame of a message that is heard waits for every neighbour but the sender. -/
theorem Wired.count_inboxOf_hear (s : Option PeerId) (kept : List Delivery) (now : Instant)
    (x y : PeerId) :
    ((n.hear v m (m.toFrame magic) s kept now).inboxOf y).count (x, m'.toFrame magic) =
      (n.inboxOf y).count (x, m'.toFrame magic) +
        if m = m' ∧ x = v ∧ y ∈ links v ∧ some y ≠ s then 1 else 0 := by
  have hentry : (v, m.toFrame magic) = (x, m'.toFrame magic) ↔ m = m' ∧ x = v := by
    rw [Prod.mk.injEq]
    constructor
    · rintro ⟨hv, hframe⟩
      exact ⟨SignetPsbtMessage.toFrame_inj (hsize m hm) (hsize m' hm') hframe, hv.symm⟩
    · rintro ⟨rfl, rfl⟩
      exact ⟨rfl, rfl⟩
  rw [h.inboxOf_hear, List.count_append]
  congr 1
  by_cases hy : y ∈ links v ∧ some y ≠ s
  · rw [if_pos hy, List.count_singleton]
    simp only [beq_iff_eq, hentry, hy, and_true, ne_eq, not_false_eq_true]
  · rw [if_neg hy, if_neg fun hall => hy hall.2.2]
    rfl

omit hm hm' in
theorem Wired.count_deliveriesOf_hear (m : SignetPsbtMessage) (frame : Bytes) (s : Option PeerId)
    (kept : List Delivery) (now : Instant) (x : PeerId) :
    (((n.hear v m frame s kept now).deliveriesOf x).map Delivery.message).count m' =
      ((n.deliveriesOf x).map Delivery.message).count m' +
        if x = v then (kept.map Delivery.message).count m' else 0 := by
  rw [deliveriesOf_hear hnode (h.kept node (List.mem_of_getElem? hnode)), List.map_append,
    List.count_append]
  split <;> rfl

include hsize

/-- Who hears another message changes nothing about this one. -/
theorem Wired.account_hear_of_ne (hne : m ≠ m') (s : Option PeerId) {kept : List Delivery}
    (hkept : ∀ d ∈ kept, d.message = m) (now : Instant) :
    account magic events (n.hear v m (m.toFrame magic) s kept now) m' =
      account magic events n m' := by
  have hzero : (kept.map Delivery.message).count m' = 0 := by
    refine List.count_eq_zero_of_not_mem fun hmem => ?_
    obtain ⟨d, hd, rfl⟩ := List.mem_map.1 hmem
    exact hne (hkept d hd).symm
  ext x
  · simp only [account, h.sees_hear hnode hm hm', hne, decide_false, Bool.and_false, Bool.or_false]
  · rfl
  · simp only [account, h.count_deliveriesOf_hear hnode, hzero, ite_self, Nat.add_zero]
  · next y =>
    simp only [account, h.count_inboxOf_hear hsize hm hm', hne, false_and, if_false, Nat.add_zero]
  · rfl
  · rfl

omit hm'

/-- A broadcast is a broadcast in the spread of the message. -/
theorem Wired.account_broadcast (now : Instant) :
    account magic (.broadcast v m :: events) (n.hear v m (m.toFrame magic) none [] now) m =
      (account magic events n m).broadcast links v := by
  ext x
  · simp only [account, h.sees_hear hnode hm hm, Spread.broadcast, Spread.emit, decide_true,
      Bool.and_true]
  · simp [account, Spread.broadcast, Bool.or_comm, Bool.beq_eq_decide_eq]
  · simp [account, Spread.broadcast, Spread.emit, h.count_deliveriesOf_hear hnode]
  · simp only [account, Spread.broadcast, Spread.emit, h.count_inboxOf_hear hsize hm hm, true_and]
  · rfl
  · simp [account, Spread.broadcast, Spread.emit]

/-- What comes from outside is handed on. -/
theorem Wired.account_inject (w : Bool) (now : Instant) :
    account magic (.inject v m :: events) (n.hear v m (m.toFrame magic) none [⟨m, w⟩] now) m =
      ((account magic events n m).emit links v none).hand v := by
  ext x
  · simp only [account, h.sees_hear hnode hm hm, Spread.hand, Spread.emit, decide_true,
      Bool.and_true]
  · simp [account, Spread.hand, Spread.emit]
  · simp [account, Spread.hand, Spread.emit, h.count_deliveriesOf_hear hnode]
  · simp only [account, Spread.hand, Spread.emit, h.count_inboxOf_hear hsize hm hm, true_and]
  · rfl
  · simp [account, Spread.hand, Spread.emit]

end Hear

section Take

variable {place : Nat} (htake : n.takeFrameAt p place = some (rest, v, frame))

include htake

theorem nodes_takeFrameAt : rest.nodes = n.nodes := by
  obtain ⟨_, _, _, rfl⟩ := takeFrameAt_eq_some htake
  rfl

theorem sees_takeFrameAt (x : PeerId) (m : SignetPsbtMessage) : rest.sees x m = n.sees x m := by
  unfold sees
  rw [nodes_takeFrameAt htake]

theorem deliveriesOf_takeFrameAt (x : PeerId) : rest.deliveriesOf x = n.deliveriesOf x := by
  unfold deliveriesOf
  rw [nodes_takeFrameAt htake]

theorem count_inboxOf_takeFrameAt (x y : PeerId) (frame' : Bytes) :
    (n.inboxOf y).count (x, frame') =
      (rest.inboxOf y).count (x, frame') + if frame = frame' ∧ x = v ∧ y = p then 1 else 0 := by
  rw [← (inboxOf_takeFrameAt htake y).count_eq]
  by_cases hy : y = p
  · rw [if_pos hy, List.count_cons]
    simp only [beq_iff_eq, Prod.mk.injEq, hy, and_true]
    simp only [and_comm, eq_comm]
  · rw [if_neg hy, if_neg fun hall => hy hall.2.2, Nat.add_zero]

/-- Taking a frame changes nothing about other messages. -/
theorem account_takeFrameAt_of_ne (hne : frame ≠ m.toFrame magic) :
    account magic events rest m = account magic events n m := by
  ext x
  · exact sees_takeFrameAt htake x m
  · rfl
  · simp only [account, deliveriesOf_takeFrameAt htake]
  · next y =>
    simp only [account, count_inboxOf_takeFrameAt htake, hne, false_and, if_false, Nat.add_zero]
  · rfl
  · rfl

end Take

/-- A frame that is taken and not accepted is gone. -/
theorem account_drop {place : Nat} (htake : n.takeFrameAt p place = some (rest, v, m.toFrame magic)) :
    account magic (.take p v (m.toFrame magic) false :: events) rest m =
      (account magic events n m).take v p := by
  ext x
  · exact sees_takeFrameAt htake x m
  · simp [account, Spread.take]
  · simp only [account, deliveriesOf_takeFrameAt htake, Spread.take]
  · next y =>
    simp only [account, count_inboxOf_takeFrameAt htake, Spread.take, true_and, Nat.add_sub_cancel]
  · next y =>
    simp only [account, FloodEvent.filterMap_takes_take, List.count_cons, Spread.take, beq_iff_eq,
      Prod.mk.injEq, and_true]
    simp only [eq_comm]
  · simp [account, Spread.take]

/-- A frame that is taken and accepted is sent on. -/
theorem Wired.account_accept (h : n.Wired magic ms links)
    (hsize : ∀ m ∈ ms, m.encode.length ≤ SignetPsbtMessage.sizeLimit) {node : NetworkNode}
    (hnode : n.nodes[p]? = some node) (hm : m ∈ ms) {place : Nat}
    (htake : n.takeFrameAt p place = some (rest, v, m.toFrame magic)) (w : Bool) (now : Instant) :
    account magic (.take p v (m.toFrame magic) true :: events)
      (rest.hear p m (m.toFrame magic) (some v) [⟨m, w⟩] now) m =
      (account magic events n m).accept links v p := by
  have hrest : rest.Wired magic ms links := h.takeFrameAt htake
  have hnode' : rest.nodes[p]? = some node := nodes_takeFrameAt htake ▸ hnode
  ext x
  · simp only [account, hrest.sees_hear hnode' hm hm, sees_takeFrameAt htake, Spread.accept,
      Spread.take, Spread.hand, Spread.emit, decide_true, Bool.and_true]
  · simp [account, Spread.accept, Spread.take, Spread.hand, Spread.emit]
  · simp [account, Spread.accept, Spread.take, Spread.hand, Spread.emit,
      hrest.count_deliveriesOf_hear hnode', deliveriesOf_takeFrameAt htake]
  · next y =>
    simp only [account, Spread.accept, Spread.take, Spread.hand, Spread.emit,
      hrest.count_inboxOf_hear hsize hm hm, count_inboxOf_takeFrameAt htake, true_and]
    omega
  · next y =>
    simp only [account, FloodEvent.filterMap_takes_take, List.count_cons, Spread.accept,
      Spread.take, Spread.hand, Spread.emit, beq_iff_eq, Prod.mk.injEq, and_true]
    simp only [eq_comm]
  · next y =>
    simp [account, Spread.accept, Spread.take, Spread.hand, Spread.emit, Bool.or_comm,
      Bool.beq_eq_decide_eq]

end RelayNetwork

end SignetFederation
