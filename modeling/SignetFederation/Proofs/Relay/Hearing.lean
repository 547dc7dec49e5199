import Mathlib.Data.List.Nodup
import SignetFederation.Proofs.Relay.Recording
import SignetFederation.Relay.Network

/-!
# What a node of a network changes

A node that sees a message for the first time notes it, puts its frame at the end of the inboxes of
its neighbours and may keep it for local processing (`hear`); that is all that a network of open
inboxes does when it receives or broadcasts a message (`receive_of_new`, `broadcast_of_retains`), and
what a node has seen already changes nothing (`receive_of_sees`). Frames may be taken out of an inbox
in any order (`takeFrameAt`).
-/

namespace SignetFederation

/-! ## Sending -/

namespace Wires

/-- The inboxes with an entry at the end of some of them, as often as they are listed. -/
def appendTo (inboxes : List (Option (List Inbound))) (entry : Inbound) (targets : List PeerId) :
    List (Option (List Inbound)) :=
  inboxes.mapIdx fun p inbox => inbox.map (· ++ List.replicate (targets.count p) entry)

theorem getElem?_appendTo (inboxes : List (Option (List Inbound))) (entry : Inbound)
    (targets : List PeerId) (p : PeerId) :
    (appendTo inboxes entry targets)[p]? =
      inboxes[p]?.map (Option.map (· ++ List.replicate (targets.count p) entry)) :=
  List.getElem?_mapIdx

theorem appendTo_nil (inboxes : List (Option (List Inbound))) (entry : Inbound) :
    appendTo inboxes entry [] = inboxes := by
  refine List.ext_getElem? fun p => ?_
  rw [getElem?_appendTo]
  cases inboxes[p]? with
  | none => rfl
  | some inbox => cases inbox <;> simp

/-- Who is not among the targets of one round of sending does not count in the next. -/
theorem appendTo_cons_of_closed {inboxes : List (Option (List Inbound))} {p : PeerId}
    (h : ∀ inbox, inboxes[p]? ≠ some (some inbox)) (entry : Inbound) (targets : List PeerId) :
    appendTo inboxes entry (p :: targets) = appendTo inboxes entry targets := by
  refine List.ext_getElem? fun i => ?_
  rw [getElem?_appendTo, getElem?_appendTo]
  by_cases hi : i = p
  · subst hi
    cases hbox : inboxes[i]? with
    | none => rfl
    | some inbox =>
      cases inbox with
      | none => rfl
      | some inbox => exact absurd hbox (h inbox)
  · rw [List.count_cons_of_ne (Ne.symm hi)]

theorem appendTo_cons_of_open {inboxes : List (Option (List Inbound))} {p : PeerId}
    {inbox : List Inbound} (h : inboxes[p]? = some (some inbox)) (entry : Inbound)
    (targets : List PeerId) :
    appendTo inboxes entry (p :: targets) =
      appendTo (inboxes.set p (some (inbox ++ [entry]))) entry targets := by
  refine List.ext_getElem? fun i => ?_
  rw [getElem?_appendTo, getElem?_appendTo]
  by_cases hi : i = p
  · subst hi
    have hlt : i < inboxes.length := (List.getElem?_eq_some_iff.1 h).1
    rw [h, List.getElem?_set_self hlt, List.count_cons_self, List.replicate_succ]
    simp
  · rw [List.count_cons_of_ne (Ne.symm hi), List.getElem?_set_ne (Ne.symm hi)]

/-- Sending to linked nodes appends to their inboxes, as far as they are open. -/
theorem sendAll_eq (w : Wires) (frame : Bytes) {targets : List PeerId}
    (h : ∀ p ∈ targets, p ∈ w.links) : (Transport.sendAll w frame targets).1 =
      { w with inboxes := appendTo w.inboxes (w.self, frame) targets } := by
  induction targets generalizing w with
  | nil =>
    rw [appendTo_nil]
    rfl
  | cons p targets ih =>
    have hlinked : p ∈ w.links := h p (List.mem_cons_self ..)
    have hrest : ∀ p' ∈ targets, p' ∈ w.links := fun p' hp' => h p' (List.mem_cons_of_mem p hp')
    have hsend : Transport.send w p frame = w.post p frame := if_pos hlinked
    unfold Transport.sendAll
    rw [hsend]
    unfold post
    split
    · next t ht =>
      split at ht
      · next inbox hinbox =>
        cases ht
        rw [appendTo_cons_of_open hinbox]
        exact ih _ hrest
      · cases ht
    · next why herror =>
      split at herror
      · cases herror
      · next hclosed =>
        rw [appendTo_cons_of_closed hclosed]
        exact ih w hrest

end Wires

/-! ## Parts of a network -/

namespace RelayNetwork

/-- The links of a node. -/
def linksOf (n : RelayNetwork) (v : PeerId) : List PeerId :=
  (n.nodes[v]?.map NetworkNode.links).getD []

/-- The frames that wait in the inbox of a node. -/
def inboxOf (n : RelayNetwork) (v : PeerId) : List Inbound := n.inboxes[v]?.join.getD []

/-- What a node handed to local processing. -/
def deliveriesOf (n : RelayNetwork) (v : PeerId) : List Delivery :=
  (n.nodes[v]?.bind NetworkNode.deliveries).getD []

/-- Whether a node has seen a message with the same key. -/
def sees (n : RelayNetwork) (v : PeerId) (m : SignetPsbtMessage) : Bool :=
  n.nodes[v]?.any fun node => node.engine.sees m

/-- Takes the frame at a place out of an inbox. -/
def takeFrameAt (n : RelayNetwork) (i : PeerId) (place : Nat) : Option (RelayNetwork × Inbound) :=
  match n.inboxes[i]? with
  | some (some inbox) => inbox[place]?.map fun entry =>
      ({ n with inboxes := n.inboxes.set i (some (inbox.eraseIdx place)) }, entry)
  | _ => none

/-- The network after a node saw a message for the first time: it has noted the message, sent a frame
to all neighbours but the one it got it from, and handed something to local processing. -/
def hear (n : RelayNetwork) (v : PeerId) (m : SignetPsbtMessage) (frame : Bytes)
    (sender : Option PeerId) (kept : List Delivery) (now : Instant) : RelayNetwork where
  nodes := n.nodes.modify v fun node =>
    ⟨node.engine.note m now, node.links, node.deliveries.map (· ++ kept)⟩
  inboxes := Wires.appendTo n.inboxes (v, frame) ((n.linksOf v).filter fun p => some p ≠ sender)

variable {n n' : RelayNetwork} {v : PeerId} {node : NetworkNode} {m : SignetPsbtMessage}
  {frame : Bytes} {sender : Option PeerId} {now : Instant}

theorem linksOf_eq (h : n.nodes[v]? = some node) : n.linksOf v = node.links := by
  unfold linksOf
  rw [h]
  rfl

theorem sees_eq (h : n.nodes[v]? = some node) : n.sees v m = node.engine.sees m := by
  unfold sees
  rw [h]
  rfl

theorem node?_eq (h : n.nodes[v]? = some node) :
    n.node? v = some ⟨node.engine, ⟨v, node.links, n.inboxes⟩, node.deliveries⟩ := by
  unfold node?
  rw [h]
  rfl

/-- Putting back the node that was there changes nothing. -/
theorem put_self (h : n.nodes[v]? = some node) :
    n.put v ⟨node.engine, ⟨v, node.links, n.inboxes⟩, node.deliveries⟩ = n := by
  have hset : n.nodes.set v node = n.nodes := by
    obtain ⟨_, rfl⟩ := List.getElem?_eq_some_iff.1 h
    exact List.set_getElem_self _
  change (⟨n.nodes.set v node, n.inboxes⟩ : RelayNetwork) = n
  rw [hset]

/-- A node that has noted a message and sent a frame to its neighbours has heard the message. -/
theorem put_eq_hear (h : n.nodes[v]? = some node) (kept : List Delivery) :
    n.put v ⟨node.engine.note m now, (Transport.sendAll (⟨v, node.links, n.inboxes⟩ : Wires) frame
      (node.links.filter fun p => some p ≠ sender)).1, node.deliveries.map (· ++ kept)⟩ =
      n.hear v m frame sender kept now := by
  have hset : n.nodes.modify v (fun node =>
      ⟨node.engine.note m now, node.links, node.deliveries.map (· ++ kept)⟩) =
      n.nodes.set v ⟨node.engine.note m now, node.links, node.deliveries.map (· ++ kept)⟩ := by
    obtain ⟨hlt, rfl⟩ := List.getElem?_eq_some_iff.1 h
    exact List.modify_eq_set_get _ hlt
  rw [Wires.sendAll_eq _ _ fun p hp => (List.mem_filter.1 hp).1]
  unfold put hear
  rw [linksOf_eq h, hset]

/-! ## What nodes do with a message -/

section Receive

variable (h : n.nodes[v]? = some node)
  (hframe : SignetPsbtMessage.ofFrame frame node.engine.magic = .ok m)
  (hknown : node.engine.knowsSigners m = true) (hretains : node.engine.Retains m now)

include h hframe hknown hretains

theorem receive_of_sees (hsees : n.sees v m = true) :
    n.receive v sender frame now = .ok (n, some (.drop .duplicate)) := by
  rw [sees_eq h] at hsees
  unfold receive
  rw [node?_eq h]
  change (RelayNode.receive _ _ _ _ >>= _) = _
  rw [RelayNode.receive_of_sees hframe hknown hretains hsees]
  change Except.ok (n.put v _, _) = _
  rw [put_self h]

theorem receive_of_new (hflood : node.engine.policy.flood = true) (hsees : n.sees v m = false) :
    n.receive v sender frame now =
      .ok (n.hear v m frame sender [⟨m, node.engine.wantsSignature m⟩] now,
        some (.accept (node.links.filter fun p => some p ≠ sender)
          (node.engine.wantsSignature m))) := by
  rw [sees_eq h] at hsees
  have htargets : node.engine.targets sender node.links =
      node.links.filter fun p => some p ≠ sender := if_pos hflood
  unfold receive
  rw [node?_eq h]
  change (RelayNode.receive _ _ _ _ >>= _) = _
  rw [RelayNode.receive_of_new hframe hknown hretains hsees]
  change Except.ok (n.put v ⟨node.engine.note m now, (Transport.sendAll _ frame
    (node.engine.targets sender node.links)).1, node.deliveries.map _⟩,
    some (Decision.accept (node.engine.targets sender node.links) _)) = _
  rw [htargets, put_eq_hear h]

end Receive

/-- What cannot be read is dropped without a trace. -/
theorem receive_of_error {why : RelayFault} (h : n.nodes[v]? = some node)
    (hframe : SignetPsbtMessage.ofFrame frame node.engine.magic = .error why) :
    n.receive v sender frame now = .ok (n, some (.drop .malformed)) := by
  unfold receive
  rw [node?_eq h]
  change (RelayNode.receive _ _ _ _ >>= _) = _
  rw [RelayNode.receive_of_error hframe]
  change Except.ok (n.put v _, _) = _
  rw [put_self h]

theorem broadcast_of_retains (h : n.nodes[v]? = some node) (hretains : node.engine.Retains m now) :
    ∃ sent, n.broadcast v m now =
      .ok (n.hear v m (m.toFrame node.engine.magic) none [] now, some sent) := by
  have hall : node.links = node.links.filter fun p => some p ≠ none :=
    (List.filter_eq_self.2 fun p _ => by simp).symm
  have hkept : node.deliveries = node.deliveries.map (· ++ []) := by
    cases node.deliveries <;> simp
  refine ⟨(Transport.sendAll (⟨v, node.links, n.inboxes⟩ : Wires)
    (m.toFrame node.engine.magic) node.links).2, ?_⟩
  unfold broadcast
  rw [node?_eq h]
  change (RelayNode.broadcast _ _ _ >>= _) = _
  rw [RelayNode.broadcast_of_retains hretains]
  rw [← put_eq_hear h, ← hkept, ← hall]
  rfl

/-! ## The network after a node heard a message -/

theorem getElem?_hear (kept : List Delivery) (x : PeerId) :
    (n.hear v m frame sender kept now).nodes[x]? = n.nodes[x]?.map fun node =>
      if x = v then ⟨node.engine.note m now, node.links, node.deliveries.map (· ++ kept)⟩
      else node := by
  unfold hear
  simp only [List.getElem?_modify]
  by_cases hx : x = v
  · subst hx
    simp
  · simp [hx, Ne.symm hx]

@[simp]
theorem linksOf_hear (kept : List Delivery) (x : PeerId) :
    (n.hear v m frame sender kept now).linksOf x = n.linksOf x := by
  unfold linksOf
  rw [getElem?_hear, Option.map_map]
  congr 2
  funext node
  simp only [Function.comp_apply]
  split <;> rfl

/-- A node that hears a message sees what has the same key. -/
theorem sees_hear (h : n.nodes[v]? = some node) (kept : List Delivery) (x : PeerId)
    (m' : SignetPsbtMessage) : (n.hear v m frame sender kept now).sees x m' =
      (n.sees x m' || (x == v &&
        node.engine.policy.dedup.keyOf m == node.engine.policy.dedup.keyOf m')) := by
  unfold sees
  rw [getElem?_hear]
  by_cases hx : x = v
  · subst hx
    rw [h]
    simp [RelayEngine.sees_note, Bool.or_comm]
  · cases n.nodes[x]? <;> simp [hx]

theorem deliveriesOf_hear (h : n.nodes[v]? = some node) (hkept : node.deliveries.isSome)
    (kept : List Delivery) (x : PeerId) : (n.hear v m frame sender kept now).deliveriesOf x =
      n.deliveriesOf x ++ if x = v then kept else [] := by
  unfold deliveriesOf
  rw [getElem?_hear]
  by_cases hx : x = v
  · subst hx
    obtain ⟨ds, hds⟩ := Option.isSome_iff_exists.1 hkept
    simp [h, hds]
  · cases n.nodes[x]? <;> simp [hx]

/-- The frame is sent once to each neighbour but the sender. -/
theorem inboxOf_hear (hlinks : (n.linksOf v).Nodup)
    (hopen : ∀ p ∈ n.linksOf v, ∃ inbox, n.inboxes[p]? = some (some inbox)) (kept : List Delivery)
    (p : PeerId) : (n.hear v m frame sender kept now).inboxOf p =
      n.inboxOf p ++ if p ∈ n.linksOf v ∧ some p ≠ sender then [(v, frame)] else [] := by
  unfold inboxOf hear
  simp only [Wires.getElem?_appendTo]
  by_cases hp : p ∈ n.linksOf v ∧ some p ≠ sender
  · obtain ⟨inbox, hinbox⟩ := hopen p hp.1
    have hmem : p ∈ (n.linksOf v).filter fun p => some p ≠ sender :=
      List.mem_filter.2 ⟨hp.1, decide_eq_true hp.2⟩
    rw [hinbox, if_pos hp, List.count_eq_one_of_mem (hlinks.filter _) hmem]
    rfl
  · have hmem : p ∉ (n.linksOf v).filter fun p => some p ≠ sender := fun hmem =>
      hp ((List.mem_filter.1 hmem).imp_right of_decide_eq_true)
    rw [if_neg hp, List.append_nil, List.count_eq_zero_of_not_mem hmem]
    cases n.inboxes[p]? with
    | none => rfl
    | some inbox => cases inbox <;> simp

end RelayNetwork

end SignetFederation
