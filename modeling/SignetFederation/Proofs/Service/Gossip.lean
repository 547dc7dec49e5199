import Mathlib.Logic.Relation
import SignetFederation.Proofs.Service.Station

/-!
# Networks of services among honest signers

Services that share a quorum are connected by cables, each from a peer of one of them to a peer of
another. One of them gets a request to sign a block. From then on frames go from queue to queue,
deliveries are processed, and what is signed is broadcast, in any order (`Gossip`).

What a station has seen its neighbours have seen too, or the frame is on its way to them (`Covered`);
together with what is known of each station (`Station.Good`) this holds at any time (`Intact`). Every
step takes from the weight of the network, so that a run ends (`of_gossip`).
-/

namespace SignetFederation

/-! ## Networks -/

/-- Where the frames go that a station has for a peer: to another station, which takes them as coming
from one of its own peers. -/
abbrev Cables := Nat → PeerId → Option (Nat × PeerId)

/-- What happens in a network: a station receives a frame, handles a delivery, or broadcasts a
message. -/
inductive GossipEvent where
  | receive (station : Nat) (decision : Decision)
  | handle (station : Nat) (result : Except Error (Option SignetPsbtMessage))
  | send (station : Nat)

/-- The runs of a network after a station got a request, with what happened, the last first. No
station forgets a message that it records. -/
inductive Gossip (cables : Cables) (request : SignetPsbtMessage) (magic : Magic) (origin : Nat)
    (net₀ : List Station) : List GossipEvent → List Station → Prop
  | inject {x x' : Station} {d : Decision} (now : Instant) (hx : net₀[origin]? = some x)
      (hkeep : x.engine.Retains request now)
      (hstep : x.receive none (request.toFrame magic) now = .ok (x', d)) :
      Gossip cables request magic origin net₀ [] (net₀.set origin x')
  | receive {events : List GossipEvent} {net : List Station} {x y y' : Station}
      {queues : PeerQueues} {frame : Bytes} {d : Decision} (i : Nat) (a : PeerId) (j : Nat)
      (b : PeerId) (place : Nat) (now : Instant)
      (hrun : Gossip cables request magic origin net₀ events net) (hx : net[i]? = some x)
      (htake : x.queues.takeFrameAt a place = some (queues, frame))
      (hcable : cables i a = some (j, b)) (hy : (net.set i (x.withQueues queues))[j]? = some y)
      (hkeep : ∀ m, SignetPsbtMessage.ofFrame frame magic = .ok m → y.engine.Retains m now)
      (hstep : y.receive (some b) frame now = .ok (y', d)) :
      Gossip cables request magic origin net₀ (.receive j d :: events)
        ((net.set i (x.withQueues queues)).set j y')
  | handle {events : List GossipEvent} {net : List Station} {x x' : Station}
      {result : Except Error (Option SignetPsbtMessage)} (i place : Nat)
      (hrun : Gossip cables request magic origin net₀ events net) (hx : net[i]? = some x)
      (hstep : x.handle place = some (x', result)) :
      Gossip cables request magic origin net₀ (.handle i result :: events) (net.set i x')
  | send {events : List GossipEvent} {net : List Station} {x x' : Station}
      {m : SignetPsbtMessage} (i place : Nat) (now : Instant)
      (hrun : Gossip cables request magic origin net₀ events net) (hx : net[i]? = some x)
      (hm : x.outbox[place]? = some m) (hkeep : x.engine.Retains m now)
      (hstep : x.send place now = .ok (some x')) :
      Gossip cables request magic origin net₀ (.send i :: events) (net.set i x')

/-- A network before the request: its stations are fit for the quorum and have not heard of the
request, nothing waits in them, every signer is at one of them, and every cable joins two connected
peers. -/
structure Assembled (cables : Cables) (magic : Magic) (q : Quorum) (nonce : UInt64)
    (signers : List LocalSigner) (net : List Station) : Prop where
  fit : ∀ x ∈ net, x.Fit q signers magic
  members : ∀ l ∈ signers, ∃ x ∈ net, x.service.signer = some l
  unheard : ∀ x ∈ net, ∀ m, m.nonce = nonce → x.sees m = false
  unstarted : ∀ x ∈ net, x.round? nonce = none
  idle : ∀ x ∈ net, x.Idle
  ports : ∀ i x, net[i]? = some x → ∀ a, a ∈ x.queues.registered ↔ ∃ far, cables i a = some far
  ends : ∀ i a j b, cables i a = some (j, b) → j < net.length ∧ cables j b = some (i, a)

/-! ## What stations know -/

/-- A station has seen a message. -/
def SeesAt (net : List Station) (i : Nat) (m : SignetPsbtMessage) : Prop :=
  ∃ x, net[i]? = some x ∧ x.sees m = true

/-- A frame waits for a peer of a station. -/
def FrameAt (net : List Station) (i : Nat) (a : PeerId) (frame : Bytes) : Prop :=
  ∃ x, net[i]? = some x ∧ frame ∈ x.queues.framesFor a

section Set

variable {net : List Station} {i k : Nat} {x x' : Station} {m : SignetPsbtMessage} {a : PeerId}
  {frame : Bytes}

theorem seesAt_set (hx : net[i]? = some x) :
    SeesAt (net.set i x') k m ↔ if k = i then x'.sees m = true else SeesAt net k m := by
  unfold SeesAt
  by_cases hk : k = i
  · subst hk
    simp [List.getElem?_set_self (List.getElem?_eq_some_iff.1 hx).1]
  · simp [hk, List.getElem?_set_ne (Ne.symm hk)]

theorem frameAt_set (hx : net[i]? = some x) : FrameAt (net.set i x') k a frame ↔
    if k = i then frame ∈ x'.queues.framesFor a else FrameAt net k a frame := by
  unfold FrameAt
  by_cases hk : k = i
  · subst hk
    simp [List.getElem?_set_self (List.getElem?_eq_some_iff.1 hx).1]
  · simp [hk, List.getElem?_set_ne (Ne.symm hk)]

theorem seesAt_iff (hx : net[i]? = some x) : SeesAt net i m ↔ x.sees m = true := by
  simp [SeesAt, hx]

theorem frameAt_iff (hx : net[i]? = some x) :
    FrameAt net i a frame ↔ frame ∈ x.queues.framesFor a := by
  simp [FrameAt, hx]

end Set

/-! ## What holds at any time -/

/-- A network of good stations with the cables and the signers that it was assembled with. -/
structure Staffed (cables : Cables) (request : SignetPsbtMessage) (first : Round)
    (signers : List LocalSigner) (magic : Magic) (net : List Station) : Prop where
  good : ∀ x ∈ net, x.Good request first signers magic
  members : ∀ l ∈ signers, ∃ x ∈ net, x.service.signer = some l
  ports : ∀ i x, net[i]? = some x → ∀ a, a ∈ x.queues.registered ↔ ∃ far, cables i a = some far

/-- What a station has seen its neighbours have seen, or the frame waits for them. -/
def Covered (cables : Cables) (request : SignetPsbtMessage) (first : Round)
    (signers : List LocalSigner) (magic : Magic) (net : List Station) : Prop :=
  ∀ i a j b m r, cables i a = some (j, b) → Service.Sent request first signers m r →
    SeesAt net i m → SeesAt net j m ∨ FrameAt net i a (m.toFrame magic)

/-- What holds of a network at any time after a station got the request. -/
structure Intact (cables : Cables) (request : SignetPsbtMessage) (first : Round)
    (signers : List LocalSigner) (magic : Magic) (origin : Nat) (net : List Station) : Prop
    extends Staffed cables request first signers magic net where
  covered : Covered cables request first signers magic net
  begun : SeesAt net origin request

/-- The number of steps that are left at most. -/
def weightOf (ms : List SignetPsbtMessage) (net : List Station) : Nat :=
  (net.map (Station.weight ms)).sum

variable {cables : Cables} {request : SignetPsbtMessage} {first : Round}
  {signers : List LocalSigner} {magic : Magic} {origin : Nat} {net₀ net net' : List Station}
  {events : List GossipEvent} {m : SignetPsbtMessage} {r : Round}

section Steps

variable {i : Nat} {x x' : Station} {ms : List SignetPsbtMessage}

/-- Another form of a station in its place. -/
theorem Staffed.set (h : Staffed cables request first signers magic net)
    (hx : net[i]? = some x) (hgood : x'.Good request first signers magic)
    (hports : x'.queues.registered = x.queues.registered)
    (hsigner : x'.service.signer = x.service.signer) :
    Staffed cables request first signers magic (net.set i x') := by
  have hlt : i < net.length := (List.getElem?_eq_some_iff.1 hx).1
  refine ⟨fun y hy => ?_, fun l hl => ?_, fun k y hy a => ?_⟩
  · rcases List.mem_or_eq_of_mem_set hy with hold | rfl
    · exact h.good y hold
    · exact hgood
  · obtain ⟨y, hy, hyl⟩ := h.members l hl
    obtain ⟨k, hk⟩ := List.mem_iff_getElem?.1 hy
    by_cases hki : k = i
    · subst hki
      rw [hx] at hk
      cases hk
      exact ⟨x', List.mem_set hlt x', hsigner.trans hyl⟩
    · refine ⟨y, List.mem_of_getElem? ((List.getElem?_set_ne (Ne.symm hki)).trans hk), hyl⟩
  · by_cases hk : k = i
    · subst hk
      rw [List.getElem?_set_self hlt] at hy
      cases hy
      rw [hports]
      exact h.ports k x hx a
    · rw [List.getElem?_set_ne (Ne.symm hk)] at hy
      exact h.ports k y hy a

theorem weightOf_set (ms : List SignetPsbtMessage) (hx : net[i]? = some x) (x' : Station) :
    weightOf ms (net.set i x') + x.weight ms = weightOf ms net + x'.weight ms :=
  sum_map_set hx (Station.weight ms) x'

/-- Neighbours stay covered when one station sees a message and some frames of this message that were
for it are gone. -/
theorem Covered.step (h : Service.Campaign request first signers) {j : Nat}
    (hm : Service.Sent request first signers m r)
    (hold : Covered cables request first signers magic net)
    (hmono : ∀ k m, SeesAt net k m → SeesAt net' k m)
    (honly : ∀ k m' r', Service.Sent request first signers m' r' → SeesAt net' k m' →
      SeesAt net k m' ∨ (k = j ∧ m' = m))
    (hself : SeesAt net' j m)
    (hframes : ∀ k c f, FrameAt net k c f → FrameAt net' k c f ∨
      (f = m.toFrame magic ∧ ∃ b, cables k c = some (j, b)))
    (hnew : ¬ SeesAt net j m → ∀ c e b, cables j c = some (e, b) →
      SeesAt net' e m ∨ FrameAt net' j c (m.toFrame magic)) :
    Covered cables request first signers magic net' := by
  intro k c e b m' r' hcable hm' hsees
  by_cases hbefore : SeesAt net k m'
  · rcases hold k c e b m' r' hcable hm' hbefore with hfar | hwaits
    · exact .inl (hmono e m' hfar)
    · rcases hframes k c _ hwaits with hwaits' | ⟨hframe, b', hcable'⟩
      · exact .inr hwaits'
      · -- the frame is gone, and so the station at the other end has seen the message
        obtain rfl := hm'.eq_of_toFrame h hm hframe
        rw [hcable] at hcable'
        cases hcable'
        exact .inl hself
  · obtain ⟨rfl, rfl⟩ := (honly k m' r' hm' hsees).resolve_left hbefore
    exact hnew hbefore c e b hcable

/-- Neighbours stay covered when a station hears a message, which it tells to all but the sender. -/
theorem Covered.hear (h : Service.Campaign request first signers)
    (hold : Covered cables request first signers magic net)
    (hnet : Staffed cables request first signers magic net') {j : Nat} {y : Station}
    (hy : net'[j]? = some y) (hm : Service.Sent request first signers m r)
    (hsees : ∀ k m, SeesAt net' k m ↔ SeesAt net k m)
    (hframes : ∀ k c f, FrameAt net k c f → FrameAt net' k c f ∨
      (f = m.toFrame magic ∧ ∃ b, cables k c = some (j, b)))
    {sender : Option PeerId}
    (hsender : ∀ c e b, cables j c = some (e, b) → some c = sender → SeesAt net e m)
    {kept : List Delivery} {outbox : List SignetPsbtMessage} {now : Instant}
    {z : Station} (hz : z = { y.hear m (m.toFrame magic) sender kept now with outbox }) :
    Covered cables request first signers magic (net'.set j z) ∧
      (∀ k m', SeesAt net k m' → SeesAt (net'.set j z) k m') ∧ SeesAt (net'.set j z) j m := by
  have hgood := hnet.good y (List.mem_of_getElem? hy)
  have hzsees : ∀ m', z.sees m' = (y.hear m (m.toFrame magic) sender kept now).sees m' :=
    fun _ => hz ▸ rfl
  have hgains : PeerQueues.Gains (m.toFrame magic) y.queues.registered.length y.queues z.queues :=
    hz ▸ Station.gains_hear
  have htold : ∀ c, c ∈ y.queues.registered → some c ≠ sender →
      m.toFrame magic ∈ z.queues.framesFor c := fun c hc hne =>
    hz ▸ Station.mem_framesFor_hear hc hne (hgood.served c hc)
  have hmono : ∀ k m', SeesAt net k m' → SeesAt (net'.set j z) k m' := by
    intro k m' hm'
    rw [seesAt_set hy]
    split
    · next hk =>
      subst hk
      rw [hzsees]
      exact Station.sees_hear_of_sees ((seesAt_iff hy).1 ((hsees k m').2 hm'))
    · exact (hsees k m').2 hm'
  have hself : SeesAt (net'.set j z) j m := by
    rw [seesAt_set hy, if_pos rfl, hzsees]
    exact Station.sees_hear_self
  refine ⟨hold.step h hm hmono (fun k m' r' hm' hk => ?_) hself (fun k c f hf => ?_)
    fun _ c e b hcable => ?_, hmono, hself⟩
  · rw [seesAt_set hy] at hk
    split at hk
    · next heq =>
      subst heq
      rw [hzsees] at hk
      rw [← hsees, seesAt_iff hy]
      exact ((hgood.sees_hear_iff h hm hm').1 hk).imp_right fun heq => ⟨rfl, heq.symm⟩
    · exact .inl ((hsees k m').1 hk)
  · refine (hframes k c f hf).imp_left fun hstays => ?_
    rw [frameAt_set hy]
    split
    · next hk =>
      subst hk
      exact hgains.keeps c f ((frameAt_iff hy).1 hstays)
    · exact hstays
  · by_cases hc : some c = sender
    · exact .inl (hmono e m (hsender c e b hcable hc))
    · right
      rw [frameAt_set hy, if_pos rfl]
      exact htold c ((hnet.ports j y hy c).2 ⟨(e, b), hcable⟩) hc

/-! ## The steps -/

/-- Handling a delivery keeps a network intact, and does not fail. -/
theorem Intact.handle (h : Service.Campaign request first signers)
    (hnet : Intact cables request first signers magic origin net)
    (ms : List SignetPsbtMessage) (hx : net[i]? = some x)
    {place : Nat} {result : Except Error (Option SignetPsbtMessage)}
    (hstep : x.handle place = some (x', result)) : (∃ answer, result = .ok answer) ∧
      Intact cables request first signers magic origin (net.set i x') ∧
      weightOf ms (net.set i x') < weightOf ms net := by
  obtain ⟨d, hd, _⟩ := Option.map_eq_some_iff.1 hstep
  obtain ⟨after, answer, hhandle, hgood⟩ :=
    (hnet.good x (List.mem_of_getElem? hx)).handle h hd
  cases hstep.symm.trans hhandle
  have hseesAt : ∀ k m, SeesAt (net.set i (x.handled place after answer)) k m ↔ SeesAt net k m := by
    intro k m
    rw [seesAt_set hx]
    split
    · next hk =>
      rw [hk, seesAt_iff hx]
      rfl
    · rfl
  have hframeAt : ∀ k a f, FrameAt (net.set i (x.handled place after answer)) k a f ↔
      FrameAt net k a f := by
    intro k a f
    rw [frameAt_set hx]
    split
    · next hk =>
      rw [hk, frameAt_iff hx]
      rfl
    · rfl
  refine ⟨⟨answer, rfl⟩, ⟨hnet.toStaffed.set hx hgood rfl rfl, ?_,
    (hseesAt origin request).2 hnet.begun⟩, ?_⟩
  · unfold Covered
    simp only [hseesAt, hframeAt]
    exact hnet.covered
  · have hsum := weightOf_set ms hx (x.handled place after answer)
    have hlt : (x.handled place after answer).weight ms < x.weight ms :=
      Station.weight_handled_lt (List.getElem?_eq_some_iff.1 hd).1 after answer
    omega

/-- Broadcasting a message keeps a network intact, and does not fail. -/
theorem Intact.send (h : Service.Campaign request first signers)
    (hnet : Intact cables request first signers magic origin net)
    (ms : List SignetPsbtMessage) (hx : net[i]? = some x)
    {place : Nat} (hm : x.outbox[place]? = some m) {now : Instant}
    (hkeep : x.engine.Retains m now) : ∃ x', x.send place now = .ok (some x') ∧
      Intact cables request first signers magic origin (net.set i x') ∧
      weightOf ms (net.set i x') < weightOf ms net := by
  have hgood := hnet.good x (List.mem_of_getElem? hx)
  obtain ⟨r, hsent, hsettled⟩ := hgood.waiting m (List.mem_of_getElem? hm)
  have hheard : (x.hear m (m.toFrame magic) none [] now).Good request first signers magic :=
    hgood.hear h hsent (by simp) (.inr hsettled)
  have hdone := hheard.eraseIdx hm Station.sees_hear_self
  have hstep := Station.send_of_retains hm hkeep
  rw [hgood.sameMagic] at hstep
  obtain ⟨hcovered, hmono, _⟩ := hnet.covered.hear h hnet.toStaffed hx hsent (fun _ _ => Iff.rfl)
    (fun _ _ _ hf => .inl hf) (fun _ _ _ _ hnone => absurd hnone (Option.some_ne_none _)) rfl
  refine ⟨_, hstep, ⟨hnet.toStaffed.set hx hdone Station.gains_hear.registered rfl, hcovered,
    hmono origin request hnet.begun⟩, ?_⟩
  have hsum := weightOf_set ms hx
    { x.hear m (m.toFrame magic) none [] now with outbox := x.outbox.eraseIdx place }
  have hlt : ({ x.hear m (m.toFrame magic) none [] now with
      outbox := x.outbox.eraseIdx place } : Station).weight ms < x.weight ms :=
    Station.weight_send_lt hgood.kept (List.getElem?_eq_some_iff.1 hm).1
  omega

/-- Taking a frame out of a queue. -/
theorem Staffed.withQueues (hnet : Staffed cables request first signers magic net)
    (ms : List SignetPsbtMessage) (hx : net[i]? = some x) {a : PeerId} {frame : Bytes}
    {queues : PeerQueues} (hlost : PeerQueues.Loses a frame x.queues queues) :
    Staffed cables request first signers magic (net.set i (x.withQueues queues)) ∧
      (∀ k m, SeesAt (net.set i (x.withQueues queues)) k m ↔ SeesAt net k m) ∧
      (∀ k c f, FrameAt net k c f → FrameAt (net.set i (x.withQueues queues)) k c f ∨
        (k = i ∧ c = a ∧ f = frame)) ∧
      weightOf ms (net.set i (x.withQueues queues)) < weightOf ms net := by
  have hgood := hnet.good x (List.mem_of_getElem? hx)
  refine ⟨hnet.set hx (hgood.withQueues hlost) hlost.registered rfl, fun k m => ?_,
    fun k c f hf => ?_, ?_⟩
  · rw [seesAt_set hx]
    split
    · next hk =>
      rw [hk, seesAt_iff hx]
      rfl
    · rfl
  · rw [frameAt_set hx]
    split
    · next hk =>
      subst hk
      rw [frameAt_iff hx] at hf
      exact (hlost.keeps c f hf).imp_right fun hgone => ⟨rfl, hgone⟩
    · exact .inl hf
  · have hsum := weightOf_set ms hx (x.withQueues queues)
    have hone : (x.withQueues queues).weight ms + 1 = x.weight ms :=
      Station.weight_withQueues hlost
    omega

/-- For a frame that waits there is a station at the other end of the cable. -/
theorem Staffed.exists_far (hnet : Staffed cables request first signers magic net)
    (hends : ∀ i a j b, cables i a = some (j, b) → j < net.length ∧ cables j b = some (i, a))
    (hx : net[i]? = some x) {a : PeerId} {place : Nat} {queues : PeerQueues} {frame : Bytes}
    (htake : x.queues.takeFrameAt a place = some (queues, frame)) :
    ∃ j b y, cables i a = some (j, b) ∧ cables j b = some (i, a) ∧
      (net.set i (x.withQueues queues))[j]? = some y := by
  have hwaits := (PeerQueues.loses_of_takeFrameAt htake).was
  have hport := ((hnet.good x (List.mem_of_getElem? hx)).frames a frame hwaits).1
  obtain ⟨⟨j, b⟩, hcable⟩ := (hnet.ports i x hx a).1 hport
  obtain ⟨hlt, hback⟩ := hends i a j b hcable
  have hlt' : j < (net.set i (x.withQueues queues)).length := by
    rwa [List.length_set]
  exact ⟨j, b, _, hcable, hback, List.getElem?_eq_getElem hlt'⟩

/-- Receiving a frame keeps a network intact, and does not fail. -/
theorem Intact.receive (h : Service.Campaign request first signers)
    (hnet : Intact cables request first signers magic origin net)
    (hms : ∀ m r, Service.Sent request first signers m r → m ∈ ms) (hx : net[i]? = some x)
    {a b : PeerId} {j place : Nat} {queues : PeerQueues} {frame : Bytes} {y : Station}
    {now : Instant} (htake : x.queues.takeFrameAt a place = some (queues, frame))
    (hcable : cables i a = some (j, b)) (hback : cables j b = some (i, a))
    (hy : (net.set i (x.withQueues queues))[j]? = some y)
    (hkeep : ∀ m, SignetPsbtMessage.ofFrame frame magic = .ok m → y.engine.Retains m now) :
    ∃ y' d, y.receive (some b) frame now = .ok (y', d) ∧
      Intact cables request first signers magic origin
        ((net.set i (x.withQueues queues)).set j y') ∧
      weightOf ms ((net.set i (x.withQueues queues)).set j y') < weightOf ms net := by
  have hlost := PeerQueues.loses_of_takeFrameAt htake
  obtain ⟨hstaffed, hseesAt, hframeAt, hweight⟩ := hnet.toStaffed.withQueues ms hx hlost
  obtain ⟨_, m, r, hsent, rfl, hsaw⟩ :=
    (hnet.good x (List.mem_of_getElem? hx)).frames a frame hlost.was
  generalize net.set i (x.withQueues queues) = rest at hy hstaffed hseesAt hframeAt hweight
  have hgood := hstaffed.good y (List.mem_of_getElem? hy)
  -- the frame that is gone was for this station
  have hgone : ∀ k c f, FrameAt net k c f → FrameAt rest k c f ∨
      (f = m.toFrame magic ∧ ∃ b, cables k c = some (j, b)) := by
    intro k c f hf
    refine (hframeAt k c f hf).imp_right ?_
    rintro ⟨rfl, rfl, rfl⟩
    exact ⟨rfl, b, hcable⟩
  rcases hgood.receive h hsent (hkeep m (hsent.ofFrame_toFrame h magic)) (some b) with
    ⟨hsees, hstep⟩ | ⟨hsees, d, decision, hstep, hheard⟩
  · have hsame : rest.set j y = rest := by
      obtain ⟨_, rfl⟩ := List.getElem?_eq_some_iff.1 hy
      exact List.set_getElem_self _
    have hseen : SeesAt rest j m := (seesAt_iff hy).2 hsees
    refine ⟨y, _, hstep, ?_⟩
    rw [hsame]
    refine ⟨⟨hstaffed, hnet.covered.step h hsent (fun k m' => (hseesAt k m').2)
      (fun k m' _ _ hm' => .inl ((hseesAt k m').1 hm')) hseen hgone
      fun hno => absurd ((hseesAt j m).1 hseen) hno, (hseesAt origin request).2 hnet.begun⟩, hweight⟩
  · have hsender : ∀ c e b', cables j c = some (e, b') → some c = some b → SeesAt net e m := by
      rintro c e b' hcable' ⟨⟩
      rw [hback] at hcable'
      cases hcable'
      exact (seesAt_iff hx).2 hsaw
    obtain ⟨hcovered, hmono, _⟩ :=
      hnet.covered.hear h hstaffed hy hsent hseesAt hgone hsender rfl
    refine ⟨_, _, hstep, ⟨hstaffed.set hy hheard Station.gains_hear.registered rfl, hcovered,
      hmono origin request hnet.begun⟩, ?_⟩
    have hsum := weightOf_set ms hy (y.hear m (m.toFrame magic) (some b) [d] now)
    have hle : (y.hear m (m.toFrame magic) (some b) [d] now).weight ms ≤ y.weight ms :=
      Station.weight_hear_le hgood.kept (hms m r hsent) hsees d
    omega

end Steps

/-! ## Runs -/

section Run

variable {ms : List SignetPsbtMessage}

/-- What an assembled network is like before the request. -/
theorem Assembled.staffed
    (hnet : Assembled cables magic first.quorum request.nonce signers net) :
    Staffed cables request first signers magic net where
  good x hx := (hnet.fit x hx).good (hnet.idle x hx) (hnet.unheard x hx) (hnet.unstarted x hx)
  members := hnet.members
  ports := hnet.ports

/-- The request makes an assembled network an intact one. -/
theorem Assembled.inject (h : Service.Campaign request first signers)
    (hms : ∀ m r, Service.Sent request first signers m r → m ∈ ms)
    (hnet : Assembled cables magic first.quorum request.nonce signers net) {x : Station}
    (hx : net[origin]? = some x) {now : Instant} (hkeep : x.engine.Retains request now) :
    ∃ x' d, x.receive none (request.toFrame magic) now = .ok (x', d) ∧
      Intact cables request first signers magic origin (net.set origin x') ∧
      weightOf ms (net.set origin x') ≤ weightOf ms net := by
  have hstaffed := hnet.staffed
  have hmem := List.mem_of_getElem? hx
  have hgood := hstaffed.good x hmem
  have hsent : Service.Sent request first signers request first := .request
  have hblank : Covered cables request first signers magic net := by
    rintro k a j b m r _ hm ⟨y, hy, hsees⟩
    rw [hnet.unheard y (List.mem_of_getElem? hy) m hm.nonce] at hsees
    cases hsees
  rcases hgood.receive h hsent hkeep none with ⟨hsees, _⟩ | ⟨hsees, d, decision, hstep, hheard⟩
  · rw [hnet.unheard x hmem request rfl] at hsees
    cases hsees
  · obtain ⟨hcovered, _, hself⟩ := hblank.hear h hstaffed hx hsent (fun _ _ => Iff.rfl)
      (fun _ _ _ hf => .inl hf) (fun _ _ _ _ hnone => absurd hnone (Option.some_ne_none _)) rfl
    refine ⟨_, _, hstep, ⟨hstaffed.set hx hheard Station.gains_hear.registered rfl, hcovered,
      hself⟩, ?_⟩
    have hsum := weightOf_set ms hx (x.hear request (request.toFrame magic) none [d] now)
    have hle : (x.hear request (request.toFrame magic) none [d] now).weight ms ≤ x.weight ms :=
      Station.weight_hear_le hgood.kept (hms request first hsent) hsees d
    omega

/-- **A run keeps a network intact**, no delivery fails in it, and it ends. -/
theorem Intact.of_gossip (h : Service.Campaign request first signers)
    (hms : ∀ m r, Service.Sent request first signers m r → m ∈ ms)
    (hnet₀ : Assembled cables magic first.quorum request.nonce signers net₀)
    (hrun : Gossip cables request magic origin net₀ events net) :
    Intact cables request first signers magic origin net ∧
      (∀ i result, .handle i result ∈ events → ∃ answer, result = .ok answer) ∧
      events.length + weightOf ms net ≤ weightOf ms net₀ := by
  induction hrun with
  | inject now hx hkeep hstep =>
    obtain ⟨_, _, hinject, hnet, hweight⟩ := hnet₀.inject h hms hx hkeep
    rw [hstep] at hinject
    cases hinject
    refine ⟨hnet, fun _ _ hmem => absurd hmem List.not_mem_nil, ?_⟩
    rwa [List.length_nil, Nat.zero_add]
  | receive i a j b place now _ hx htake hcable hy hkeep hstep ih =>
    obtain ⟨hnet, hhandled, hweight⟩ := ih
    obtain ⟨_, _, hreceive, hnet', hless⟩ := hnet.receive h hms hx htake hcable
      (hnet₀.ends i a j b hcable).2 hy hkeep
    rw [hstep] at hreceive
    cases hreceive
    refine ⟨hnet', fun i result hmem => ?_, ?_⟩
    · exact hhandled i result ((List.mem_cons.1 hmem).resolve_left fun heq => by cases heq)
    · rw [List.length_cons]
      omega
  | handle i place _ hx hstep ih =>
    obtain ⟨hnet, hhandled, hweight⟩ := ih
    obtain ⟨hok, hnet', hless⟩ := hnet.handle h ms hx hstep
    refine ⟨hnet', fun i result hmem => ?_, ?_⟩
    · rcases List.mem_cons.1 hmem with heq | hold
      · cases heq
        exact hok
      · exact hhandled i result hold
    · rw [List.length_cons]
      omega
  | send i place now _ hx hm hkeep hstep ih =>
    obtain ⟨hnet, hhandled, hweight⟩ := ih
    obtain ⟨_, hsend, hnet', hless⟩ := hnet.send h ms hx hm hkeep
    rw [hstep] at hsend
    cases hsend
    refine ⟨hnet', fun i result hmem => ?_, ?_⟩
    · exact hhandled i result ((List.mem_cons.1 hmem).resolve_left fun heq => by cases heq)
    · rw [List.length_cons]
      omega

theorem Gossip.length_eq {request : SignetPsbtMessage}
    (hrun : Gossip cables request magic origin net₀ events net) : net.length = net₀.length := by
  induction hrun with
  | inject => exact List.length_set
  | receive => simp only [List.length_set, *]
  | handle => simp only [List.length_set, *]
  | send => simp only [List.length_set, *]

theorem Gossip.ends {q : Quorum} {nonce : UInt64} {request : SignetPsbtMessage}
    (hrun : Gossip cables request magic origin net₀ events net)
    (hnet₀ : Assembled cables magic q nonce signers net₀) :
    ∀ i a j b, cables i a = some (j, b) → j < net.length ∧ cables j b = some (i, a) := by
  rw [hrun.length_eq]
  exact hnet₀.ends

/-- Before the request only what was not seen weighs. -/
theorem Assembled.weightOf_le {q : Quorum} {nonce : UInt64}
    (hnet : Assembled cables magic q nonce signers net) (ms : List SignetPsbtMessage) :
    weightOf ms net ≤ ms.length * (net.map fun x => 2 * x.degree + 2).sum := by
  have hidle := hnet.idle
  clear hnet
  unfold weightOf
  induction net with
  | nil => exact Nat.zero_le _
  | cons x net ih =>
    have hrest := ih fun y hy => hidle y (List.mem_cons_of_mem x hy)
    have hx : x.weight ms ≤ ms.length * (2 * x.degree + 2) :=
      (hidle x (List.mem_cons_self ..)).weight_le ms
    rw [List.map_cons, List.sum_cons, List.map_cons, List.sum_cons, Nat.mul_add]
    exact Nat.add_le_add hx hrest

end Run

end SignetFederation
