import SignetFederation.Proofs.Service.Gossip

/-!
# Runs that come to rest

A window without a time to live that has room for all messages that honest signers may send forgets
none of them (`Station.Roomy`), and this stays so. Since in an intact network whatever waits can be
taken, and every step takes from its weight, a run can then be continued until nothing waits
(`Gossip.exists_idle`).
-/

namespace SignetFederation

namespace Station

variable {ms : List SignetPsbtMessage} {x x' : Station} {m : SignetPsbtMessage} {frame : Bytes}
  {sender : Option PeerId} {kept : List Delivery} {now : Instant}

/-- The window keeps what it has seen, and has room for what it has not seen. -/
structure Roomy (ms : List SignetPsbtMessage) (x : Station) : Prop where
  lasting : x.engine.window.ttl = none
  room : x.engine.window.order.length + x.unseen ms ≤ x.engine.window.capacity

namespace Roomy

/-- A service that was just made has room for some messages if its window does. -/
theorem fresh {policy : RelayPolicy} {magic : Magic} {q : Quorum} {signer : Option LocalSigner}
    {peers : Nat} (hlasting : policy.ttl = none) (hroom : ms.length ≤ policy.capacity) :
    (Station.fresh policy magic q signer peers).Roomy ms where
  lasting := by
    change policy.ttlNanos = none
    unfold RelayPolicy.ttlNanos
    rw [hlasting]
    rfl
  room := by
    have hunseen : (Station.fresh policy magic q signer peers).unseen ms ≤ ms.length :=
      List.countP_le_length
    change 0 + _ ≤ max policy.capacity 1
    omega

/-- A roomy station forgets nothing. -/
theorem retains (h : x.Roomy ms) (hm : m ∈ ms) (now : Instant) : x.engine.Retains m now := by
  refine ⟨?_, ?_⟩
  · unfold SeenWindow.expire
    rw [h.lasting]
  · cases hsees : x.sees m with
    | true => exact .inl hsees
    | false =>
      have hpos : 0 < x.unseen ms := List.countP_pos_iff.2 ⟨m, hm, by rw [hsees]; rfl⟩
      have hroom := h.room
      exact .inr (by omega)

theorem of_engine (h : x.Roomy ms) (hengine : x'.engine = x.engine) : x'.Roomy ms := by
  have hunseen : x'.unseen ms = x.unseen ms := by
    unfold unseen sees
    rw [hengine]
  exact ⟨by rw [hengine]; exact h.lasting, by rw [hengine, hunseen]; exact h.room⟩

theorem withQueues (h : x.Roomy ms) (queues : PeerQueues) : (x.withQueues queues).Roomy ms :=
  h.of_engine rfl

/-- What is new takes the room that was kept for it. -/
theorem hear (h : x.Roomy ms) (hm : m ∈ ms) : (x.hear m frame sender kept now).Roomy ms := by
  have hengine : (x.hear m frame sender kept now).engine = x.engine.note m now := rfl
  have hroom := h.room
  cases hsees : x.sees m with
  | true =>
    refine h.of_engine ?_
    rw [hengine, RelayEngine.note_of_sees hsees]
  | false =>
    have hunseen : (x.hear m frame sender kept now).unseen ms < x.unseen ms :=
      unseen_hear_lt hm hsees
    have hwindow : (x.engine.note m now).window = { x.engine.window with
        order := x.engine.window.order ++ [(x.engine.policy.dedup.keyOf m, now)]
        seen := x.engine.window.seen.insert (x.engine.policy.dedup.keyOf m) } :=
      if_neg (Bool.eq_false_iff.1 hsees)
    refine ⟨?_, ?_⟩
    · rw [hengine, hwindow]
      exact h.lasting
    · rw [hengine, hwindow]
      simp only [List.length_append, List.length_singleton]
      omega

variable {request : SignetPsbtMessage} {first r : Round} {signers : List LocalSigner}
  {magic : Magic}

theorem receive (h : x.Roomy ms) (hx : x.Good request first signers magic)
    (hcampaign : Service.Campaign request first signers)
    (hsent : Service.Sent request first signers m r) (hm : m ∈ ms) {d : Decision}
    (hstep : x.receive sender (m.toFrame magic) now = .ok (x', d)) : x'.Roomy ms := by
  rcases hx.receive hcampaign hsent (h.retains hm now) sender with
    ⟨_, hreceive⟩ | ⟨_, _, _, hreceive, _⟩
  · rw [hstep] at hreceive
    cases hreceive
    exact h
  · rw [hstep] at hreceive
    cases hreceive
    exact h.hear hm

theorem handle (h : x.Roomy ms) (hx : x.Good request first signers magic)
    (hcampaign : Service.Campaign request first signers) {place : Nat}
    {result : Except Error (Option SignetPsbtMessage)}
    (hstep : x.handle place = some (x', result)) : x'.Roomy ms := by
  obtain ⟨d, hd, _⟩ := Option.map_eq_some_iff.1 hstep
  obtain ⟨after, answer, hhandle, _⟩ := hx.handle hcampaign hd
  cases hstep.symm.trans hhandle
  exact h.of_engine rfl

theorem send (h : x.Roomy ms) (hm : m ∈ ms) {place : Nat} (hplace : x.outbox[place]? = some m)
    (hstep : x.send place now = .ok (some x')) : x'.Roomy ms := by
  rw [send_of_retains hplace (h.retains hm now)] at hstep
  cases hstep
  exact (h.hear hm).of_engine rfl

end Roomy

end Station

variable {cables : Cables} {request : SignetPsbtMessage} {first : Round}
  {signers : List LocalSigner} {magic : Magic} {origin : Nat} {net₀ net : List Station}
  {events : List GossipEvent} {ms : List SignetPsbtMessage}

theorem roomy_set {i : Nat} {x' : Station} (h : ∀ x ∈ net, x.Roomy ms) (hx' : x'.Roomy ms) :
    ∀ x ∈ net.set i x', x.Roomy ms := fun x hx =>
  (List.mem_or_eq_of_mem_set hx).elim (h x) fun heq => heq ▸ hx'

/-- In a run the stations stay roomy. -/
theorem Gossip.roomy (h : Service.Campaign request first signers)
    (hms : ∀ m r, Service.Sent request first signers m r → m ∈ ms)
    (hnet₀ : Assembled cables magic first.quorum request.nonce signers net₀)
    (hroomy : ∀ x ∈ net₀, x.Roomy ms)
    (hrun : Gossip cables request magic origin net₀ events net) : ∀ x ∈ net, x.Roomy ms := by
  induction hrun with
  | inject now hx hkeep hstep =>
    have hmem := List.mem_of_getElem? hx
    exact roomy_set hroomy ((hroomy _ hmem).receive (hnet₀.staffed.good _ hmem) h .request
      (hms _ _ .request) hstep)
  | @receive events net x y y' queues frame d i a j b place now hrun hx htake _ hy _ hstep ih =>
    have hnet := (Intact.of_gossip h hms hnet₀ hrun).1
    have hlost := PeerQueues.loses_of_takeFrameAt htake
    obtain ⟨_, m, r, hsent, rfl, _⟩ :=
      (hnet.good x (List.mem_of_getElem? hx)).frames a frame hlost.was
    have hrest : ∀ z ∈ net.set i (x.withQueues queues), z.Roomy ms :=
      roomy_set ih ((ih x (List.mem_of_getElem? hx)).withQueues queues)
    have hmem := List.mem_of_getElem? hy
    exact roomy_set hrest ((hrest _ hmem).receive
      ((hnet.toStaffed.withQueues ms hx hlost).1.good _ hmem) h hsent (hms m r hsent) hstep)
  | handle i place hrun hx hstep ih =>
    have hmem := List.mem_of_getElem? hx
    have hgood := (Intact.of_gossip h hms hnet₀ hrun).1.good _ hmem
    exact roomy_set ih ((ih _ hmem).handle hgood h hstep)
  | send i place now hrun hx hm hkeep hstep ih =>
    have hmem := List.mem_of_getElem? hx
    have hgood := (Intact.of_gossip h hms hnet₀ hrun).1.good _ hmem
    obtain ⟨r, hsent, _⟩ := hgood.waiting _ (List.mem_of_getElem? hm)
    exact roomy_set ih ((ih _ hmem).send (hms _ r hsent) hm hstep)

/-- Whatever waits in a station can be taken in a step that continues the run. -/
theorem Gossip.exists_step (h : Service.Campaign request first signers)
    (hms : ∀ m r, Service.Sent request first signers m r → m ∈ ms)
    (hnet₀ : Assembled cables magic first.quorum request.nonce signers net₀)
    (hroomy : ∀ x ∈ net₀, x.Roomy ms)
    (hrun : Gossip cables request magic origin net₀ events net) {x : Station} (hx : x ∈ net)
    (hbusy : ¬ x.Idle) : ∃ e net', Gossip cables request magic origin net₀ (e :: events) net' ∧
      weightOf ms net' < weightOf ms net := by
  have hnet := (Intact.of_gossip h hms hnet₀ hrun).1
  have hroom := hrun.roomy h hms hnet₀ hroomy
  have hgood := hnet.good x hx
  obtain ⟨i, hi⟩ := List.mem_iff_getElem?.1 hx
  cases hdeliveries : x.deliveries with
  | cons d rest =>
    have hd : x.deliveries[0]? = some d := by rw [hdeliveries]; rfl
    obtain ⟨x', answer, hstep, _⟩ := hgood.handle h hd
    exact ⟨_, _, .handle i 0 hrun hi hstep, (hnet.handle h ms hi hstep).2.2⟩
  | nil =>
    cases houtbox : x.outbox with
    | cons m rest =>
      have hm : x.outbox[0]? = some m := by rw [houtbox]; rfl
      obtain ⟨r, hsent, _⟩ := hgood.waiting m (List.mem_of_getElem? hm)
      have hkeep := (hroom x hx).retains (hms m r hsent) 0
      obtain ⟨x', hstep, _, hless⟩ := hnet.send h ms hi hm hkeep
      exact ⟨_, _, .send i 0 0 hrun hi hm hkeep hstep, hless⟩
    | nil =>
      have hwaits : ∃ a frame, frame ∈ x.queues.framesFor a := by
        by_contra hno
        refine hbusy ⟨fun a => List.eq_nil_iff_forall_not_mem.2 fun frame hframe => ?_,
          hdeliveries, houtbox⟩
        exact hno ⟨a, frame, hframe⟩
      obtain ⟨a, frame, hframe⟩ := hwaits
      obtain ⟨_, m, r, hsent, hm, _⟩ := hgood.frames a frame hframe
      obtain ⟨place, queues, htake⟩ := PeerQueues.exists_takeFrameAt hframe
      obtain ⟨j, b, y, hcable, hback, hy⟩ :=
        hnet.toStaffed.exists_far (hrun.ends hnet₀) hi htake
      have hkeep : ∀ m', SignetPsbtMessage.ofFrame frame magic = .ok m' → y.engine.Retains m' 0 := by
        intro m' hm'
        rw [hm, hsent.ofFrame_toFrame h magic] at hm'
        cases hm'
        exact (roomy_set hroom ((hroom x hx).withQueues queues) y
          (List.mem_of_getElem? hy)).retains (hms m r hsent) 0
      obtain ⟨y', d, hstep, _, hless⟩ := hnet.receive h hms hi htake hcable hback hy hkeep
      exact ⟨_, _, .receive i a j b place 0 hrun hi htake hcable hy hkeep hstep, hless⟩

/-- **A run can be brought to rest.** -/
theorem Gossip.exists_idle (h : Service.Campaign request first signers)
    (hms : ∀ m r, Service.Sent request first signers m r → m ∈ ms)
    (hnet₀ : Assembled cables magic first.quorum request.nonce signers net₀)
    (hroomy : ∀ x ∈ net₀, x.Roomy ms)
    (hrun : Gossip cables request magic origin net₀ events net) :
    ∃ after net', Gossip cables request magic origin net₀ (after ++ events) net' ∧
      ∀ x ∈ net', x.Idle := by
  induction hweight : weightOf ms net using Nat.strong_induction_on generalizing events net with
  | _ weight ih =>
    by_cases hidle : ∀ x ∈ net, x.Idle
    · exact ⟨[], net, hrun, hidle⟩
    · simp only [not_forall] at hidle
      obtain ⟨x, hx, hbusy⟩ := hidle
      obtain ⟨e, next, hnext, hless⟩ := hrun.exists_step h hms hnet₀ hroomy hx hbusy
      obtain ⟨after, net', hdone, hrest⟩ := ih _ (hweight ▸ hless) hnext rfl
      refine ⟨after ++ [e], net', ?_, hrest⟩
      rwa [List.append_assoc]

end SignetFederation
