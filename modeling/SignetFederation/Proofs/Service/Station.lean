import SignetFederation.Proofs.Service.Exchange
import SignetFederation.Proofs.Service.Queues

/-!
# A service among honest signers

A station is a service with the messages that it is about to broadcast: a delivery is processed and
its answer is broadcast, and other things may happen in between. `Good` is what holds of a station at
any time while honest signers answer a request: all that waits in it is of these signers, what it has
seen is waiting for it or is in its session, and what its own signer signed is in a message that it
has sent or is about to send. Hearing a message keeps it so (`Good.hear`, `Good.receive`), and so does
handling a delivery, which does not fail (`Good.handle`). Every step brings the station closer to its
rest: `weight` goes down.
-/

namespace SignetFederation

/-- A service with the messages that it is about to broadcast. -/
structure Station where
  service : Service
  outbox : List SignetPsbtMessage

namespace Station

/-- The engine. -/
def engine (x : Station) : RelayEngine := x.service.node.engine

/-- The queues of the peers. -/
def queues (x : Station) : PeerQueues := x.service.node.transport

/-- The messages that wait to be processed. -/
def deliveries (x : Station) : List Delivery := x.service.node.deliveries.getD []

/-- Whether a message with the same key was seen. -/
def sees (x : Station) (m : SignetPsbtMessage) : Bool := x.engine.sees m

/-- The round of a nonce. -/
def round? (x : Station) (nonce : UInt64) : Option Round :=
  x.service.sessions.bind fun s => s.get? nonce

/-- The station with another node in its service. -/
def withNode (x : Station) (node : RelayNode PeerQueues) : Station :=
  { x with service := { x.service with node } }

/-- The station with other queues. -/
def withQueues (x : Station) (queues : PeerQueues) : Station :=
  x.withNode { x.service.node with transport := queues }

/-! ## What a station does -/

/-- Handles a frame from a peer, or from the station itself. -/
def receive (x : Station) (sender : Option PeerId) (frame : Bytes) (now : Instant) :
    Except ClockOverflow (Station × Decision) := do
  let (service, decision) ← x.service.receive sender frame now
  return ({ x with service }, decision)

/-- The service with one of its deliveries taken out. -/
def withoutDelivery (x : Station) (place : Nat) : Service :=
  { x.service with node := { x.service.node with
    deliveries := x.service.node.deliveries.map (·.eraseIdx place) } }

/-- Processes one of the deliveries; the answer is yet to be broadcast. -/
def handle (x : Station) (place : Nat) :
    Option (Station × Except Error (Option SignetPsbtMessage)) :=
  x.deliveries[place]?.map fun d =>
    let (service, result) := (x.withoutDelivery place).handle d
    (⟨service, x.outbox ++ result.toOption.join.toList⟩, result)

/-- Broadcasts one of the messages that it is about to broadcast. -/
def send (x : Station) (place : Nat) (now : Instant) : Except ClockOverflow (Option Station) :=
  match x.outbox[place]? with
  | none => .ok none
  | some m => do
    let (node, _) ← x.service.node.broadcast m now
    return some ⟨{ x.service with node }, x.outbox.eraseIdx place⟩

/-- What a service does with a delivery at once is to handle it, and to send what comes of it. -/
theorem handle_of_settle {x : Station} {place : Nat} {d : Delivery}
    (hd : x.deliveries[place]? = some d) {now : Instant} {s : Service} {done : Processed}
    (h : (x.withoutDelivery place).settle d now = .ok (s, done)) :
    ∃ y, x.handle place = some (y, done.result) ∧
      ((done.sent = none ∧ y = ⟨s, x.outbox⟩) ∨
        (done.sent.isSome = true ∧ y.send x.outbox.length now = .ok (some ⟨s, x.outbox⟩))) := by
  have hhandle : x.handle place = some (⟨((x.withoutDelivery place).handle d).1, x.outbox ++
      ((x.withoutDelivery place).handle d).2.toOption.join.toList⟩,
        ((x.withoutDelivery place).handle d).2) := by
    unfold handle
    rw [hd]
    rfl
  unfold Service.settle at h
  generalize (x.withoutDelivery place).handle d = handled at h hhandle
  obtain ⟨service, result⟩ := handled
  rw [hhandle]
  match result with
  | .ok (some m) =>
    obtain ⟨⟨node, sent⟩, hbroadcast, heq⟩ := bind_eq_ok_iff.1 h
    cases heq
    refine ⟨_, rfl, .inr ⟨rfl, ?_⟩⟩
    unfold send
    simp only [Except.toOption, Option.join_some, Option.toList_some, List.getElem?_concat_length,
      hbroadcast]
    change Except.ok (some (Station.mk _ ((x.outbox ++ [m]).eraseIdx x.outbox.length))) = _
    rw [List.eraseIdx_append_of_length_le (Nat.le_refl _), Nat.sub_self, List.eraseIdx_cons_zero,
      List.append_nil]
  | .ok none =>
    cases h
    exact ⟨_, rfl, .inl ⟨rfl, by simp [Except.toOption]⟩⟩
  | .error why =>
    cases h
    exact ⟨_, rfl, .inl ⟨rfl, by simp [Except.toOption]⟩⟩

/-- The station after it saw a message: it has noted the message, sent a frame to all peers but the
one it got it from, and kept something to be processed. -/
def hear (x : Station) (m : SignetPsbtMessage) (frame : Bytes) (sender : Option PeerId)
    (kept : List Delivery) (now : Instant) : Station :=
  x.withNode {
    engine := x.engine.note m now
    transport := (Transport.sendAll x.queues frame
      (x.queues.registered.filter fun p => some p ≠ sender)).1
    deliveries := x.service.node.deliveries.map (· ++ kept) }

/-- The station after it handled a delivery. -/
def handled (x : Station) (place : Nat) (after : Sessions) (result : Option SignetPsbtMessage) :
    Station :=
  ⟨{ x.withoutDelivery place with sessions := some after }, x.outbox ++ result.toList⟩

variable {x : Station} {m m' : SignetPsbtMessage} {frame : Bytes} {sender : Option PeerId}
  {kept : List Delivery} {now : Instant}

section Receive

variable (hframe : SignetPsbtMessage.ofFrame frame x.engine.magic = .ok m)
  (hknown : x.engine.knowsSigners m = true) (hretains : x.engine.Retains m now)

include hframe hknown hretains

theorem receive_of_sees (hsees : x.sees m = true) :
    x.receive sender frame now = .ok (x, .drop .duplicate) := by
  unfold receive Service.receive
  rw [RelayNode.receive_of_sees hframe hknown hretains hsees]
  rfl

theorem receive_of_new (hflood : x.engine.policy.flood = true) (hsees : x.sees m = false) :
    x.receive sender frame now =
      .ok (x.hear m frame sender [⟨m, x.engine.wantsSignature m⟩] now,
        .accept (x.queues.registered.filter fun p => some p ≠ sender)
          (x.engine.wantsSignature m)) := by
  have htargets : x.engine.targets sender x.queues.registered =
      x.queues.registered.filter fun p => some p ≠ sender := if_pos hflood
  have haccept : x.service.node.accept sender m frame now =
      (x.hear m frame sender [⟨m, x.engine.wantsSignature m⟩] now).service.node := by
    unfold RelayNode.accept hear
    change RelayNode.mk _ (Transport.sendAll x.queues frame
      (x.engine.targets sender x.queues.registered)).1 _ = _
    rw [htargets]
    rfl
  unfold receive Service.receive
  rw [RelayNode.receive_of_new hframe hknown hretains hsees, haccept]
  change Except.ok (_, Decision.accept (x.engine.targets sender x.queues.registered) _) = _
  rw [htargets]
  rfl

end Receive

theorem send_of_retains {place : Nat} (hm : x.outbox[place]? = some m)
    (hretains : x.engine.Retains m now) : x.send place now =
      .ok (some { x.hear m (m.toFrame x.engine.magic) none [] now with
        outbox := x.outbox.eraseIdx place }) := by
  have hall : (x.queues.registered.filter fun p => some p ≠ none) = x.queues.registered :=
    List.filter_eq_self.2 fun p _ => by simp
  have hkept : x.service.node.deliveries.map (· ++ []) = x.service.node.deliveries := by
    cases x.service.node.deliveries <;> simp
  unfold send
  rw [hm]
  change (x.service.node.broadcast m now >>= _) = _
  rw [RelayNode.broadcast_of_retains hretains]
  unfold hear
  rw [hall, hkept]
  rfl

theorem round?_eq {sessions : Sessions} (h : x.service.sessions = some sessions) (nonce : UInt64) :
    x.round? nonce = sessions.get? nonce := by
  unfold round?
  rw [h]
  rfl

/-! ## A station that has heard a message -/

theorem sees_hear (m' : SignetPsbtMessage) : (x.hear m frame sender kept now).sees m' =
    (x.engine.policy.dedup.keyOf m == x.engine.policy.dedup.keyOf m' || x.sees m') :=
  RelayEngine.sees_note m'

theorem sees_hear_self : (x.hear m frame sender kept now).sees m = true :=
  RelayEngine.sees_note_self

theorem sees_hear_of_sees (h : x.sees m' = true) :
    (x.hear m frame sender kept now).sees m' = true := by
  rw [sees_hear, h, Bool.or_true]

theorem deliveries_hear (h : x.service.node.deliveries.isSome = true) :
    (x.hear m frame sender kept now).deliveries = x.deliveries ++ kept := by
  obtain ⟨ds, hds⟩ := Option.isSome_iff_exists.1 h
  unfold deliveries hear withNode
  simp [hds]

theorem gains_hear : PeerQueues.Gains frame x.queues.registered.length x.queues
    (x.hear m frame sender kept now).queues :=
  (PeerQueues.sendAll_gains x.queues frame _).mono (List.length_filter_le _ _)

theorem mem_framesFor_hear {peer : PeerId} (hpeer : peer ∈ x.queues.registered)
    (hne : some peer ≠ sender) (hserves : x.queues.Serves peer) :
    frame ∈ (x.hear m frame sender kept now).queues.framesFor peer :=
  PeerQueues.mem_framesFor_sendAll (List.mem_filter.2 ⟨hpeer, decide_eq_true hne⟩) hserves

/-! ## Good stations -/

/-- A station of the quorum that floods messages and tells them apart by nonce and signers, and whose
signer, if there is one, is one of the signers. -/
structure Fit (q : Quorum) (signers : List LocalSigner) (magic : Magic) (x : Station) : Prop where
  sameMagic : x.engine.magic = magic
  quorum : x.engine.quorum = some q
  flood : x.engine.policy.flood = true
  dedup : x.engine.policy.dedup = .nonceAndSigners
  localKey : x.engine.localKey = x.service.signer.map LocalSigner.publicKey
  signer : ∀ l, x.service.signer = some l → l ∈ signers
  kept : x.service.node.deliveries.isSome = true
  sessions : ∃ sessions, x.service.sessions = some sessions ∧ sessions.Sound q
  served : ∀ peer ∈ x.queues.registered, x.queues.Serves peer

/-- The session of a nonce holds what another round holds, and the signature of the station's own
signer. -/
def Settled (x : Station) (nonce : UInt64) (r : Round) : Prop :=
  ∃ r', x.round? nonce = some r' ∧
    (∀ slot s, r.signature? slot = some s → r'.signature? slot = some s) ∧
    ∀ l, x.service.signer = some l → (r'.signature? l.slot).isSome = true

/-- Nothing waits in a station. -/
structure Idle (x : Station) : Prop where
  frames : ∀ a, x.queues.framesFor a = []
  deliveries : x.deliveries = []
  outbox : x.outbox = []

/-- A station among honest signers. What waits in its queues, to be processed or to be broadcast is
of them. What it has seen waits to be processed or is settled in its session. If its own signature is
in the session, it is also in a message that was seen or is about to be broadcast. -/
structure Good (request : SignetPsbtMessage) (first : Round) (signers : List LocalSigner)
    (magic : Magic) (x : Station) : Prop extends Fit first.quorum signers magic x where
  frames : ∀ peer, ∀ f ∈ x.queues.framesFor peer, peer ∈ x.queues.registered ∧
    ∃ m r, Service.Sent request first signers m r ∧ f = m.toFrame magic ∧ x.sees m = true
  pending : ∀ d ∈ x.deliveries, ∃ r, Service.Sent request first signers d.message r ∧
    x.sees d.message = true ∧
    ∀ l, x.service.signer = some l → d.sign = false → (r.signature? l.slot).isSome = true
  waiting : ∀ m ∈ x.outbox, ∃ r, Service.Sent request first signers m r ∧
    x.Settled request.nonce r
  rounds : ∀ r, x.round? request.nonce = some r → Round.Honest first signers r
  merged : ∀ m r, Service.Sent request first signers m r → x.sees m = true →
    (∃ d ∈ x.deliveries, d.message = m) ∨ x.Settled request.nonce r
  told : ∀ l r, x.service.signer = some l → x.round? request.nonce = some r →
    (r.signature? l.slot).isSome = true → ∃ m r', Service.Sent request first signers m r' ∧
      (r'.signature? l.slot).isSome = true ∧ (x.sees m = true ∨ m ∈ x.outbox)

variable {q : Quorum} {request : SignetPsbtMessage} {first r : Round} {signers : List LocalSigner}
  {magic : Magic}

theorem Fit.hear (hx : x.Fit q signers magic) :
    (x.hear m frame sender kept now).Fit q signers magic where
  sameMagic := hx.sameMagic
  quorum := hx.quorum
  flood := hx.flood
  dedup := hx.dedup
  localKey := hx.localKey
  signer := hx.signer
  kept := by
    have hsome := hx.kept
    change (x.service.node.deliveries.map _).isSome = true
    rwa [Option.isSome_map]
  sessions := hx.sessions
  served peer hpeer := by
    rw [gains_hear.registered] at hpeer
    exact (gains_hear.serves peer).2 (hx.served peer hpeer)

theorem Fit.withQueues {queues : PeerQueues} {peer : PeerId} (hx : x.Fit q signers magic)
    (hlost : PeerQueues.Loses peer frame x.queues queues) :
    (x.withQueues queues).Fit q signers magic :=
  { hx with
    served := fun other hother => by
      change other ∈ queues.registered at hother
      rw [hlost.registered] at hother
      exact (hlost.serves other).2 (hx.served other hother) }

/-- A station that has not heard of the request. -/
theorem Fit.good (hx : x.Fit first.quorum signers magic) (hidle : x.Idle)
    (hunheard : ∀ m, m.nonce = request.nonce → x.sees m = false)
    (hunstarted : x.round? request.nonce = none) : x.Good request first signers magic where
  toFit := hx
  frames peer f hf := by
    rw [hidle.frames] at hf
    cases hf
  pending d hd := by
    rw [hidle.deliveries] at hd
    cases hd
  waiting m hm := by
    rw [hidle.outbox] at hm
    cases hm
  rounds r hr := by
    rw [hunstarted] at hr
    cases hr
  merged m r hm hsees := by
    rw [hunheard m hm.nonce] at hsees
    cases hsees
  told l r hl hr := by
    rw [hunstarted] at hr
    cases hr

namespace Good

variable (hx : x.Good request first signers magic)

include hx

/-- A station that has seen another message among the honest ones has seen that message. -/
theorem sees_hear_iff (h : Service.Campaign request first signers) {r r' : Round}
    (hm : Service.Sent request first signers m r) (hm' : Service.Sent request first signers m' r') :
    (x.hear m frame sender kept now).sees m' = true ↔ x.sees m' = true ∨ m = m' := by
  rw [sees_hear, Bool.or_eq_true, beq_iff_eq, hx.dedup, or_comm]
  exact or_congr_right ⟨fun hkey => (hm.eq_of_keyOf h hm' hkey).1, fun heq => heq ▸ rfl⟩

/-- Losing a frame. -/
theorem withQueues {queues : PeerQueues} {peer : PeerId}
    (hlost : PeerQueues.Loses peer frame x.queues queues) :
    (x.withQueues queues).Good request first signers magic :=
  { hx.toFit.withQueues hlost with
    frames := fun other f hf => by
      obtain ⟨hother, hframe⟩ := hx.frames other f (hlost.only other f hf)
      exact ⟨hlost.registered.symm ▸ hother, hframe⟩
    pending := hx.pending
    waiting := hx.waiting
    rounds := hx.rounds
    merged := hx.merged
    told := hx.told }

/-- Hearing a message that is kept to be processed, or that is settled already. -/
theorem hear (h : Service.Campaign request first signers)
    (hm : Service.Sent request first signers m r)
    (hkept : ∀ d ∈ kept, d.message = m ∧
      ∀ l, x.service.signer = some l → d.sign = false → (r.signature? l.slot).isSome = true)
    (hdone : (∃ d ∈ kept, d.message = m) ∨ x.Settled request.nonce r) :
    (x.hear m (m.toFrame magic) sender kept now).Good request first signers magic where
  toFit := hx.toFit.hear
  frames peer f hf := by
    rw [gains_hear.registered]
    rcases gains_hear.only peer f hf with hold | ⟨rfl, hpeer⟩
    · obtain ⟨hpeer, m', r', hm', hframe, hsees⟩ := hx.frames peer f hold
      exact ⟨hpeer, m', r', hm', hframe, sees_hear_of_sees hsees⟩
    · exact ⟨hpeer, m, r, hm, rfl, sees_hear_self⟩
  pending d hd := by
    rw [deliveries_hear hx.kept] at hd
    rcases List.mem_append.1 hd with hold | hnew
    · obtain ⟨r', hr', hsees, hsign⟩ := hx.pending d hold
      exact ⟨r', hr', sees_hear_of_sees hsees, hsign⟩
    · obtain ⟨hmessage, hsign⟩ := hkept d hnew
      refine ⟨r, hmessage ▸ hm, ?_, hsign⟩
      rw [hmessage]
      exact sees_hear_self
  waiting := hx.waiting
  rounds := hx.rounds
  merged m' r' hm' hsees := by
    rw [deliveries_hear hx.kept]
    rcases (hx.sees_hear_iff h hm hm').1 hsees with hold | rfl
    · refine (hx.merged m' r' hm' hold).imp_left ?_
      rintro ⟨d, hd, hmessage⟩
      exact ⟨d, List.mem_append_left _ hd, hmessage⟩
    · obtain ⟨_, rfl⟩ := hm.eq_of_keyOf h hm' rfl
      refine hdone.imp_left ?_
      rintro ⟨d, hd, hmessage⟩
      exact ⟨d, List.mem_append_right _ hd, hmessage⟩
  told l r' hl hr' hown := by
    obtain ⟨m', r'', hm', hown', hwhere⟩ := hx.told l r' hl hr' hown
    exact ⟨m', r'', hm', hown', hwhere.imp_left sees_hear_of_sees⟩

/-- Receiving a message among the honest ones: it is dropped if it was seen, else heard and kept to be
processed. -/
theorem receive (h : Service.Campaign request first signers)
    (hm : Service.Sent request first signers m r) (hretains : x.engine.Retains m now)
    (sender : Option PeerId) :
    (x.sees m = true ∧ x.receive sender (m.toFrame magic) now = .ok (x, .drop .duplicate)) ∨
      (x.sees m = false ∧ ∃ d decision, x.receive sender (m.toFrame magic) now =
          .ok (x.hear m (m.toFrame magic) sender [d] now, decision) ∧
        (x.hear m (m.toFrame magic) sender [d] now).Good request first signers magic) := by
  have hread : SignetPsbtMessage.ofFrame (m.toFrame magic) x.engine.magic = .ok m := by
    rw [hx.sameMagic]
    exact hm.ofFrame_toFrame h magic
  have hknown := hm.knowsSigners h hx.quorum
  cases hsees : x.sees m with
  | true => exact .inl ⟨rfl, receive_of_sees hread hknown hretains hsees⟩
  | false =>
    refine .inr ⟨rfl, _, _, receive_of_new hread hknown hretains hx.flood hsees,
      hx.hear h hm (fun d hd => ?_) (.inl ⟨_, List.mem_singleton_self _, rfl⟩)⟩
    rw [List.mem_singleton.1 hd]
    refine ⟨rfl, fun l hl hno => (hm.shortId_mem_iff h (hx.signer l hl)).1 ?_⟩
    -- who is not asked to sign is one of those whom the message names
    change x.engine.wantsSignature m = false at hno
    unfold RelayEngine.wantsSignature at hno
    rw [hx.localKey, hl, Option.map_some, hm.nonce, Bool.not_eq_false'] at hno
    exact List.contains_iff_mem.1 hno

/-- A message that was seen need not be about to be broadcast. -/
theorem eraseIdx {place : Nat} (hm : x.outbox[place]? = some m) (hsees : x.sees m = true) :
    ({ x with outbox := x.outbox.eraseIdx place } : Station).Good request first signers magic :=
  { hx with
    waiting := fun m' hm' => hx.waiting m' (List.mem_of_mem_eraseIdx hm')
    told := fun l r' hl hr' hown => by
      obtain ⟨m', r'', hm', hown', hwhere⟩ := hx.told l r' hl hr' hown
      refine ⟨m', r'', hm', hown', ?_⟩
      rcases hwhere with hseen | hwaits
      · exact .inl hseen
      · obtain ⟨hlt, rfl⟩ := List.getElem?_eq_some_iff.1 hm
        have hmem := (List.getElem_cons_eraseIdx_perm hlt).mem_iff.2 hwaits
        rcases List.mem_cons.1 hmem with rfl | hrest
        · exact .inl hsees
        · exact .inr hrest }

omit hx in
/-- The station after it handled a delivery. -/
theorem handle_eq {place : Nat} {d : Delivery} (hd : x.deliveries[place]? = some d)
    {sessions after : Sessions} (hsessions : x.service.sessions = some sessions)
    {result : Option SignetPsbtMessage}
    (hprocess : Service.process sessions x.service.signer d = (after, .ok result)) :
    x.handle place = some (x.handled place after result, .ok result) := by
  unfold Station.handle
  rw [hd]
  simp only [Option.map_some, Service.handle, withoutDelivery, hsessions, hprocess]
  rfl

omit hx in
theorem deliveries_handled (place : Nat) (after : Sessions) (result : Option SignetPsbtMessage) :
    (x.handled place after result).deliveries = x.deliveries.eraseIdx place := by
  change (x.service.node.deliveries.map (·.eraseIdx place)).getD [] =
    (x.service.node.deliveries.getD []).eraseIdx place
  cases x.service.node.deliveries <;> simp

/-- A station stays good when it handles a delivery. -/
theorem handled (h : Service.Campaign request first signers) {sessions after : Sessions}
    (hsessions : x.service.sessions = some sessions) {place : Nat} {d : Delivery}
    (hd : x.deliveries[place]? = some d) (hm : Service.Sent request first signers d.message r)
    (hsees : x.sees d.message = true) (hunsigned : ∀ l, x.service.signer = some l →
      d.sign = false → (r.signature? l.slot).isSome = true) {r' : Round}
    {result : Option SignetPsbtMessage} (hdone : Service.Handled request first signers sessions
      x.service.signer d r after r' result) :
    (x.handled place after result).Good request first signers magic := by
  have hround := round?_eq hsessions request.nonce
  have hsettles : ∀ r₀, (∀ slot s, r₀.signature? slot = some s → r'.signature? slot = some s) →
      (x.handled place after result).Settled request.nonce r₀ := fun r₀ hr₀ =>
    ⟨r', hdone.session, hr₀, fun l hl => hdone.own hl (hunsigned l hl)⟩
  have hstays : ∀ r₀, x.Settled request.nonce r₀ →
      (x.handled place after result).Settled request.nonce r₀ := by
    rintro r₀ ⟨old, hold, hkeeps, _⟩
    exact hsettles r₀ fun slot s hs =>
      hdone.keeps slot s (.inl ⟨old, hround.symm.trans hold, hkeeps slot s hs⟩)
  refine ⟨⟨hx.sameMagic, hx.quorum, hx.flood, hx.dedup, hx.localKey, hx.signer, ?_,
    ⟨after, rfl, hdone.sound⟩, hx.served⟩, hx.frames, fun d' hd' => ?_, fun m hm' => ?_,
    fun r₀ hr₀ => ?_, fun m r₀ hm₀ hsees₀ => ?_, fun l r₀ hl hr₀ hsome => ?_⟩
  · have hsome := hx.kept
    change (x.service.node.deliveries.map _).isSome = true
    rwa [Option.isSome_map]
  · rw [deliveries_handled] at hd'
    exact hx.pending d' (List.mem_of_mem_eraseIdx hd')
  · rcases List.mem_append.1 hm' with hold | hnew
    · obtain ⟨r₀, hr₀, hsettled⟩ := hx.waiting m hold
      exact ⟨r₀, hr₀, hstays r₀ hsettled⟩
    · exact ⟨r', hdone.sent (Option.mem_toList.1 hnew), hsettles r' fun _ _ hs => hs⟩
  · cases hdone.session.symm.trans hr₀
    exact hdone.honest
  · rw [deliveries_handled]
    rcases hx.merged m r₀ hm₀ hsees₀ with ⟨d', hd', hmessage⟩ | hsettled
    · obtain ⟨hlt, rfl⟩ := List.getElem?_eq_some_iff.1 hd
      rcases List.mem_cons.1 ((List.getElem_cons_eraseIdx_perm hlt).mem_iff.2 hd') with rfl | hrest
      · subst hmessage
        obtain ⟨_, rfl⟩ := hm.eq_of_keyOf h hm₀ rfl
        exact .inr (hsettles r fun slot s hs => hdone.keeps slot s (.inr hs))
      · exact .inl ⟨d', hrest, hmessage⟩
    · exact .inr (hstays r₀ hsettled)
  · cases hdone.session.symm.trans hr₀
    rcases hdone.source hsome with ⟨old, hold, hbefore⟩ | hcarried | ⟨m, hresult, hsent⟩
    · obtain ⟨m', r'', hm'', hown', hwhere⟩ := hx.told l old hl (hround.trans hold) hbefore
      exact ⟨m', r'', hm'', hown', hwhere.imp_right (List.mem_append_left _)⟩
    · exact ⟨d.message, r, hm, hcarried, .inl hsees⟩
    · exact ⟨m, r', hsent, hsome, .inr (List.mem_append_right _ (Option.mem_toList.2 hresult))⟩

/-- **Handling a delivery does not fail.** -/
theorem handle (h : Service.Campaign request first signers) {place : Nat} {d : Delivery}
    (hd : x.deliveries[place]? = some d) :
    ∃ after result, x.handle place = some (x.handled place after result, .ok result) ∧
      (x.handled place after result).Good request first signers magic := by
  obtain ⟨sessions, hsessions, hsound⟩ := hx.sessions
  have hround := round?_eq hsessions request.nonce
  obtain ⟨r, hm, hsees, hunsigned⟩ := hx.pending d (List.mem_of_getElem? hd)
  obtain ⟨after, r', result, hprocess, hdone⟩ := Service.exists_process h hsound
    (fun r' hr' => hx.rounds r' (hround.trans hr')) hx.signer hm
  exact ⟨after, result, handle_eq hd hsessions hprocess,
    hx.handled h hsessions hd hm hsees hunsigned hdone⟩

end Good

/-! ## Stations of services that were just made -/

/-- A station whose service was just made and got some peers. -/
def fresh (policy : RelayPolicy) (magic : Magic) (q : Quorum) (signer : Option LocalSigner)
    (peers : Nat) : Station :=
  ⟨⟨⟨.make policy magic (some q) (signer.map LocalSigner.publicKey),
    ⟨List.replicate peers ⟨[], true, true⟩⟩, some []⟩, some (.empty q), signer⟩, []⟩

section Fresh

variable {policy : RelayPolicy} {signer : Option LocalSigner} {peers : Nat}

theorem fresh_of_make {settings : ServiceSettings} {setup : ServiceSetup} {s : Service}
    (h : Service.make settings setup = .ok s) (hq : setup.quorum = some q) (peers : Nat) :
    (⟨s.withPeers fun _ => ⟨List.replicate peers ⟨[], true, true⟩⟩, []⟩ : Station) =
      fresh settings.policy (signetMagic setup.challenge) q s.signer peers := by
  obtain ⟨signer, _, heq⟩ := bind_eq_ok_iff.1 h
  cases heq
  unfold fresh Service.withPeers
  rw [hq]
  rfl

theorem getElem?_fresh {a : PeerId} {queue : PeerQueue}
    (h : (fresh policy magic q signer peers).queues.queues[a]? = some queue) :
    a < peers ∧ queue = ⟨[], true, true⟩ := by
  change (List.replicate peers _)[a]? = _ at h
  rw [List.getElem?_replicate] at h
  split at h
  · next hlt => exact ⟨hlt, (Option.some.inj h).symm⟩
  · cases h

theorem mem_registered_fresh {a : PeerId} :
    a ∈ (fresh policy magic q signer peers).queues.registered ↔ a < peers := by
  constructor
  · intro h
    obtain ⟨n, queue, rfl, hqueue, _⟩ := PeerQueues.mem_registeredFrom_iff.1 h
    rw [Nat.zero_add]
    exact (getElem?_fresh hqueue).1
  · intro hlt
    refine PeerQueues.mem_registered_of_queue (q := ⟨[], true, true⟩) ?_ rfl
    change (List.replicate peers _)[a]? = _
    rw [List.getElem?_replicate, if_pos hlt]

theorem idle_fresh : (fresh policy magic q signer peers).Idle where
  frames a := by
    unfold PeerQueues.framesFor
    cases hqueue : (fresh policy magic q signer peers).queues.queues[a]? with
    | none => rfl
    | some queue =>
      rw [(getElem?_fresh hqueue).2]
      rfl
  deliveries := rfl
  outbox := rfl

theorem sees_fresh (m : SignetPsbtMessage) : (fresh policy magic q signer peers).sees m = false :=
  Std.HashSet.contains_empty

theorem round?_fresh (nonce : UInt64) :
    (fresh policy magic q signer peers).round? nonce = none :=
  SortedMap.get?_empty nonce

theorem fit_fresh (hflood : policy.flood = true) (hdedup : policy.dedup = .nonceAndSigners)
    (hsigner : ∀ l, signer = some l → l ∈ signers) :
    (fresh policy magic q signer peers).Fit q signers magic where
  sameMagic := rfl
  quorum := rfl
  flood := hflood
  dedup := hdedup
  localKey := rfl
  signer := hsigner
  kept := rfl
  sessions := ⟨_, rfl, Sessions.sound_empty q⟩
  served a ha := by
    refine ⟨⟨[], true, true⟩, ?_, rfl, rfl⟩
    change (List.replicate peers _)[a]? = _
    rw [List.getElem?_replicate, if_pos (mem_registered_fresh.1 ha)]

end Fresh

/-! ## How far a station is from its rest -/

/-- The number of peers. -/
def degree (x : Station) : Nat := x.queues.registered.length

/-- How many of some messages were not seen. -/
def unseen (ms : List SignetPsbtMessage) (x : Station) : Nat := ms.countP fun m => !x.sees m

/-- How many steps a station may still give rise to: a frame is received, a message is broadcast to
each peer, a delivery is processed and may be answered by a broadcast, and a message that was not seen
may become a delivery and be sent on. -/
def weight (ms : List SignetPsbtMessage) (x : Station) : Nat :=
  x.unseen ms * (2 * x.degree + 2) + x.deliveries.length * (x.degree + 2) +
    x.outbox.length * (x.degree + 1) + x.queues.load

variable {ms : List SignetPsbtMessage}

theorem degree_hear : (x.hear m frame sender kept now).degree = x.degree :=
  congrArg List.length gains_hear.registered

theorem unseen_hear_le : (x.hear m frame sender kept now).unseen ms ≤ x.unseen ms := by
  refine List.countP_mono_left fun m' _ hm' => ?_
  cases hsees : x.sees m' with
  | false => rfl
  | true =>
    rw [sees_hear_of_sees hsees] at hm'
    cases hm'

theorem unseen_hear_lt (hm : m ∈ ms) (hnew : x.sees m = false) :
    (x.hear m frame sender kept now).unseen ms < x.unseen ms := by
  have hperm := List.perm_cons_erase hm
  have hrest : (x.hear m frame sender kept now).unseen (ms.erase m) ≤ x.unseen (ms.erase m) :=
    unseen_hear_le
  unfold unseen at hrest ⊢
  rw [hperm.countP_eq, hperm.countP_eq, List.countP_cons_of_neg (by simp [sees_hear_self]),
    List.countP_cons_of_pos (by simp [hnew])]
  omega

/-- Of a station in which nothing waits only what it has not seen weighs. -/
theorem Idle.weight_le (h : x.Idle) (ms : List SignetPsbtMessage) :
    x.weight ms ≤ ms.length * (2 * x.degree + 2) := by
  have hunseen : x.unseen ms ≤ ms.length := List.countP_le_length
  have hload : x.queues.load = 0 := PeerQueues.load_eq_zero h.frames
  unfold weight
  rw [h.deliveries, h.outbox, hload, List.length_nil, List.length_nil, Nat.zero_mul, Nat.zero_mul]
  exact Nat.mul_le_mul_right _ hunseen

/-- A message that is seen for the first time pays for its delivery and for sending it on. -/
theorem weight_hear_le (hkept : x.service.node.deliveries.isSome = true) (hm : m ∈ ms)
    (hnew : x.sees m = false) (d : Delivery) :
    (x.hear m frame sender [d] now).weight ms ≤ x.weight ms := by
  have hlt : (x.hear m frame sender [d] now).unseen ms < x.unseen ms := unseen_hear_lt hm hnew
  have hunseen := Nat.mul_le_mul_right (2 * x.degree + 2) (Nat.succ_le_of_lt hlt)
  have hload : (x.hear m frame sender [d] now).queues.load ≤ x.queues.load + x.degree :=
    gains_hear.load
  have houtbox : (x.hear m frame sender [d] now).outbox = x.outbox := rfl
  unfold weight
  rw [degree_hear, deliveries_hear hkept, houtbox, List.length_append, List.length_singleton,
    Nat.add_mul x.deliveries.length]
  rw [Nat.succ_mul] at hunseen
  omega

/-- A frame that is taken is one less. -/
theorem weight_withQueues {queues : PeerQueues} {peer : PeerId}
    (hlost : PeerQueues.Loses peer frame x.queues queues) :
    (x.withQueues queues).weight ms + 1 = x.weight ms := by
  have hdegree : (x.withQueues queues).degree = x.degree := congrArg List.length hlost.registered
  have hload : (x.withQueues queues).queues.load + 1 = x.queues.load := hlost.load
  unfold weight
  rw [hdegree]
  change x.unseen ms * _ + x.deliveries.length * _ + x.outbox.length * _ + _ + 1 = _
  omega

/-- A delivery that is handled pays for its answer. -/
theorem weight_handled_lt {place : Nat} (hplace : place < x.deliveries.length) (after : Sessions)
    (result : Option SignetPsbtMessage) : (x.handled place after result).weight ms < x.weight ms := by
  have hresult : result.toList.length ≤ 1 := by cases result <;> simp
  have hlength := List.length_eraseIdx_add_one hplace
  have hpaid := Nat.mul_le_mul_right (x.degree + 1) hresult
  change x.unseen ms * (2 * x.degree + 2) +
    (x.handled place after result).deliveries.length * (x.degree + 2) +
    (x.outbox ++ result.toList).length * (x.degree + 1) + x.queues.load < _
  unfold weight
  rw [Good.deliveries_handled, List.length_append, Nat.add_mul, ← hlength,
    Nat.add_mul (x.deliveries.eraseIdx place).length]
  omega

/-- A message that is broadcast pays for its frames. -/
theorem weight_send_lt {place : Nat} (hkept : x.service.node.deliveries.isSome = true)
    (hplace : place < x.outbox.length) :
    ({ x.hear m frame sender [] now with outbox := x.outbox.eraseIdx place } : Station).weight ms <
      x.weight ms := by
  have hle : (x.hear m frame sender [] now).unseen ms ≤ x.unseen ms := unseen_hear_le
  have hunseen := Nat.mul_le_mul_right (2 * x.degree + 2) hle
  have hload : (x.hear m frame sender [] now).queues.load ≤ x.queues.load + x.degree :=
    gains_hear.load
  have hlength := List.length_eraseIdx_add_one hplace
  have hdeliveries : (x.hear m frame sender [] now).deliveries = x.deliveries := by
    rw [deliveries_hear hkept, List.append_nil]
  change (x.hear m frame sender [] now).unseen ms *
      (2 * (x.hear m frame sender [] now).degree + 2) +
    (x.hear m frame sender [] now).deliveries.length *
      ((x.hear m frame sender [] now).degree + 2) +
    (x.outbox.eraseIdx place).length * ((x.hear m frame sender [] now).degree + 1) +
    (x.hear m frame sender [] now).queues.load < x.weight ms
  unfold weight
  rw [degree_hear, hdeliveries, ← hlength, Nat.add_mul (x.outbox.eraseIdx place).length]
  omega

end Station

end SignetFederation
