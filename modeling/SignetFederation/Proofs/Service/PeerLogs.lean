import SignetFederation.Proofs.Relay.Framing
import SignetFederation.Proofs.Service.PeerEvents

/-!
# What peers get over whole runs

Each event gives a peer one frame or none (`share`). At the end of a run, the queue of a peer that is
served is what the events since it came gave it, in their order: nothing is lost, repeated or sent
back to where it came from. Once a peer is gone its queue stays as it is.

The number that answers a posted message is not that of the queues which the frame entered: peers
that hung up without having been removed are counted, though their queues take nothing
(`post_counts_hungUp`).

Main statement: `queues_exact`.
-/

namespace SignetFederation

/-- One event in a run, with the service before and after it. -/
structure PeerStep where
  before : Service
  event : PeerEvent
  answer : PeerAnswer
  after : Service

namespace Service

variable {s s' : Service} {event : PeerEvent} {events : List PeerEvent} {steps : List PeerStep}
  {peer : PeerId}

/-- Attends to events one after another. -/
def attendAll : List PeerEvent → Service → Except ClockOverflow (Service × List PeerStep)
  | [], s => .ok (s, [])
  | event :: events, s => do
    let (s₁, answer) ← s.attend event
    let (s', steps) ← attendAll events s₁
    return (s', ⟨s, event, answer, s₁⟩ :: steps)

theorem attendAll_cons_eq_ok_iff : attendAll (event :: events) s = .ok (s', steps) ↔
    ∃ s₁ answer later, s.attend event = .ok (s₁, answer) ∧ attendAll events s₁ = .ok (s', later) ∧
      steps = ⟨s, event, answer, s₁⟩ :: later := by
  constructor
  · intro h
    obtain ⟨⟨s₁, answer⟩, hattend, h⟩ := bind_eq_ok_iff.1 h
    obtain ⟨⟨s₂, later⟩, hlater, heq⟩ := bind_eq_ok_iff.1 h
    cases heq
    exact ⟨s₁, answer, later, hattend, hlater, rfl⟩
  · rintro ⟨s₁, answer, later, hattend, hlater, rfl⟩
    exact bind_eq_ok_iff.2 ⟨_, hattend, bind_eq_ok_iff.2 ⟨_, hlater, rfl⟩⟩

/-- Events that come while everything recorded is kept within the calendar are all attended to. -/
theorem exists_attendAll (h : s.node.engine.Timely)
    (hnow : ∀ event ∈ events, ∀ now ∈ event.now?, now.Reaches s.node.engine.window.ttl) :
    ∃ s' steps, attendAll events s = .ok (s', steps) := by
  induction events generalizing s with
  | nil => exact ⟨s, [], rfl⟩
  | cons event events ih =>
    obtain ⟨hfirst, hrest⟩ := List.forall_mem_cons.1 hnow
    obtain ⟨s₁, answer, hattend, htimely, hspan⟩ := exists_attend h hfirst
    obtain ⟨s', later, hlater⟩ := ih htimely (by rwa [hspan])
    exact ⟨s', _, attendAll_cons_eq_ok_iff.2 ⟨s₁, answer, later, hattend, hlater, rfl⟩⟩

theorem event_attendAll (h : attendAll events s = .ok (s', steps)) :
    steps.map PeerStep.event = events := by
  induction events generalizing s steps with
  | nil =>
    cases h
    rfl
  | cons event events ih =>
    obtain ⟨s₁, answer, later, _, hlater, rfl⟩ := attendAll_cons_eq_ok_iff.1 h
    rw [List.map_cons, ih hlater]

/-- Each step of a run is an event attended to, and the steps behind it are a run of their own. -/
theorem attendAll_split {before after : List PeerStep} {x : PeerStep}
    (h : attendAll events s = .ok (s', before ++ x :: after)) :
    SameEngine s x.before ∧ Attended x.before x.event x.answer x.after ∧
      ∃ later, attendAll later x.after = .ok (s', after) := by
  induction before generalizing s events with
  | nil =>
    cases events with
    | nil => cases h
    | cons event events =>
      obtain ⟨s₁, answer, later, hattend, hlater, heq⟩ := attendAll_cons_eq_ok_iff.1 h
      cases heq
      exact ⟨⟨_, rfl⟩, attend_spec hattend, events, hlater⟩
  | cons y before ih =>
    cases events with
    | nil => cases h
    | cons event events =>
      obtain ⟨s₁, answer, later, hattend, hlater, heq⟩ := attendAll_cons_eq_ok_iff.1 h
      cases heq
      obtain ⟨hengine, hrest⟩ := ih hlater
      obtain ⟨w, hw⟩ := (attend_spec hattend).engine
      obtain ⟨w', hw'⟩ := hengine
      exact ⟨⟨w', by rw [hw', hw]⟩, hrest⟩

/-- The frames that some steps give to a peer. -/
def shares (e : RelayEngine) (peer : PeerId) (steps : List PeerStep) : List Bytes :=
  steps.flatMap fun x => e.share peer x.event x.answer

/-- What a peer that is served is there for: it held some frames, or has just come, and since then
it was neither removed nor has it hung up. -/
structure Since (s : Service) (steps : List PeerStep) (peer : PeerId) (held : List Bytes)
    (later : List PeerStep) : Prop where
  stays : ∀ x ∈ later, ¬ x.event.Ends peer
  begins : (s.peers.Serves peer ∧ held = s.peers.framesFor peer ∧ later = steps) ∨
    (held = [] ∧ ∃ before x, steps = before ++ x :: later ∧ x.answer = .connected peer)

/-- A peer that stays is served all the time, and gets its share of each step. -/
theorem framesFor_of_stays (h : attendAll events s = .ok (s', steps)) (hpeer : s.peers.Serves peer)
    (hstays : ∀ x ∈ steps, ¬ x.event.Ends peer) : s'.peers.Serves peer ∧
      s'.peers.framesFor peer = s.peers.framesFor peer ++ shares s.node.engine peer steps := by
  induction events generalizing s steps with
  | nil =>
    cases h
    exact ⟨hpeer, (List.append_nil _).symm⟩
  | cons event events ih =>
    obtain ⟨s₁, answer, later, hattend, hlater, rfl⟩ := attendAll_cons_eq_ok_iff.1 h
    have hstep := attend_spec hattend
    obtain ⟨hfirst, hrest⟩ := List.forall_mem_cons.1 hstays
    obtain ⟨hserves, hframes⟩ := ih hlater ((hstep.serves peer).2 (.inl ⟨hpeer, hfirst⟩)) hrest
    refine ⟨hserves, ?_⟩
    rw [hframes, hstep.framesFor_of_serves hpeer, List.append_assoc, shares, hstep.engine.share]
    rfl

/-- The queue of a peer holds what it is there for. -/
theorem Since.framesFor {held : List Bytes} {later : List PeerStep}
    (hsince : Since s steps peer held later) (h : attendAll events s = .ok (s', steps)) :
    s'.peers.Serves peer ∧ s'.peers.framesFor peer = held ++ shares s.node.engine peer later := by
  obtain ⟨hpeer, rfl, rfl⟩ | ⟨rfl, before, x, rfl, hanswer⟩ := hsince.begins
  · exact framesFor_of_stays h hpeer hsince.stays
  · obtain ⟨hengine, hstep, events', hlater⟩ := attendAll_split h
    obtain ⟨hserves, hframes⟩ :=
      framesFor_of_stays hlater ((hstep.serves peer).2 (.inr hanswer)) hsince.stays
    refine ⟨hserves, ?_⟩
    rw [hframes, hstep.framesFor_of_connected hanswer, shares, hstep.engine.share, hengine.share]
    rfl

/-- A peer that is served at the end was there at the beginning, or has come since, and has stayed. -/
theorem exists_since (h : attendAll events s = .ok (s', steps)) (hpeer : s'.peers.Serves peer) :
    ∃ held later, Since s steps peer held later := by
  induction events generalizing s steps with
  | nil =>
    cases h
    exact ⟨_, [], List.forall_mem_nil _, .inl ⟨hpeer, rfl, rfl⟩⟩
  | cons event events ih =>
    obtain ⟨s₁, answer, rest, hattend, hrest, rfl⟩ := attendAll_cons_eq_ok_iff.1 h
    have hstep := attend_spec hattend
    obtain ⟨held, later, hstays, ⟨hserves, rfl, rfl⟩ | ⟨rfl, before, x, rfl, hanswer⟩⟩ := ih hrest
    · rcases (hstep.serves peer).1 hserves with ⟨hserved, hfirst⟩ | hanswer
      · exact ⟨_, _, List.forall_mem_cons.2 ⟨hfirst, hstays⟩, .inl ⟨hserved, rfl, rfl⟩⟩
      · exact ⟨[], later, hstays, .inr ⟨rfl, [], _, rfl, hanswer⟩⟩
    · exact ⟨[], later, hstays, .inr ⟨rfl, _ :: before, x, rfl, hanswer⟩⟩

/-- The queue of a peer that is gone stays as it is. -/
theorem framesFor_of_gone (h : attendAll events s = .ok (s', steps))
    (hknown : peer < s.peers.queues.length) (hgone : ¬ s.peers.Serves peer) :
    ¬ s'.peers.Serves peer ∧ s'.peers.framesFor peer = s.peers.framesFor peer := by
  induction events generalizing s steps with
  | nil =>
    cases h
    exact ⟨hgone, rfl⟩
  | cons event events ih =>
    obtain ⟨s₁, answer, later, hattend, hlater, rfl⟩ := attendAll_cons_eq_ok_iff.1 h
    have hstep := attend_spec hattend
    obtain ⟨hstill, hframes⟩ := ih hlater (Nat.lt_of_lt_of_le hknown hstep.size)
      (hstep.not_serves hknown fun hpeer => absurd hpeer hgone)
    exact ⟨hstill, hframes.trans (hstep.framesFor_of_not_serves hgone)⟩

/-- **What peers get.** Let a service attend to events, from whatever state. If all that it records
is kept within the calendar, it attends to all of them; and if it does, then:

* a peer is served at the end exactly if it was at the beginning, or has come since, and was then
  neither removed nor hung up (`Since`). Its queue holds what it held at the beginning, or nothing if
  it has come since, and then one frame for each broadcast and, if messages are flooded, for each
  accepted message since, in their order, but for those that came from the peer itself;
* a peer that was removed or hung up gets nothing more;
* a frame that is sent on enters the queues of all peers that are served, but for the one that it
  came from, once each. A broadcast answers with their number. A posted message is answered with the
  number of the registered peers, which is that of the queues exactly if none of them hung up, and
  with zero if it is not sent on. -/
theorem queues_exact (s : Service) (events : List PeerEvent) :
    (s.node.engine.Timely →
      (∀ event ∈ events, ∀ now ∈ event.now?, now.Reaches s.node.engine.window.ttl) →
      ∃ s' steps, attendAll events s = .ok (s', steps)) ∧
    ∀ (s' : Service) (steps : List PeerStep), attendAll events s = .ok (s', steps) →
      steps.map PeerStep.event = events ∧
      (∀ peer, (s'.peers.Serves peer ↔ ∃ held later, Since s steps peer held later) ∧
        ∀ held later, Since s steps peer held later →
          s'.peers.framesFor peer = held ++ shares s.node.engine peer later) ∧
      (∀ before x after peer, steps = before ++ x :: after →
        peer < x.before.peers.queues.length → x.event.Ends peer →
        ¬ s'.peers.Serves peer ∧ s'.peers.framesFor peer = x.before.peers.framesFor peer) ∧
      ∀ x ∈ steps,
        (∀ frame sender, s.node.engine.relayed? x.event x.answer = some (frame, sender) →
          ∃ reached, Relays x.before x.after frame sender reached ∧
            (∀ m now, x.event = .broadcast m now → x.answer.count? = some reached.length) ∧
            ∀ body now, x.event = .post body now →
              x.answer.count? = some x.before.peers.registered.length ∧
              (x.before.peers.registered.length = reached.length ↔
                ∀ peer ∈ x.before.peers.registered, x.before.peers.Serves peer)) ∧
        (s.node.engine.relayed? x.event x.answer = none →
          (∀ peer, x.after.peers.framesFor peer = x.before.peers.framesFor peer) ∧
            ∀ count, x.answer.count? = some count → count = 0) := by
  refine ⟨exists_attendAll, fun s' steps h => ⟨event_attendAll h,
    fun peer => ⟨⟨exists_since h, ?_⟩, fun held later hsince => (hsince.framesFor h).2⟩, ?_,
    fun x hx => ?_⟩⟩
  · rintro ⟨held, later, hsince⟩
    exact (hsince.framesFor h).1
  · rintro before x after peer rfl hknown hends
    obtain ⟨_, hstep, later, hlater⟩ := attendAll_split h
    obtain ⟨hgone, hframes⟩ := framesFor_of_gone hlater (Nat.lt_of_lt_of_le hknown hstep.size)
      (hstep.not_serves hknown fun _ => hends)
    have hquiet := x.before.node.engine.relayed?_of_ends hends x.answer
    exact ⟨hgone, hframes.trans ((hstep.keeps hquiet).1 peer)⟩
  · obtain ⟨before, after, rfl⟩ := List.append_of_mem hx
    obtain ⟨hengine, hstep, _⟩ := attendAll_split h
    rw [← hengine.relayed?]
    refine ⟨fun frame sender hrelayed => ?_, hstep.keeps⟩
    obtain ⟨reached, hrelays, hbroadcast, hpost⟩ := hstep.relays frame sender hrelayed
    refine ⟨reached, hrelays, hbroadcast, fun body now hevent => ?_⟩
    obtain ⟨hcount, rfl⟩ := hpost body now hevent
    exact ⟨hcount, hrelays.length_eq_iff⟩

/-- A relay that floods and has seen nothing, on the signet that anybody may sign. -/
def sampleRelay : Service :=
  ⟨⟨.make .default (signetMagic [0x51]) none none, .empty, some []⟩, none, none⟩

/-- A message to post. -/
def samplePosted : SignetPsbtMessage := ⟨77, [0x01], [0x02], []⟩

/-- Two peers come, and the first hangs up. A broadcast enters the queue of the other one only, and
counts one. -/
theorem queues_exact_sample : ∃ s' steps,
    attendAll [.connect, .connect, .hangUp 0, .broadcast samplePosted 0] sampleRelay =
      .ok (s', steps) ∧
    s'.peers.framesFor 0 = [] ∧
    s'.peers.framesFor 1 = [sampleRelay.node.engine.encodeFrame samplePosted] ∧
    steps.map (fun x => x.answer.count?) = [none, none, none, some 1] := by
  obtain ⟨hreturns, hruns⟩ :=
    queues_exact sampleRelay [.connect, .connect, .hangUp 0, .broadcast samplePosted 0]
  have hspan : sampleRelay.node.engine.window.ttl = some 3600000000000 := by decide +kernel
  have hreaches : Instant.Reaches sampleRelay.node.engine.window.ttl 0 := by
    rw [hspan]
    rintro _ ⟨⟩
    decide
  obtain ⟨s', steps, h⟩ := hreturns (RelayEngine.timely_make ..)
    (by simp [PeerEvent.now?, hreaches])
  obtain ⟨_, hserved, hgone, hsent⟩ := hruns s' steps h
  obtain ⟨_, _, _, hstep₁, hrest₁, hsteps⟩ := attendAll_cons_eq_ok_iff.1 h
  obtain ⟨_, _, _, hstep₂, hrest₂, rfl⟩ := attendAll_cons_eq_ok_iff.1 hrest₁
  obtain ⟨_, _, _, hstep₃, hrest₃, rfl⟩ := attendAll_cons_eq_ok_iff.1 hrest₂
  obtain ⟨_, answer, _, _, hrest₄, rfl⟩ := attendAll_cons_eq_ok_iff.1 hrest₃
  cases hstep₁
  cases hstep₂
  cases hstep₃
  cases hrest₄
  subst hsteps
  refine ⟨s', _, h, (hgone [_, _] _ [_] 0 rfl (by decide) rfl).2, ?_, ?_⟩
  · refine (hserved 1).2 [] [_, _] ⟨?_, .inr ⟨rfl, [_], _, rfl, rfl⟩⟩
    simp [PeerEvent.Ends]
  · obtain ⟨reached, hrelays, hcount, _⟩ :=
      (hsent _ (.tail _ (.tail _ (.tail _ (.head _))))).1 _ none rfl
    have hserves : ∀ peer, PeerQueues.Serves ⟨[⟨[], false, true⟩, ⟨[], true, true⟩]⟩ peer ↔
        peer = 1 := by
      rintro (_ | _ | peer) <;> simp [PeerQueues.Serves]
    have hreached : reached.Perm [1] :=
      (List.perm_ext_iff_of_nodup hrelays.nodup (List.pairwise_singleton _ 1)).2 fun peer =>
        (hrelays.mem_iff peer).trans <| (and_iff_left (Option.some_ne_none peer).symm).trans <|
          (hserves peer).trans List.mem_singleton.symm
    have hanswer : answer.count? = some 1 := by
      rw [hcount _ _ rfl, hreached.length_eq]
      rfl
    simp only [List.map_cons, hanswer]
    rfl

/-- **A posted message counts queues that it did not enter.** The only peer hangs up and is not
removed yet. The message is accepted, the answer says that it was forwarded to one peer, and no queue
has it. -/
theorem post_counts_hungUp : ∃ s' steps r,
    attendAll [.connect, .hangUp 0, .post (postRequest samplePosted).body 0] sampleRelay =
      .ok (s', steps) ∧
    steps.map PeerStep.answer = [.connected 0, .gone, .responded r] ∧
    (PeerAnswer.responded r).accepts = true ∧ (PeerAnswer.responded r).count? = some 1 ∧
    ∀ peer, s'.peers.framesFor peer = [] := by
  have hread : readMessage (postRequest samplePosted).body = .ok samplePosted := by
    have hsome : (readMessage (postRequest samplePosted).body).toOption = some samplePosted := by
      decide +kernel
    cases hresult : readMessage (postRequest samplePosted).body with
    | error r =>
      rw [hresult] at hsome
      cases hsome
    | ok m =>
      rw [hresult] at hsome
      exact congrArg Except.ok (Option.some.inj hsome)
  let quiet : Service := (sampleRelay.withPeers fun p => p.connect.1).withPeers fun p => p.hangUp 0
  obtain ⟨s', hreceive, hpeers⟩ : ∃ s', quiet.receive none
      (quiet.node.engine.encodeFrame samplePosted) 0 = .ok (s', .accept [0] false) ∧
      s'.peers = quiet.peers := by
    have hframe := SignetPsbtMessage.ofFrame_toFrame (m := samplePosted) quiet.node.engine.magic
      (by decide)
    have hsees : quiet.node.engine.sees samplePosted = false := Std.HashSet.contains_empty
    have hnode : quiet.node.receive none (quiet.node.engine.encodeFrame samplePosted) 0 = _ :=
      RelayNode.receive_of_new hframe rfl (SeenWindow.retains_of_empty _ _ _ _) hsees
    exact ⟨_, bind_eq_ok_iff.2 ⟨_, hnode, rfl⟩, rfl⟩
  have hpost : ∃ r, quiet.postMessage (postRequest samplePosted).body 0 = .ok (s', r) ∧
      (PeerAnswer.responded r).accepts = true ∧ (PeerAnswer.responded r).count? = some 1 := by
    rw [postMessage, hread]
    exact ⟨_, bind_eq_ok_iff.2 ⟨_, hreceive, rfl⟩, rfl, rfl⟩
  obtain ⟨r, hr, haccepts, hcount⟩ := hpost
  rw [← respond_post] at hr
  refine ⟨s', _, r, attendAll_cons_eq_ok_iff.2 ⟨_, _, _, rfl, attendAll_cons_eq_ok_iff.2
    ⟨_, _, _, rfl, attendAll_cons_eq_ok_iff.2 ⟨_, _, _, bind_eq_ok_iff.2 ⟨_, hr, rfl⟩, rfl, rfl⟩,
      rfl⟩, rfl⟩, rfl, haccepts, hcount, fun peer => ?_⟩
  rw [hpeers]
  cases peer <;> rfl

end Service

end SignetFederation
