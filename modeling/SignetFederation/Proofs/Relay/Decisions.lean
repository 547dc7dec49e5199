import SignetFederation.Proofs.Relay.Windows
import SignetFederation.Relay.Engine

/-!
# Decisions over whole runs

An engine is called again and again, and the clock never goes back. Each decision depends on the
keys that earlier calls recorded, and on nothing else that they did: a message that is refused leaves
the engine as it was, and dropping what is over and making room never decide otherwise than the list
of all recorded keys does. So the calls that record nothing may be left out of a run.

`expected` is the answer that the recorded keys ask for. Each call gives it (`call_spec`), so a
whole run does (`trace_spec`), and calls that record nothing do not change what is expected of later
ones (`Expected.pruned`).

Main statement: `decisions_over_runs`.
-/

namespace SignetFederation

/-! ## Calls and runs -/

/-- What an engine is asked to do. -/
inductive RelayAct where
  | handle (sender : Option PeerId) (peers : List PeerId) (m : SignetPsbtMessage)
  | handleFrame (sender : Option PeerId) (peers : List PeerId) (frame : Bytes)
  | originate (m : SignetPsbtMessage)
  | cleanup

/-- A call of an engine, with the clock's reading. -/
structure RelayCall where
  now : Instant
  act : RelayAct

/-- What a call answers. -/
inductive RelayAnswer where
  | handled (decision : Decision)
  | framed (decision : Decision) (m : Option SignetPsbtMessage)
  | originated (frame : Bytes)
  | cleaned

/-- What was decided about a message or a frame. -/
def RelayAnswer.decision? : RelayAnswer → Option Decision
  | handled decision => some decision
  | framed decision _ => some decision
  | originated _ => none
  | cleaned => none

/-- The message to decide about: the one given, or the one in the frame. -/
def RelayAct.message? (magic : Magic) : RelayAct → Option SignetPsbtMessage
  | handle _ _ m => some m
  | handleFrame _ _ frame => (SignetPsbtMessage.ofFrame frame magic).toOption
  | originate _ => none
  | cleanup => none

/-- One call in a run, with the engine before and after it. -/
structure RelayStep where
  before : RelayEngine
  call : RelayCall
  answer : RelayAnswer
  after : RelayEngine

namespace RelayEngine

/-- Makes a call. -/
def call (e : RelayEngine) (c : RelayCall) : Except ClockOverflow (RelayEngine × RelayAnswer) :=
  match c.act with
  | .handle sender peers m => do
    let (e, decision) ← e.handle sender peers m c.now
    return (e, .handled decision)
  | .handleFrame sender peers frame => do
    let (e, decision, m) ← e.handleFrame sender peers frame c.now
    return (e, .framed decision m)
  | .originate m => do
    let (e, frame) ← e.originate m c.now
    return (e, .originated frame)
  | .cleanup => do
    let e ← e.cleanup c.now
    return (e, .cleaned)

/-- Makes calls one after another. -/
def trace (e : RelayEngine) : List RelayCall → Except ClockOverflow (List RelayStep)
  | [] => .ok []
  | c :: calls => do
    let (e', answer) ← e.call c
    let steps ← e'.trace calls
    return ⟨e, c, answer, e'⟩ :: steps

end RelayEngine

namespace RelayStep

/-- The decision is to drop the message, or the call only cleans up. -/
def Droppable (s : RelayStep) : Prop :=
  s.call.act = .cleanup ∨ ∃ why, s.answer.decision? = some (.drop why)

/-- The frame cannot be read, or the message names an unknown signer. -/
def Refused (s : RelayStep) : Prop :=
  s.answer.decision? = some (.drop .malformed) ∨ s.answer.decision? = some (.drop .unknownSigner)

/-- Part of a run: some calls that only clean up, or whose message is dropped, are left out. -/
inductive Pruned : List RelayStep → List RelayStep → Prop
  | nil : Pruned [] []
  | keep {s : RelayStep} {steps kept : List RelayStep} :
    Pruned steps kept → Pruned (s :: steps) (s :: kept)
  | leave {s : RelayStep} {steps kept : List RelayStep} :
    s.Droppable → Pruned steps kept → Pruned (s :: steps) kept

theorem Pruned.sublist {steps kept : List RelayStep} (h : Pruned steps kept) :
    kept.Sublist steps := by
  induction h with
  | nil => exact .refl []
  | keep _ ih => exact ih.cons_cons _
  | leave _ _ ih => exact ih.cons _

end RelayStep

/-! ## Recorded keys -/

/-- A message names a signer that is not in the quorum, if there is one. -/
def Strange (quorum : Option Quorum) (m : SignetPsbtMessage) : Prop :=
  ∃ q, quorum = some q ∧ ∃ id ∈ m.signers, id ∉ q.shortIds m.nonce

namespace RelayPolicy

/-- Whether a key was recorded less than one time to live ago, and is still among the last ones, as
many as there is room for. -/
def Held (p : RelayPolicy) (log : List (MessageKey × Instant)) (k : MessageKey) (now : Instant) :
    Prop :=
  SeenWindow.Held (max p.capacity 1) p.ttlNanos log k now

instance (p : RelayPolicy) (log : List (MessageKey × Instant)) (k : MessageKey) (now : Instant) :
    Decidable (p.Held log k now) :=
  inferInstanceAs (Decidable (SeenWindow.Held _ _ _ _ _))

/-- The recorded keys after a call: an accepted message's key is recorded, and so is a message of
this node, unless its key is held. -/
def recordedBy (p : RelayPolicy) (magic : Magic) (log : List (MessageKey × Instant))
    (c : RelayCall) (answer : RelayAnswer) : List (MessageKey × Instant) :=
  match c.act, answer.decision? with
  | .originate m, none =>
    if p.Held log (p.dedup.keyOf m) c.now then log else log ++ [(p.dedup.keyOf m, c.now)]
  | act, some (.accept _ _) =>
    match act.message? magic with
    | some m => log ++ [(p.dedup.keyOf m, c.now)]
    | none => log
  | _, _ => log

/-- The keys that a run recorded, the oldest first. -/
def recorded (p : RelayPolicy) (magic : Magic) (steps : List RelayStep) :
    List (MessageKey × Instant) :=
  steps.foldl (fun log s => p.recordedBy magic log s.call s.answer) []

/-- A call that cleans up, or whose message is dropped, records nothing. -/
theorem recordedBy_of_droppable {p : RelayPolicy} {magic : Magic}
    {log : List (MessageKey × Instant)} {s : RelayStep} (h : s.Droppable) :
    p.recordedBy magic log s.call s.answer = log := by
  unfold recordedBy
  rcases h with hact | ⟨why, hwhy⟩
  · rw [hact]
    cases s.answer.decision? with
    | none => rfl
    | some decision => cases decision <;> rfl
  · rw [hwhy]
    cases s.call.act <;> rfl

/-- What an accepted message's key is recorded as. -/
theorem recordedBy_of_message {p : RelayPolicy} {magic : Magic} {log : List (MessageKey × Instant)}
    {c : RelayCall} {answer : RelayAnswer} {m : SignetPsbtMessage} {decision : Decision}
    (hm : c.act.message? magic = some m) (hdecision : answer.decision? = some decision) :
    p.recordedBy magic log c answer =
      if decision.isAccepted then log ++ [(p.dedup.keyOf m, c.now)] else log := by
  unfold recordedBy
  rw [hdecision]
  cases decision with
  | drop why => cases c.act <;> rfl
  | accept forwardTo sign =>
    simp only [hm]
    rfl

end RelayPolicy

namespace RelayEngine

variable {e : RelayEngine} {log : List (MessageKey × Instant)} {m : SignetPsbtMessage}
  {sender : Option PeerId} {peers : List PeerId} {before now : Instant}

theorem knowsSigners_eq_false_iff : e.knowsSigners m = false ↔ Strange e.quorum m := by
  unfold knowsSigners Strange
  cases e.quorum with
  | none => simp
  | some q => simp

/-- The decision that the recorded keys ask for. -/
def verdict (e : RelayEngine) (log : List (MessageKey × Instant)) (sender : Option PeerId)
    (peers : List PeerId) (m : SignetPsbtMessage) (now : Instant) : Decision :=
  if !e.knowsSigners m then .drop .unknownSigner
  else if e.policy.Held log (e.policy.dedup.keyOf m) now then .drop .duplicate
  else .accept (e.targets sender peers) (e.wantsSignature m)

/-- The answer that the recorded keys ask for. -/
def expected (e : RelayEngine) (log : List (MessageKey × Instant)) (c : RelayCall) : RelayAnswer :=
  match c.act with
  | .handle sender peers m => .handled (e.verdict log sender peers m c.now)
  | .handleFrame sender peers frame =>
    match SignetPsbtMessage.ofFrame frame e.magic with
    | .error _ => .framed (.drop .malformed) none
    | .ok m => .framed (e.verdict log sender peers m c.now) (some m)
  | .originate m => .originated (e.encodeFrame m)
  | .cleanup => .cleaned

section Frame

variable {frame : Bytes}

theorem expected_of_error {why : RelayFault}
    (hframe : SignetPsbtMessage.ofFrame frame e.magic = .error why) :
    e.expected log ⟨now, .handleFrame sender peers frame⟩ = .framed (.drop .malformed) none := by
  simp only [expected, hframe]

theorem expected_of_ok (hframe : SignetPsbtMessage.ofFrame frame e.magic = .ok m) :
    e.expected log ⟨now, .handleFrame sender peers frame⟩ =
      .framed (e.verdict log sender peers m now) (some m) := by
  simp only [expected, hframe]

theorem message?_of_ok {magic : Magic} (hframe : SignetPsbtMessage.ofFrame frame magic = .ok m) :
    (RelayAct.handleFrame sender peers frame).message? magic = some m := by
  simp only [RelayAct.message?, hframe, Except.toOption]

end Frame

/-- The engine's window has what its policy lets it keep of the recorded keys. -/
def Recalls (e : RelayEngine) (log : List (MessageKey × Instant)) (now : Instant) : Prop :=
  e.window.Recalls (max e.policy.capacity 1) e.policy.ttlNanos log now

/-! ### What decides -/

/-- A decision about a message, whatever the engine has recorded. -/
theorem handle_cases {e' : RelayEngine} {decision : Decision}
    (h : e.handle sender peers m now = .ok (e', decision)) :
    (Strange e.quorum m ∧ decision = .drop .unknownSigner) ∨
      ¬ Strange e.quorum m ∧ (decision = .drop .duplicate ∨
        decision = .accept (e.targets sender peers) (e.wantsSignature m)) := by
  unfold handle at h
  rw [← knowsSigners_eq_false_iff]
  cases hknown : e.knowsSigners m with
  | false =>
    rw [hknown] at h
    cases h
    exact .inl ⟨rfl, rfl⟩
  | true =>
    rw [hknown] at h
    obtain ⟨⟨e₁, fresh⟩, hrecord, hdecision⟩ := bind_eq_ok_iff.1 h
    refine .inr ⟨by simp, ?_⟩
    have hsame : e₁.targets = e.targets ∧ e₁.wantsSignature = e.wantsSignature := by
      obtain ⟨_, _, heq⟩ := bind_eq_ok_iff.1 hrecord
      cases heq
      exact ⟨rfl, rfl⟩
    cases fresh with
    | false =>
      cases hdecision
      exact .inl rfl
    | true =>
      cases hdecision
      exact .inr (by rw [hsame.1, hsame.2])

/-- A call with a message decides about it. -/
theorem exists_handle_of_call {c : RelayCall} {e' : RelayEngine} {answer : RelayAnswer}
    (hm : c.act.message? e.magic = some m) (h : e.call c = .ok (e', answer)) :
    ∃ sender peers decision, e.handle sender peers m c.now = .ok (e', decision) ∧
      answer.decision? = some decision := by
  obtain ⟨now, act⟩ := c
  cases act with
  | handle sender peers m' =>
    cases hm
    obtain ⟨⟨_, decision⟩, hhandle, heq⟩ := bind_eq_ok_iff.1 h
    cases heq
    exact ⟨sender, peers, decision, hhandle, rfl⟩
  | handleFrame sender peers frame =>
    obtain ⟨⟨_, decision, _⟩, hframe, heq⟩ := bind_eq_ok_iff.1 h
    cases heq
    cases hread : SignetPsbtMessage.ofFrame frame e.magic with
    | error why => simp [RelayAct.message?, hread, Except.toOption] at hm
    | ok m' =>
      rw [message?_of_ok hread] at hm
      cases hm
      unfold handleFrame at hframe
      rw [hread] at hframe
      obtain ⟨⟨_, _⟩, hhandle, heq⟩ := bind_eq_ok_iff.1 hframe
      cases heq
      exact ⟨sender, peers, _, hhandle, rfl⟩
  | originate m' => cases hm
  | cleanup => cases hm

/-! ### The verdict -/

theorem verdict_ne_malformed : e.verdict log sender peers m now ≠ .drop .malformed := by
  unfold verdict
  split
  · nofun
  · split
    · nofun
    · nofun

theorem verdict_eq_unknownSigner_iff :
    e.verdict log sender peers m now = .drop .unknownSigner ↔ Strange e.quorum m := by
  rw [← knowsSigners_eq_false_iff]
  unfold verdict
  cases e.knowsSigners m with
  | false => simp
  | true =>
    simp only [Bool.not_true, Bool.false_eq_true, if_false, reduceCtorEq, iff_false]
    split
    · nofun
    · nofun

theorem verdict_eq_duplicate_iff :
    e.verdict log sender peers m now = .drop .duplicate ↔
      ¬ Strange e.quorum m ∧ e.policy.Held log (e.policy.dedup.keyOf m) now := by
  rw [← knowsSigners_eq_false_iff]
  unfold verdict
  cases e.knowsSigners m with
  | false => simp
  | true => simp

theorem exists_verdict_eq_accept_iff :
    (∃ forwardTo sign, e.verdict log sender peers m now = .accept forwardTo sign) ↔
      ¬ Strange e.quorum m ∧ ¬ e.policy.Held log (e.policy.dedup.keyOf m) now := by
  rw [← knowsSigners_eq_false_iff]
  unfold verdict
  cases e.knowsSigners m with
  | false => simp
  | true =>
    by_cases hheld : e.policy.Held log (e.policy.dedup.keyOf m) now
    · simp [hheld]
    · simp [hheld]

/-! ## One call -/

section Step

variable (m) (sender) (peers) (h : e.Recalls log before) (hle : before ≤ now)
  (hreach : now.Reaches e.policy.ttlNanos)

include h hle hreach

/-- A message is new exactly if its key is not held, and then its key is recorded. -/
theorem record_spec :
    ∃ w, e.record m now =
        .ok ({ e with window := w }, !decide (e.policy.Held log (e.policy.dedup.keyOf m) now)) ∧
      ({ e with window := w } : RelayEngine).Recalls
        (if e.policy.Held log (e.policy.dedup.keyOf m) now then log
          else log ++ [(e.policy.dedup.keyOf m, now)]) now := by
  obtain ⟨w, hinsert, hrecalls⟩ :=
    SeenWindow.Recalls.insertAt (k := e.policy.dedup.keyOf m) h hle hreach
  refine ⟨w, ?_, hrecalls⟩
  unfold record
  rw [hinsert]
  rfl

/-- The decision is the one that the recorded keys ask for, and exactly an accepted message is
recorded. -/
theorem handle_spec :
    ∃ w, e.handle sender peers m now =
        .ok ({ e with window := w }, e.verdict log sender peers m now) ∧
      ({ e with window := w } : RelayEngine).Recalls
        (if (e.verdict log sender peers m now).isAccepted then
          log ++ [(e.policy.dedup.keyOf m, now)] else log) now ∧
      (e.verdict log sender peers m now = .drop .unknownSigner → w = e.window) := by
  unfold handle verdict
  cases hknown : e.knowsSigners m with
  | false => exact ⟨e.window, rfl, SeenWindow.Recalls.later h hle, fun _ => rfl⟩
  | true =>
    obtain ⟨w, hrecord, hrecalls⟩ := record_spec m h hle hreach
    rw [hrecord]
    by_cases hheld : e.policy.Held log (e.policy.dedup.keyOf m) now
    · rw [decide_eq_true hheld]
      rw [if_pos hheld] at hrecalls
      refine ⟨w, ?_, ?_, ?_⟩
      · simp [hheld]
        rfl
      · simpa [hheld, Decision.isAccepted] using hrecalls
      · simp [hheld]
    · rw [decide_eq_false hheld]
      rw [if_neg hheld] at hrecalls
      refine ⟨w, ?_, ?_, ?_⟩
      · simp [hheld]
        rfl
      · simpa [hheld, Decision.isAccepted] using hrecalls
      · simp [hheld]

end Step

/-- What an answer about a message records, and that a refused one changes nothing. -/
theorem recalls_of_message {c : RelayCall} {answer : RelayAnswer} {w : SeenWindow MessageKey}
    (hm : c.act.message? e.magic = some m)
    (hdecision : answer.decision? = some (e.verdict log sender peers m c.now))
    (hrecalls : ({ e with window := w } : RelayEngine).Recalls
      (if (e.verdict log sender peers m c.now).isAccepted then
        log ++ [(e.policy.dedup.keyOf m, c.now)] else log) c.now)
    (hsame : e.verdict log sender peers m c.now = .drop .unknownSigner → w = e.window) :
    ({ e with window := w } : RelayEngine).Recalls
        (e.policy.recordedBy e.magic log c answer) c.now ∧
      (answer.decision? = some (.drop .malformed) ∨
        answer.decision? = some (.drop .unknownSigner) → w = e.window) := by
  rw [RelayPolicy.recordedBy_of_message hm hdecision, hdecision]
  refine ⟨hrecalls, ?_⟩
  rintro (hverdict | hverdict)
  · exact absurd (Option.some.inj hverdict) verdict_ne_malformed
  · exact hsame (Option.some.inj hverdict)

/-- A call gives the answer that the recorded keys ask for, and what it records is known to the
engine after it. What is refused changes nothing. -/
theorem call_spec {c : RelayCall} (h : e.Recalls log before) (hle : before ≤ c.now)
    (hreach : c.now.Reaches e.policy.ttlNanos) :
    ∃ w, e.call c = .ok ({ e with window := w }, e.expected log c) ∧
      ({ e with window := w } : RelayEngine).Recalls
        (e.policy.recordedBy e.magic log c (e.expected log c)) c.now ∧
      ((e.expected log c).decision? = some (.drop .malformed) ∨
        (e.expected log c).decision? = some (.drop .unknownSigner) → w = e.window) := by
  obtain ⟨now, act⟩ := c
  cases act with
  | handle sender peers m =>
    obtain ⟨w, hhandle, hrecalls, hsame⟩ := handle_spec m sender peers h hle hreach
    refine ⟨w, ?_, recalls_of_message (m := m) rfl rfl hrecalls hsame⟩
    change (e.handle sender peers m now >>= _) = _
    rw [hhandle]
    rfl
  | handleFrame sender peers frame =>
    cases hframe : SignetPsbtMessage.ofFrame frame e.magic with
    | error why =>
      refine ⟨e.window, ?_, ?_, fun _ => rfl⟩
      · rw [expected_of_error hframe]
        change (e.handleFrame sender peers frame now >>= _) = _
        unfold handleFrame
        rw [hframe]
        rfl
      · rw [expected_of_error hframe]
        exact SeenWindow.Recalls.later h hle
    | ok m =>
      obtain ⟨w, hhandle, hrecalls, hsame⟩ := handle_spec m sender peers h hle hreach
      rw [expected_of_ok hframe]
      refine ⟨w, ?_, recalls_of_message (message?_of_ok hframe) rfl hrecalls hsame⟩
      change (e.handleFrame sender peers frame now >>= _) = _
      unfold handleFrame
      rw [hframe]
      change (e.handle sender peers m now >>= _) >>= _ = _
      rw [hhandle]
      rfl
  | originate m =>
    obtain ⟨w, hrecord, hrecalls⟩ := record_spec m h hle hreach
    refine ⟨w, ?_, hrecalls, ?_⟩
    · change (e.originate m now >>= _) = _
      unfold originate
      rw [hrecord]
      rfl
    · rintro (⟨⟨⟩⟩ | ⟨⟨⟩⟩)
  | cleanup =>
    obtain ⟨w, hexpire, hrecalls, -⟩ := SeenWindow.Recalls.expire h hle
    refine ⟨w, ?_, hrecalls, ?_⟩
    · change (e.cleanup now >>= _) = _
      unfold cleanup
      rw [hexpire]
      rfl
    · rintro (⟨⟨⟩⟩ | ⟨⟨⟩⟩)

/-! ## Whole runs -/

/-- Each step of a run answers what the keys ask for that were recorded before it. -/
def Expected (e : RelayEngine) : List (MessageKey × Instant) → List RelayStep → Prop
  | _, [] => True
  | log, s :: steps =>
    s.answer = e.expected log s.call ∧
      e.Expected (e.policy.recordedBy e.magic log s.call s.answer) steps

/-- The keys recorded so far, and after some more steps. -/
theorem Expected.at_step {past future : List RelayStep} {s : RelayStep}
    (h : e.Expected log (past ++ s :: future)) :
    s.answer = e.expected
      (past.foldl (fun log s => e.policy.recordedBy e.magic log s.call s.answer) log) s.call := by
  induction past generalizing log with
  | nil => exact h.1
  | cons _ past ih => exact ih h.2

/-- What is expected does not depend on the window. -/
theorem Expected.of_window {w : SeenWindow MessageKey} {steps : List RelayStep}
    (h : ({ e with window := w } : RelayEngine).Expected log steps) : e.Expected log steps := by
  induction steps generalizing log with
  | nil => trivial
  | cons s steps ih => exact ⟨h.1, ih h.2⟩

/-- Steps that record nothing may be left out. -/
theorem Expected.pruned {steps kept : List RelayStep} (h : e.Expected log steps)
    (hkept : RelayStep.Pruned steps kept) : e.Expected log kept := by
  induction hkept generalizing log with
  | nil => trivial
  | keep _ ih => exact ⟨h.1, ih h.2⟩
  | leave hdroppable _ ih =>
    have hrest := h.2
    rw [RelayPolicy.recordedBy_of_droppable hdroppable] at hrest
    exact ih hrest

/-- The same calls get the same answers. -/
theorem Expected.answers_eq {steps steps' : List RelayStep} (h : e.Expected log steps)
    (h' : e.Expected log steps') (hcalls : steps.map (·.call) = steps'.map (·.call)) :
    steps.map (·.answer) = steps'.map (·.answer) := by
  induction steps generalizing log steps' with
  | nil =>
    cases steps' with
    | nil => rfl
    | cons => cases hcalls
  | cons s steps ih =>
    cases steps' with
    | nil => cases hcalls
    | cons s' steps' =>
      obtain ⟨hcall, hrest⟩ := List.cons.inj hcalls
      have hanswer : s.answer = s'.answer := by
        rw [h.1, h'.1]
        exact congrArg _ hcall
      have hlog : s.call = s'.call := hcall
      have htail := h.2
      rw [hlog, hanswer] at htail
      exact congrArg₂ List.cons hanswer (ih htail h'.2 hrest)

/-- A run in which the clock does not go back answers every call as expected. -/
theorem trace_spec {calls : List RelayCall} (h : e.Recalls log before)
    (hclock : calls.Pairwise fun c c' => c.now ≤ c'.now) (hle : ∀ c ∈ calls, before ≤ c.now)
    (hreach : ∀ c ∈ calls, c.now.Reaches e.policy.ttlNanos) :
    ∃ steps, e.trace calls = .ok steps ∧ steps.map (·.call) = calls ∧ e.Expected log steps ∧
      ∀ s ∈ steps, s.Refused → s.after = s.before := by
  induction calls generalizing e log before with
  | nil => exact ⟨[], rfl, rfl, trivial, by simp⟩
  | cons c calls ih =>
    obtain ⟨hnext, hclock⟩ := List.pairwise_cons.1 hclock
    obtain ⟨w, hcall, hrecalls, hsame⟩ :=
      call_spec h (hle c List.mem_cons_self) (hreach c List.mem_cons_self)
    obtain ⟨steps, htrace, hcalls, hexpected, hrefused⟩ :=
      ih hrecalls hclock hnext fun c' hc' => hreach c' (List.mem_cons_of_mem _ hc')
    refine ⟨⟨e, c, e.expected log c, { e with window := w }⟩ :: steps, ?_, ?_, ⟨rfl, ?_⟩, ?_⟩
    · unfold trace
      rw [hcall]
      change (({ e with window := w } : RelayEngine).trace calls >>= _) = _
      rw [htrace]
      rfl
    · rw [List.map_cons, hcalls]
    · exact hexpected.of_window
    · rintro s (_ | ⟨_, hs⟩) hs'
      · change ({ e with window := w } : RelayEngine) = e
        rw [hsame hs']
      · exact hrefused s hs hs'

end RelayEngine

/-! ## Decisions -/

/-- A step decides by what its call brings and by the keys recorded before it. -/
structure RelayStep.Follows (s : RelayStep) (p : RelayPolicy) (magic : Magic)
    (quorum : Option Quorum) (log : List (MessageKey × Instant)) : Prop where
  malformed : s.answer.decision? = some (.drop .malformed) ↔
    ∃ sender peers frame, s.call.act = .handleFrame sender peers frame ∧
      ∀ m, SignetPsbtMessage.ofFrame frame magic ≠ .ok m
  unknownSigner : s.answer.decision? = some (.drop .unknownSigner) ↔
    ∃ m, s.call.act.message? magic = some m ∧ Strange quorum m
  duplicate : s.answer.decision? = some (.drop .duplicate) ↔
    ∃ m, s.call.act.message? magic = some m ∧ ¬ Strange quorum m ∧
      p.Held log (p.dedup.keyOf m) s.call.now
  accepted : (∃ forwardTo sign, s.answer.decision? = some (.accept forwardTo sign)) ↔
    ∃ m, s.call.act.message? magic = some m ∧ ¬ Strange quorum m ∧
      ¬ p.Held log (p.dedup.keyOf m) s.call.now

namespace RelayEngine

variable {e : RelayEngine} {log : List (MessageKey × Instant)}

theorem follows_of_message {s : RelayStep} {m : SignetPsbtMessage} {sender : Option PeerId}
    {peers : List PeerId} (hm : s.call.act.message? e.magic = some m)
    (hdecision : s.answer.decision? = some (e.verdict log sender peers m s.call.now)) :
    s.Follows e.policy e.magic e.quorum log := by
  have honly : ∀ P : SignetPsbtMessage → Prop,
      (∃ m', s.call.act.message? e.magic = some m' ∧ P m') ↔ P m := fun P => by simp [hm]
  refine ⟨?_, ?_, ?_, ?_⟩
  · rw [hdecision, Option.some.injEq]
    refine iff_of_false verdict_ne_malformed ?_
    rintro ⟨sender, peers, frame, hact, hframe⟩
    rw [hact] at hm
    unfold RelayAct.message? at hm
    cases hread : SignetPsbtMessage.ofFrame frame e.magic with
    | error why => simp [hread, Except.toOption] at hm
    | ok m => exact hframe m hread
  · rw [hdecision, Option.some.injEq, verdict_eq_unknownSigner_iff, honly]
  · rw [hdecision, Option.some.injEq, verdict_eq_duplicate_iff, honly]
  · simp only [hdecision, Option.some.injEq]
    rw [exists_verdict_eq_accept_iff, honly]

/-- An answer that the recorded keys ask for. -/
theorem follows_of_expected {s : RelayStep} (h : s.answer = e.expected log s.call) :
    s.Follows e.policy e.magic e.quorum log := by
  obtain ⟨_, ⟨now, act⟩, answer, _⟩ := s
  change answer = e.expected log ⟨now, act⟩ at h
  subst h
  cases act with
  | handle sender peers m => exact follows_of_message rfl rfl
  | handleFrame sender peers frame =>
    cases hframe : SignetPsbtMessage.ofFrame frame e.magic with
    | error why =>
      rw [expected_of_error hframe]
      have hnone : ∀ m, SignetPsbtMessage.ofFrame frame e.magic ≠ .ok m := by simp [hframe]
      refine ⟨iff_of_true rfl ⟨sender, peers, frame, rfl, hnone⟩, ?_, ?_, ?_⟩ <;>
        simp [RelayAnswer.decision?, RelayAct.message?, hframe, Except.toOption]
    | ok m =>
      rw [expected_of_ok hframe]
      exact follows_of_message (message?_of_ok hframe) rfl
  | originate m =>
    refine ⟨?_, ?_, ?_, ?_⟩ <;> simp [expected, RelayAnswer.decision?, RelayAct.message?]
  | cleanup =>
    refine ⟨?_, ?_, ?_, ?_⟩ <;> simp [expected, RelayAnswer.decision?, RelayAct.message?]

/-- A run of a new engine, whose clock does not go back and in which no time to live ends outside
the calendar. The engine never fails. It finds a frame malformed exactly if the frame cannot be
read; a signer unknown if a quorum is set that does not have it; a message a duplicate if its key was
recorded less than one time to live ago and is among the last ones recorded, as many as there is
room for; and accepts it otherwise. What is malformed or from an unknown signer leaves the engine as
it was, and if calls are left out that only clean up or drop a message, all others answer as
before. -/
theorem decisions_over_runs (policy : RelayPolicy) (magic : Magic) (quorum : Option Quorum)
    (localKey : Option XOnlyKey) (calls : List RelayCall)
    (hclock : calls.Pairwise fun c c' => c.now ≤ c'.now)
    (hreach : ∀ c ∈ calls, c.now.Reaches policy.ttlNanos) :
    ∃ steps, (make policy magic quorum localKey).trace calls = .ok steps ∧
      steps.map (·.call) = calls ∧
      (∀ past s future, steps = past ++ s :: future →
        s.Follows policy magic quorum (policy.recorded magic past)) ∧
      (∀ s ∈ steps, s.Refused → s.after = s.before) ∧
      ∀ kept, RelayStep.Pruned steps kept → ∃ steps',
        (make policy magic quorum localKey).trace (kept.map (·.call)) = .ok steps' ∧
          steps'.map (·.answer) = kept.map (·.answer) := by
  have hrun : ∀ calls : List RelayCall, (calls.Pairwise fun c c' => c.now ≤ c'.now) →
      (∀ c ∈ calls, c.now.Reaches policy.ttlNanos) → ∃ steps,
        (make policy magic quorum localKey).trace calls = .ok steps ∧
        steps.map (·.call) = calls ∧ (make policy magic quorum localKey).Expected [] steps ∧
        ∀ s ∈ steps, s.Refused → s.after = s.before := by
    intro calls hclock hreach
    cases calls with
    | nil => exact ⟨[], rfl, rfl, trivial, by simp⟩
    | cons c calls =>
      refine trace_spec
        (SeenWindow.recalls_empty policy.capacity policy.ttlNanos c.now) hclock ?_ hreach
      rintro c' (_ | ⟨_, hc'⟩)
      · exact Int.le_refl _
      · exact (List.pairwise_cons.1 hclock).1 c' hc'
  obtain ⟨steps, htrace, hcalls, hexpected, hrefused⟩ := hrun calls hclock hreach
  refine ⟨steps, htrace, hcalls, ?_, hrefused, ?_⟩
  · rintro past s future rfl
    exact follows_of_expected hexpected.at_step
  · intro kept hkept
    have hsub : (kept.map (·.call)).Sublist calls := hcalls ▸ hkept.sublist.map _
    obtain ⟨steps', htrace', hcalls', hexpected', -⟩ :=
      hrun _ (hclock.sublist hsub) fun c hc => hreach c (hsub.subset hc)
    exact ⟨steps', htrace', hexpected'.answers_eq (hexpected.pruned hkept) hcalls'⟩

/-- Room for one key, which is kept for two nanoseconds. -/
def sampleBrief : RelayPolicy := ⟨1, some (.ofNanos 2), .nonce, true⟩

/-- One message, at three moments in a row. -/
def sampleCalls : List RelayCall :=
  [0, 1, 2].map fun now => ⟨now, .handle none [] ⟨7, [], [], []⟩⟩

/-- The message is new, a duplicate, and new again once its time is over. -/
theorem decisions_over_runs_sample :
    ∃ steps, (make sampleBrief ⟨[0, 0, 0, 0], rfl⟩ none none).trace sampleCalls = .ok steps ∧
      steps.map (fun s => s.answer.decision?.map Decision.isAccepted) =
        [some true, some false, some true] := by
  obtain ⟨steps, htrace, hcalls, hfollows, -⟩ :=
    decisions_over_runs sampleBrief ⟨[0, 0, 0, 0], rfl⟩ none none sampleCalls
      (by simp [sampleCalls]) (by
        intro c hc span hspan
        have hall : (sampleCalls.all fun c => (c.now.after? 2).isSome) = true := by decide
        rw [show sampleBrief.ttlNanos = some 2 by decide] at hspan
        exact Option.some.inj hspan ▸ List.all_eq_true.1 hall c hc)
  refine ⟨steps, htrace, ?_⟩
  obtain ⟨s₀, s₁, s₂, rfl⟩ := List.length_eq_three.1 (by
    have hlength := congrArg List.length hcalls
    rwa [List.length_map] at hlength)
  obtain ⟨hcall₀, hcall₁, hcall₂⟩ : s₀.call = _ ∧ s₁.call = _ ∧ s₂.call = _ := by
    simpa [sampleCalls] using hcalls
  have hknown : ∀ m, ¬ Strange none m := by
    rintro m ⟨q, ⟨⟩, -⟩
  obtain ⟨_, _, h₀⟩ := (hfollows [] s₀ [s₁, s₂] rfl).accepted.2
    ⟨⟨7, [], [], []⟩, by rw [hcall₀]; rfl, hknown _, by rw [hcall₀]; decide⟩
  have hlog₁ : sampleBrief.recorded ⟨[0, 0, 0, 0], rfl⟩ [s₀] = [(⟨7, []⟩, 0)] := by
    refine (RelayPolicy.recordedBy_of_message (by rw [hcall₀]; rfl) h₀).trans ?_
    rw [hcall₀]
    rfl
  have h₁ := (hfollows [s₀] s₁ [s₂] rfl).duplicate.2
    ⟨⟨7, [], [], []⟩, by rw [hcall₁]; rfl, hknown _, by rw [hcall₁, hlog₁]; decide⟩
  have hlog₂ : sampleBrief.recorded ⟨[0, 0, 0, 0], rfl⟩ [s₀, s₁] = [(⟨7, []⟩, 0)] :=
    (RelayPolicy.recordedBy_of_droppable (s := s₁) (.inr ⟨_, h₁⟩)).trans hlog₁
  obtain ⟨_, _, h₂⟩ := (hfollows [s₀, s₁] s₂ [] rfl).accepted.2
    ⟨⟨7, [], [], []⟩, by rw [hcall₂]; rfl, hknown _, by rw [hcall₂, hlog₂]; decide⟩
  simp [h₀, h₁, h₂, Decision.isAccepted]

end RelayEngine

end SignetFederation
