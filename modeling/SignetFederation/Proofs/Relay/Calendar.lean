import SignetFederation.Proofs.Relay.Decisions
import SignetFederation.Proofs.Relay.Histories
import SignetFederation.Proofs.Relay.Recording

/-!
# Relays within the calendar

A call of an engine does not touch the window, or it makes one use of it and fails exactly if that
use does (`does_call`). So a run of an engine is a history of its window (`exists_trace_iff_run`),
and what is known of histories at any moments tells when runs abort: none does if the time to live
of what is recorded at the last moment ends within the calendar. If it does not, a message and one
more call at that moment are enough.

A time to live passes two limits. It never ends if it is longer than `ttlLimit`; a shorter one must
fit between the moment of recording and the end of the calendar. There are policies in between.

Main statement: `returns_iff_fitsUntil`.
-/

namespace SignetFederation

namespace Instant

theorem reaches_iff {span : Int} {noted : Instant} :
    noted.Reaches (some span) ↔ earliest ≤ noted + span ∧ noted + span ≤ latest := by
  have hafter : (noted.after? span).isSome = true ↔
      earliest ≤ noted + span ∧ noted + span ≤ latest := by
    unfold after?
    dsimp only
    split
    · next hin => exact iff_of_true rfl hin
    · next hout => exact iff_of_false (by simp) hout
  constructor
  · exact fun h => hafter.1 (h span rfl)
  · rintro h _ ⟨⟩
    exact hafter.2 h

end Instant

namespace RelayPolicy

variable {p : RelayPolicy} {now last : Instant}

/-- A message that is recorded until some moment is kept forever, because the time to live is too
long for a span of the calendar, or to a moment that is in the calendar. -/
def FitsUntil (p : RelayPolicy) (last : Instant) : Prop :=
  ∀ t, p.ttl = some t → ttlLimit < t.toNanos ∨ last + t.toNanos ≤ Instant.latest

theorem fitsUntil_iff_reaches (hlast : Instant.earliest ≤ last) :
    p.FitsUntil last ↔ last.Reaches p.ttlNanos := by
  unfold FitsUntil ttlNanos
  cases p.ttl with
  | none =>
    constructor
    · rintro - span ⟨⟩
    · rintro - t ⟨⟩
  | some t =>
    rw [Option.bind_some]
    by_cases hlong : t.toNanos ≤ ttlLimit
    · rw [if_pos hlong, Instant.reaches_iff, Int.ofNat_eq_natCast]
      constructor
      · intro h
        refine ⟨Int.le_trans hlast (Int.le_add_of_nonneg_right (Int.natCast_nonneg _)), ?_⟩
        exact (h t rfl).resolve_left (Nat.not_lt.2 hlong)
      · rintro ⟨-, hend⟩ t' ⟨⟩
        exact .inr hend
    · rw [if_neg hlong]
      constructor
      · rintro - span ⟨⟩
      · rintro - t' ⟨⟩
        exact .inl (Nat.not_le.1 hlong)

/-- What is recorded earlier is over earlier. -/
theorem FitsUntil.earlier (h : p.FitsUntil last) (hle : now ≤ last) : p.FitsUntil now := fun t ht =>
  (h t ht).imp_right fun hend => Int.le_trans (Int.add_le_add_right hle _) hend

end RelayPolicy

namespace RelayEngine

variable {e e' : RelayEngine} {c : RelayCall} {calls : List RelayCall} {m : SignetPsbtMessage}
  {now : Instant} {α β : Type} {u : WindowUse MessageKey}

/-! ## One call -/

/-- The use of the window that a call makes, if any. -/
def use? (e : RelayEngine) (c : RelayCall) : Option (WindowUse MessageKey) :=
  match c.act with
  | .originate m => some (.insert (e.policy.dedup.keyOf m) c.now)
  | .cleanup => some (.expire c.now)
  | act => (act.message? e.magic).bind fun m =>
    if e.knowsSigners m then some (.insert (e.policy.dedup.keyOf m) c.now) else none

/-- A computation that makes one use of the window and changes nothing else of the engine: it fails
if the use does. -/
def Does (e : RelayEngine) (x : Except ClockOverflow (RelayEngine × α)) (u : WindowUse MessageKey) :
    Prop :=
  (∀ w accepted, e.window.use u = .ok (w, accepted) → ∃ a, x = .ok ({ e with window := w }, a)) ∧
    ∀ failure, e.window.use u = .error failure → x = .error failure

/-- What comes after the use only answers. -/
theorem Does.bind {x : Except ClockOverflow (RelayEngine × α)}
    {f : RelayEngine × α → Except ClockOverflow (RelayEngine × β)} (h : e.Does x u)
    (hf : ∀ e' a, ∃ b, f (e', a) = .ok (e', b)) : e.Does (x >>= f) u := by
  constructor
  · intro w accepted huse
    obtain ⟨a, rfl⟩ := h.1 w accepted huse
    exact hf _ a
  · intro failure huse
    rw [h.2 failure huse]
    rfl

theorem Does.exists_use {x : Except ClockOverflow (RelayEngine × α)} {a : α} (h : e.Does x u)
    (hx : x = .ok (e', a)) :
    ∃ w accepted, e.window.use u = .ok (w, accepted) ∧ e' = { e with window := w } := by
  cases huse : e.window.use u with
  | error failure =>
    rw [h.2 failure huse] at hx
    cases hx
  | ok r =>
    obtain ⟨_, hsame⟩ := h.1 r.1 r.2 huse
    rw [hsame] at hx
    cases hx
    exact ⟨r.1, r.2, rfl, rfl⟩

/-- A computation does a use if both begin with the same step on the window. -/
theorem does_of_bind {γ : Type} {y : Except ClockOverflow γ}
    {x : Except ClockOverflow (RelayEngine × α)}
    {left : γ → SeenWindow MessageKey × List (MessageKey × Instant)} (answer : γ → α)
    (huse : e.window.use u = y >>= fun r => .ok (left r))
    (hx : x = y >>= fun r => .ok ({ e with window := (left r).1 }, answer r)) : e.Does x u := by
  subst hx
  unfold Does
  rw [huse]
  cases y with
  | error failure => exact ⟨nofun, fun _ h => congrArg Except.error (Except.error.inj h)⟩
  | ok r =>
    refine ⟨fun w accepted h => ⟨answer r, ?_⟩, nofun⟩
    have hleft : left r = (w, accepted) := Except.ok.inj h
    change Except.ok ({ e with window := (left r).1 }, answer r) = _
    rw [hleft]

theorem does_record (e : RelayEngine) (m : SignetPsbtMessage) (now : Instant) :
    e.Does (e.record m now) (.insert (e.policy.dedup.keyOf m) now) :=
  does_of_bind Prod.snd rfl rfl

theorem does_cleanup (e : RelayEngine) (now : Instant) :
    e.Does (e.cleanup now >>= fun e => .ok (e, RelayAnswer.cleaned)) (.expire now) := by
  have hassoc : (e.cleanup now >>= fun e => .ok (e, RelayAnswer.cleaned)) =
      e.window.expire now >>= fun w => .ok ({ e with window := w }, RelayAnswer.cleaned) :=
    bind_assoc _ _ _
  exact does_of_bind (fun _ => RelayAnswer.cleaned) rfl hassoc

theorem does_handle (sender : Option PeerId) (peers : List PeerId) (hknown : e.knowsSigners m = true)
    (now : Instant) :
    e.Does (e.handle sender peers m now) (.insert (e.policy.dedup.keyOf m) now) := by
  unfold handle
  rw [hknown]
  refine (does_record e m now).bind ?_
  rintro e' (_ | _)
  · exact ⟨_, rfl⟩
  · exact ⟨_, rfl⟩

/-- A call that makes no use of the window answers and changes nothing. -/
theorem exists_call_of_idle (h : e.use? c = none) : ∃ answer, e.call c = .ok (e, answer) := by
  obtain ⟨now, act⟩ := c
  have hhandle : ∀ m sender peers, (if e.knowsSigners m then
      some (WindowUse.insert (e.policy.dedup.keyOf m) now) else none) = none →
      e.handle sender peers m now = .ok (e, .drop .unknownSigner) := by
    intro m sender peers hm
    cases hknown : e.knowsSigners m with
    | true => simp [hknown] at hm
    | false =>
      unfold handle
      rw [hknown]
      rfl
  cases act with
  | handle sender peers m =>
    refine ⟨.handled (.drop .unknownSigner), ?_⟩
    change (e.handle sender peers m now >>= _) = _
    rw [hhandle m sender peers h]
    rfl
  | handleFrame sender peers frame =>
    cases hframe : SignetPsbtMessage.ofFrame frame e.magic with
    | error why =>
      refine ⟨.framed (.drop .malformed) none, ?_⟩
      change (e.handleFrame sender peers frame now >>= _) = _
      rw [handleFrame_of_error hframe]
      rfl
    | ok m =>
      have hm := h
      unfold use? at hm
      simp only [message?_of_ok hframe] at hm
      refine ⟨.framed (.drop .unknownSigner) (some m), ?_⟩
      change (e.handleFrame sender peers frame now >>= _) = _
      rw [handleFrame_of_handle hframe (hhandle m sender peers hm)]
      rfl
  | originate m => cases h
  | cleanup => cases h

/-- A call that makes a use of the window changes nothing but the window. -/
theorem does_call (h : e.use? c = some u) : e.Does (e.call c) u := by
  obtain ⟨now, act⟩ := c
  cases act with
  | handle sender peers m =>
    obtain ⟨hknown, hu⟩ := Option.ite_none_right_eq_some.1 h
    cases hu
    exact (does_handle sender peers hknown now).bind fun _ _ => ⟨_, rfl⟩
  | handleFrame sender peers frame =>
    cases hframe : SignetPsbtMessage.ofFrame frame e.magic with
    | error why => simp [use?, RelayAct.message?, hframe, Except.toOption] at h
    | ok m =>
      unfold use? at h
      simp only [message?_of_ok hframe] at h
      obtain ⟨hknown, hu⟩ := Option.ite_none_right_eq_some.1 h
      cases hu
      change e.Does (e.handleFrame sender peers frame now >>= _) _
      unfold handleFrame
      rw [hframe]
      refine ((does_handle sender peers hknown now).bind ?_).bind ?_
      · exact fun _ _ => ⟨_, rfl⟩
      · exact fun _ _ => ⟨_, rfl⟩
  | originate m =>
    cases h
    change e.Does ((e.record m now >>= _) >>= _) _
    refine ((does_record e m now).bind ?_).bind ?_
    · exact fun _ _ => ⟨_, rfl⟩
    · exact fun _ _ => ⟨_, rfl⟩
  | cleanup =>
    cases h
    exact does_cleanup e now

theorem now_of_use? (h : e.use? c = some u) : u.now = c.now := by
  obtain ⟨now, act⟩ := c
  have hmessage : ∀ act : RelayAct, ((act.message? e.magic).bind fun m =>
      if e.knowsSigners m then some (WindowUse.insert (e.policy.dedup.keyOf m) now) else none) =
      some u → u.now = now := by
    intro act h
    obtain ⟨m, -, h⟩ := Option.bind_eq_some_iff.1 h
    obtain ⟨-, hu⟩ := Option.ite_none_right_eq_some.1 h
    cases hu
    rfl
  cases act with
  | handle sender peers m => exact hmessage (.handle sender peers m) h
  | handleFrame sender peers frame => exact hmessage (.handleFrame sender peers frame) h
  | originate m =>
    cases h
    rfl
  | cleanup =>
    cases h
    rfl

/-- Whatever a call does, the window is the one before it or the one after the use. -/
theorem of_call_eq_ok {answer : RelayAnswer} (h : e.call c = .ok (e', answer)) :
    e' = e ∨ ∃ u w accepted, e.use? c = some u ∧ e.window.use u = .ok (w, accepted) ∧
      e' = { e with window := w } := by
  cases hu : e.use? c with
  | none =>
    obtain ⟨_, hcall⟩ := exists_call_of_idle hu
    rw [hcall] at h
    cases h
    exact .inl rfl
  | some u =>
    obtain ⟨w, accepted, huse, rfl⟩ := (does_call hu).exists_use h
    exact .inr ⟨u, w, accepted, rfl, huse, rfl⟩

/-! ## Whole runs -/

theorem trace_cons_eq_ok_iff {steps : List RelayStep} :
    e.trace (c :: calls) = .ok steps ↔ ∃ e' answer later, e.call c = .ok (e', answer) ∧
      e'.trace calls = .ok later ∧ steps = ⟨e, c, answer, e'⟩ :: later := by
  constructor
  · intro h
    obtain ⟨⟨e', answer⟩, hcall, h⟩ := bind_eq_ok_iff.1 h
    obtain ⟨later, hlater, heq⟩ := bind_eq_ok_iff.1 h
    cases heq
    exact ⟨e', answer, later, hcall, hlater, rfl⟩
  · rintro ⟨e', answer, later, hcall, hlater, rfl⟩
    exact bind_eq_ok_iff.2 ⟨(e', answer), hcall, bind_eq_ok_iff.2 ⟨later, hlater, rfl⟩⟩

theorem exists_trace_cons_iff : (∃ steps, e.trace (c :: calls) = .ok steps) ↔
    ∃ e' answer, e.call c = .ok (e', answer) ∧ ∃ steps, e'.trace calls = .ok steps := by
  simp only [trace_cons_eq_ok_iff]
  constructor
  · rintro ⟨_, e', answer, later, hcall, hlater, -⟩
    exact ⟨e', answer, hcall, later, hlater⟩
  · rintro ⟨e', answer, hcall, later, hlater⟩
    exact ⟨_, e', answer, later, hcall, hlater, rfl⟩

/-- **A run is a history of the window**: it returns exactly if the uses that its calls make do. -/
theorem exists_trace_iff_run : (∃ steps, e.trace calls = .ok steps) ↔
    ∃ r, e.window.run (calls.filterMap e.use?) = .ok r := by
  -- which uses the calls make does not depend on the window, so it stays the same on the way
  induction calls generalizing e with
  | nil => exact iff_of_true ⟨[], rfl⟩ ⟨(e.window, []), rfl⟩
  | cons c calls ih =>
    rw [exists_trace_cons_iff]
    cases hu : e.use? c with
    | none =>
      rw [List.filterMap_cons_none hu, ← ih]
      obtain ⟨answer, hcall⟩ := exists_call_of_idle hu
      rw [hcall]
      constructor
      · rintro ⟨_, _, ⟨⟩, hlater⟩
        exact hlater
      · exact fun hlater => ⟨e, answer, rfl, hlater⟩
    | some u =>
      rw [List.filterMap_cons_some hu]
      have hdoes := does_call hu
      constructor
      · rintro ⟨e', answer, hcall, hlater⟩
        obtain ⟨w, accepted, huse, rfl⟩ := hdoes.exists_use hcall
        obtain ⟨⟨w', later⟩, hrun⟩ := ih.1 hlater
        exact ⟨_, SeenWindow.run_cons_eq_ok_iff.2 ⟨w, accepted, later, huse, hrun, rfl⟩⟩
      · rintro ⟨⟨w', log⟩, hrun⟩
        obtain ⟨w, accepted, later, huse, hrest, -⟩ := SeenWindow.run_cons_eq_ok_iff.1 hrun
        obtain ⟨answer, hcall⟩ := hdoes.1 w accepted huse
        exact ⟨_, answer, hcall, ih.2 ⟨_, hrest⟩⟩

/-- What a run leaves in the window was noted before it, or when one of its calls was made. -/
theorem noted_of_trace {P : Instant → Prop} {capacity : Nat} {ttl : Option Int}
    {steps : List RelayStep} (h : e.window.Sound capacity ttl) (hnoted : ∀ x ∈ e.window.order, P x.2)
    (hcalls : ∀ c ∈ calls, P c.now) (htrace : e.trace calls = .ok steps) :
    ∀ s ∈ steps, s.after.window.Sound capacity ttl ∧ ∀ x ∈ s.after.window.order, P x.2 := by
  induction calls generalizing e steps with
  | nil =>
    obtain rfl := Except.ok.inj htrace
    exact List.forall_mem_nil _
  | cons c calls ih =>
    obtain ⟨e', answer, later, hcall, hlater, rfl⟩ := trace_cons_eq_ok_iff.1 htrace
    obtain ⟨hc, hcalls⟩ := List.forall_mem_cons.1 hcalls
    have hnext : e'.window.Sound capacity ttl ∧ ∀ x ∈ e'.window.order, P x.2 := by
      obtain rfl | ⟨u, w, accepted, hu, huse, rfl⟩ := of_call_eq_ok hcall
      · exact ⟨h, hnoted⟩
      · refine ⟨h.use huse, SeenWindow.forall_order_of_use huse h.indexed hnoted ?_⟩
        rintro k now rfl
        have hnow : now = c.now := now_of_use? hu
        rwa [hnow]
    exact List.forall_mem_cons.2 ⟨hnext, ih hnext.1 hnext.2 hcalls hlater⟩

/-! ## The calendar -/

/-- A call fails only over a recorded message. -/
theorem exists_call (h : ∀ x ∈ e.window.order, x.2.Reaches e.window.ttl) :
    ∃ r, e.call c = .ok r := by
  cases hu : e.use? c with
  | none =>
    obtain ⟨answer, hcall⟩ := exists_call_of_idle hu
    exact ⟨(e, answer), hcall⟩
  | some u =>
    obtain ⟨⟨w, accepted⟩, huse⟩ := SeenWindow.exists_use (u := u) h
    obtain ⟨answer, hcall⟩ := (does_call hu).1 w accepted huse
    exact ⟨_, hcall⟩

section Make

variable {policy : RelayPolicy} {magic : Magic} {quorum : Option Quorum} {localKey : Option XOnlyKey}

/-- Runs return if what is recorded in them is kept within the calendar. -/
theorem exists_trace_of_reaches (h : ∀ c ∈ calls, c.now.Reaches policy.ttlNanos) :
    ∃ steps, (make policy magic quorum localKey).trace calls = .ok steps := by
  refine exists_trace_iff_run.2
    (SeenWindow.exists_run (SeenWindow.sound_empty policy.capacity policy.ttlNanos) ?_ ?_)
  · exact List.forall_mem_nil _
  · intro k now hmem
    obtain ⟨c, hc, hu⟩ := List.mem_filterMap.1 hmem
    have hnow : now = c.now := now_of_use? hu
    exact hnow ▸ h c hc

/-- A message that is recorded at some moment, and one look at the window. -/
def noteAndClean (now : Instant) : List RelayCall :=
  [⟨now, .originate ⟨0, [], [], []⟩⟩, ⟨now, .cleanup⟩]

/-- These two calls are enough to see whether what is recorded then is kept within the calendar. -/
theorem reaches_of_noteAndClean {steps : List RelayStep}
    (h : (make policy magic quorum localKey).trace (noteAndClean now) = .ok steps) :
    now.Reaches policy.ttlNanos := by
  obtain ⟨⟨w', log⟩, hrun⟩ := exists_trace_iff_run.1 ⟨steps, h⟩
  obtain ⟨w, accepted, rest, huse, hrest, -⟩ := SeenWindow.run_cons_eq_ok_iff.1 hrun
  obtain ⟨w₂, _, _, hexpire, -, -⟩ := SeenWindow.run_cons_eq_ok_iff.1 hrest
  obtain ⟨w₃, hexpire, -⟩ := bind_eq_ok_iff.1 hexpire
  obtain ⟨⟨_, fresh⟩, hinsert, heq⟩ := bind_eq_ok_iff.1 huse
  cases heq
  change SeenWindow.insertAt (SeenWindow.empty policy.capacity policy.ttlNanos) _ _ = _ at hinsert
  rw [SeenWindow.insertAt_of_retains (SeenWindow.retains_of_empty _ _ _ _)] at hinsert
  cases hinsert
  have hreach := SeenWindow.reaches_of_expire hexpire
  unfold SeenWindow.remember at hreach
  rw [if_neg (by simp [SeenWindow.empty, SeenWindow.contains])] at hreach
  exact hreach _ rfl

end Make

/-- **Which time to live is safe.** Let an engine be called at moments between two in the calendar,
in any order. All such runs return exactly if the policy's time to live is so long that it does not
end, or what is recorded at the last moment is kept to a moment within the calendar. In every run
the recorded messages are noted between the two moments, so that under this condition no sum of
theirs leaves the calendar; and a call fails only over a recorded message whose sum does. -/
theorem returns_iff_fitsUntil (policy : RelayPolicy) (magic : Magic) (quorum : Option Quorum)
    (localKey : Option XOnlyKey) (first last : Instant) (hfirst : Instant.earliest ≤ first)
    (hle : first ≤ last) :
    ((∀ calls : List RelayCall, (∀ c ∈ calls, first ≤ c.now ∧ c.now ≤ last) →
        ∃ steps, (make policy magic quorum localKey).trace calls = .ok steps) ↔
      policy.FitsUntil last) ∧
    ∀ (calls : List RelayCall) (steps : List RelayStep),
      (∀ c ∈ calls, first ≤ c.now ∧ c.now ≤ last) →
      (make policy magic quorum localKey).trace calls = .ok steps → ∀ s ∈ steps,
        (∀ x ∈ s.after.window.order, (first ≤ x.2 ∧ x.2 ≤ last) ∧
          (policy.FitsUntil last → x.2.Reaches policy.ttlNanos)) ∧
        ∀ c, s.after.call c = .error ⟨⟩ →
          ∃ x ∈ s.after.window.order, ¬ x.2.Reaches policy.ttlNanos := by
  have hreach : ∀ now, first ≤ now ∧ now ≤ last → policy.FitsUntil last →
      now.Reaches policy.ttlNanos := by
    intro now hnow hfits
    exact (RelayPolicy.fitsUntil_iff_reaches (Int.le_trans hfirst hnow.1)).1 (hfits.earlier hnow.2)
  refine ⟨⟨fun hall => ?_, fun hfits calls hcalls => ?_⟩, ?_⟩
  · have hcalls : ∀ c ∈ noteAndClean last, first ≤ c.now ∧ c.now ≤ last := by
      simp [noteAndClean, hle]
    obtain ⟨steps, htrace⟩ := hall (noteAndClean last) hcalls
    exact (RelayPolicy.fitsUntil_iff_reaches (Int.le_trans hfirst hle)).2
      (reaches_of_noteAndClean htrace)
  · exact exists_trace_of_reaches fun c hc => hreach c.now (hcalls c hc) hfits
  · intro calls steps hcalls htrace s hs
    obtain ⟨hsound, hnoted⟩ := noted_of_trace (P := fun now => first ≤ now ∧ now ≤ last)
      (SeenWindow.sound_empty policy.capacity policy.ttlNanos) (List.forall_mem_nil _) hcalls
      htrace s hs
    refine ⟨fun x hx => ⟨hnoted x hx, hreach x.2 (hnoted x hx)⟩, fun c hcall => ?_⟩
    by_contra hnone
    push Not at hnone
    obtain ⟨r, hreturns⟩ := exists_call (c := c) (hsound.span.symm ▸ hnone)
    rw [hreturns] at hcall
    cases hcall

/-- Room for 1024 messages, which are kept for some seconds. -/
def sampleSeconds (seconds : Nat) : RelayPolicy := ⟨1024, some (.ofSeconds seconds), .nonce, true⟩

/-- Two messages, the second of which comes when the clock went back from the end of 2200 to the
beginning of 2000. -/
def sampleBack : List RelayCall :=
  [⟨7289654399999999999, .handle none [] ⟨1, [], [], []⟩⟩,
    ⟨946684800000000000, .handle none [] ⟨2, [], [], []⟩⟩]

/-- The most seconds that fit until the end of 2200, short of those that never end. -/
theorem returns_iff_fitsUntil_sample :
    (sampleSeconds 8202977222400).FitsUntil 7289654399999999999 ∧
      ¬ (sampleSeconds 8202977222401).FitsUntil 7289654399999999999 ∧
      ∃ steps, (make (sampleSeconds 8202977222400) ⟨[0, 0, 0, 0], rfl⟩ none none).trace sampleBack =
        .ok steps := by
  have hfits : (sampleSeconds 8202977222400).FitsUntil 7289654399999999999 := by
    rintro t ⟨⟩
    exact .inr (by decide)
  have hbeyond : ¬ (sampleSeconds 8202977222401).FitsUntil 7289654399999999999 := fun h =>
    (h _ rfl).elim (by decide) (by decide)
  have hcalls : ∀ c ∈ sampleBack, 946684800000000000 ≤ c.now ∧ c.now ≤ 7289654399999999999 := by
    simp [sampleBack]
  obtain ⟨hreturns, -⟩ := returns_iff_fitsUntil (sampleSeconds 8202977222400) ⟨[0, 0, 0, 0], rfl⟩
    none none 946684800000000000 7289654399999999999 (by decide) (by decide)
  exact ⟨hfits, hbeyond, hreturns.2 hfits sampleBack hcalls⟩

/-- Messages are kept for 10^13 seconds, which is not too long for a span of the calendar. In 2023
the first one is taken, and the second one ends the program. -/
theorem trace_beyond_calendar :
    (∃ steps, (make (sampleSeconds 10000000000000) ⟨[0, 0, 0, 0], rfl⟩ none none).trace
        [⟨1700000000000000000, .handle none [] ⟨1, [], [], []⟩⟩] = .ok steps) ∧
      (make (sampleSeconds 10000000000000) ⟨[0, 0, 0, 0], rfl⟩ none none).trace
        [⟨1700000000000000000, .handle none [] ⟨1, [], [], []⟩⟩,
          ⟨1700000001000000000, .handle none [] ⟨2, [], [], []⟩⟩] = .error ⟨⟩ := by
  simp [trace, call, handle, knowsSigners, record, make, sampleSeconds, RelayPolicy.ttlNanos,
    RelayPolicy.ttlLimit, Timespan.toNanos, Timespan.ofSeconds, SeenWindow.insertAt,
    SeenWindow.expire, SeenWindow.expireFront, SeenWindow.empty, SeenWindow.evict,
    SeenWindow.contains, DedupKey.keyOf, Instant.after?, Instant.earliest, Instant.latest, bind,
    Except.bind, pure, Except.pure]

end RelayEngine

end SignetFederation
