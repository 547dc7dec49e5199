import SignetFederation.Proofs.Signing.Failures

/-!
# Collecting partial PSBTs

A collection takes PSBTs off a queue and merges them one after another. It takes the next one only
while the round collects (`Waits`), and it ends in one of three ways (`Ending`): the round is
complete, a merge failed it, or the queue has run dry. Each way is said of the merges alone, and
where one of them is met nothing more can be taken (`Ending.stops`), so a queue has one ending
(`Ending.unique`) and the collection finds it (`exists_ending`).

A round that a collection leaves collecting is the one that all PSBTs of the queue make. So the next
collection goes on as if there had been one queue (`mergeQueue_append_of_dry`).

All this is for collections whose deadline the clock can tell. It is set before anything else, and if
it is out of the clock's range the program ends, though the round be complete
(`collect_eq_error_iff`).

Main statement: `collect_folds_merges`.
-/

namespace SignetFederation.Round

variable {r : Round} {p : Psbt} {taken left queue : List Psbt} {closed : Bool} {timeout : Timespan}
  {answer : Except Error Unit}

/-! ## Rounds that collect -/

/-- The round has neither failed nor enough signatures. -/
def Collecting (r : Round) : Prop :=
  ∃ signatures required, r.state = .collecting signatures required

theorem collecting_iff : r.Collecting ↔ r.failure = none ∧ r.isComplete = false := by
  unfold Collecting state
  cases r.failure with
  | some reason => simp
  | none => cases r.isComplete <;> simp

theorem Collecting.not_failed (h : r.Collecting) : ¬ r.Failed := not_failed_iff.2 (collecting_iff.1 h).1

theorem Collecting.not_complete (h : r.Collecting) : r.state ≠ .complete := by
  obtain ⟨_, _, hstate⟩ := h
  rw [hstate]
  nofun

theorem isComplete_iff : r.isComplete = true ↔ r.state = .complete := by
  rw [state_eq_complete_iff, isComplete, Bool.and_eq_true, Option.isNone_iff_eq_none, Bool.or_eq_true,
    decide_eq_true_eq]

/-- A round that has not failed is complete or collects. -/
theorem complete_or_collecting (h : ¬ r.Failed) : r.state = .complete ∨ r.Collecting := by
  cases hc : r.isComplete with
  | true => exact .inl (isComplete_iff.1 hc)
  | false => exact .inr (collecting_iff.2 ⟨not_failed_iff.1 h, hc⟩)

/-! ## Merges one after another -/

theorem mergeAll_append (r : Round) (ps later : List Psbt) :
    r.mergeAll (ps ++ later) = (r.mergeAll ps).mergeAll later := List.foldl_append

theorem mergeAll_concat (r : Round) (ps : List Psbt) (p : Psbt) :
    r.mergeAll (ps ++ [p]) = ((r.mergeAll ps).merge p).1 := mergeAll_append r ps [p]

/-- A round that collects after some merges collected before the last of them: neither a failure nor
completion is undone without failing. -/
theorem Collecting.of_mergeAll {ps : List Psbt} (h : (r.mergeAll ps).Collecting) : r.Collecting := by
  have hactive : ¬ r.Failed := by
    intro hfailed
    obtain ⟨reason, hstate⟩ := hfailed
    rw [mergeAll_of_failed (failure_of_state hstate)] at h
    exact h.not_failed ⟨reason, hstate⟩
  refine (complete_or_collecting hactive).resolve_left fun hcomplete => h.not_complete ?_
  exact (mergeAll_extends r ps).complete (collecting_iff.1 h).1 hcomplete

/-- A PSBT that a merge calls unfit leaves the round as it is. -/
theorem merge_of_unfit {fault : PsbtFault} (h : (r.merge p).2 = .error (.psbt fault)) :
    (r.merge p).1 = r := by
  by_cases hfailed : r.Failed
  · obtain ⟨reason, hstate⟩ := hfailed
    rw [merge_of_failed (failure_of_state hstate)]
  · rcases merge_cases (not_failed_iff.1 hfailed) p with ⟨_, _, hunfit⟩ | ⟨_, _, _, hrow⟩
    · rw [hunfit]
    · exact absurd ((hrow _).1 h) takeAll_ne_psbt

/-- A merge takes all that a PSBT brings, or calls the PSBT unfit. -/
def Passes (r : Round) (p : Psbt) : Prop :=
  (∃ state, (r.merge p).2 = .ok state) ∨ ∃ fault, (r.merge p).2 = .error (.psbt fault)

/-- A PSBT passes an active round, which stays active, or fails it with the error of its merge as the
reason. -/
theorem passes_or_fails (h : ¬ r.Failed) (p : Psbt) :
    (r.Passes p ∧ ¬ (r.merge p).1.Failed) ∨
      ∃ why, (r.merge p).2 = .error why ∧ (∀ fault, why ≠ .psbt fault) ∧
        (r.merge p).1.state = .failed why.message := by
  cases hanswer : (r.merge p).2 with
  | ok state =>
    exact .inl ⟨.inl ⟨state, hanswer⟩, not_failed_iff.2 (state_of_merge_ok hanswer).2⟩
  | error why =>
    rcases merge_cases (not_failed_iff.1 h) p with ⟨_, fault, hunfit⟩ | ⟨i, hi, hround, hrow⟩
    · refine .inl ⟨.inr ⟨fault, by rw [hunfit]⟩, ?_⟩
      rw [hunfit]
      exact h
    · have htaken := (hrow why).1 hanswer
      refine .inr ⟨why, rfl, ?_, ?_⟩
      · rintro fault rfl
        exact takeAll_ne_psbt htaken
      · rw [hround]
        exact (failedBy_of_takeAll hi htaken).reason

/-! ## One step of a collection -/

/-- The error of a collection whose queue runs dry: nobody sends any more, or not in time. -/
def ranDry (closed : Bool) (timeout : Timespan) : Error :=
  if closed then .relay .channelClosed else .collectionTimeout timeout

theorem mergeQueue_of_complete (h : r.state = .complete) (queue : List Psbt) :
    mergeQueue closed timeout r queue = (r, queue, .ok ()) := by
  cases queue <;> simp [mergeQueue, isComplete_iff.2 h]

theorem mergeQueue_nil_of_collecting (h : r.Collecting) :
    mergeQueue closed timeout r [] = (r, [], .error (ranDry closed timeout)) := by
  obtain ⟨hactive, hincomplete⟩ := collecting_iff.1 h
  simp [mergeQueue, hactive, hincomplete, ranDry]

/-- A PSBT that passes is behind the collection. -/
theorem mergeQueue_cons_of_passes (h : r.Collecting) (hpasses : r.Passes p) (queue : List Psbt) :
    mergeQueue closed timeout r (p :: queue) = mergeQueue closed timeout (r.merge p).1 queue := by
  obtain ⟨hactive, hincomplete⟩ := collecting_iff.1 h
  unfold Passes at hpasses
  rw [mergeQueue]
  simp only [hactive, hincomplete, Bool.false_eq_true, if_false]
  generalize r.merge p = merged at hpasses
  obtain ⟨r', why | state⟩ := merged
  · rcases hpasses with ⟨_, ⟨⟩⟩ | ⟨fault, hfault⟩
    cases hfault
    rfl
  · rfl

/-- Any other error of a merge ends the collection. -/
theorem mergeQueue_cons_of_error (h : r.Collecting) {why : Error} (hmerge : (r.merge p).2 = .error why)
    (hfinal : ∀ fault, why ≠ .psbt fault) (queue : List Psbt) :
    mergeQueue closed timeout r (p :: queue) = ((r.merge p).1, queue, .error why) := by
  obtain ⟨hactive, hincomplete⟩ := collecting_iff.1 h
  rw [mergeQueue]
  simp only [hactive, hincomplete, Bool.false_eq_true, if_false]
  generalize r.merge p = merged at hmerge
  obtain ⟨r', _⟩ := merged
  cases hmerge
  split
  · next heq => cases heq
  · next heq =>
    cases heq
    exact absurd rfl (hfinal _)
  · next heq =>
    cases heq
    rfl

/-! ## How a collection ends -/

/-- The round collects whenever a PSBT of a row is taken. -/
def Waits (r : Round) (taken : List Psbt) : Prop :=
  ∀ before p after, taken = before ++ p :: after → (r.mergeAll before).Collecting

/-- How a collection ends that has taken some PSBTs off a queue and left the others: the round that
the taken ones make is complete; or the last of them failed it; or there are no others and the round
still collects. -/
inductive Ending (closed : Bool) (timeout : Timespan) (r : Round) :
    (taken left : List Psbt) → (answer : Except Error Unit) → Prop
  | complete {taken left : List Psbt} (h : (r.mergeAll taken).state = .complete) :
    Ending closed timeout r taken left (.ok ())
  | failed {before left : List Psbt} {p : Psbt} {why : Error}
    (h : ((r.mergeAll before).merge p).2 = .error why) (hfinal : ∀ fault, why ≠ .psbt fault)
    (hfailed : (r.mergeAll (before ++ [p])).state = .failed why.message) :
    Ending closed timeout r (before ++ [p]) left (.error why)
  | dry {taken : List Psbt} (h : (r.mergeAll taken).Collecting) :
    Ending closed timeout r taken [] (.error (ranDry closed timeout))

theorem Waits.nil : r.Waits [] := by
  intro before p after h
  cases List.append_eq_nil_iff.1 h.symm |>.2

theorem Waits.cons (h : r.Collecting) (hrest : (r.merge p).1.Waits taken) : r.Waits (p :: taken) := by
  rintro (_ | ⟨first, before⟩) p' after heq
  · exact h
  · obtain ⟨rfl, rfl⟩ := List.cons.inj heq
    exact hrest before p' after rfl

namespace Ending

/-- The ending of what comes after the first PSBT is that of the whole queue. -/
theorem cons (h : Ending closed timeout (r.merge p).1 taken left answer) :
    Ending closed timeout r (p :: taken) left answer := by
  cases h with
  | complete h => exact .complete h
  | @failed before _ p' _ h hfinal hfailed =>
    exact @Ending.failed closed timeout r (p :: before) left p' _ h hfinal hfailed
  | dry h => exact .dry h

/-- Where a collection ends, the round does not collect or nothing is left. -/
theorem stops (h : Ending closed timeout r taken left answer) :
    ¬ (r.mergeAll taken).Collecting ∨ left = [] := by
  cases h with
  | complete h => exact .inl fun hc => hc.not_complete h
  | failed _ _ hfailed => exact .inl fun hc => hc.not_failed ⟨_, hfailed⟩
  | dry => exact .inr rfl

/-- What was taken decides the answer. -/
theorem answer_unique {answer' : Except Error Unit} (h : Ending closed timeout r taken left answer)
    (h' : Ending closed timeout r taken left answer') : answer = answer' := by
  cases h with
  | complete h =>
    cases h' with
    | complete => rfl
    | failed _ _ hfailed =>
      rw [h] at hfailed
      cases hfailed
    | dry hc => exact absurd h hc.not_complete
  | @failed before _ p why h _ hfailed =>
    generalize htaken : before ++ [p] = taken at h'
    cases h' with
    | complete hcomplete =>
      rw [← htaken, hfailed] at hcomplete
      cases hcomplete
    | failed hmerge =>
      obtain ⟨rfl, hlast⟩ := List.append_inj' htaken rfl
      cases hlast
      cases h.symm.trans hmerge
      rfl
    | dry hc => exact absurd ⟨_, htaken ▸ hfailed⟩ hc.not_failed
  | dry h =>
    generalize hleft : ([] : List Psbt) = left at h'
    cases h' with
    | complete hcomplete => exact absurd hcomplete h.not_complete
    | failed _ _ hfailed => exact absurd ⟨_, hfailed⟩ h.not_failed
    | dry => rfl

/-- A longer row that is taken off the same queue passes a place where nothing more can be taken. -/
theorem eq_nil_of_waits {more left' : List Psbt} (h : Ending closed timeout r taken left answer)
    (hwaits : r.Waits (taken ++ more)) (hleft : left = more ++ left') : more = [] := by
  cases more with
  | nil => rfl
  | cons p more =>
    rcases h.stops with hstops | rfl
    · exact absurd (hwaits taken p more rfl) hstops
    · cases hleft

/-- A queue has one ending. -/
theorem unique {taken' left' : List Psbt} {answer' : Except Error Unit}
    (h : Ending closed timeout r taken left answer) (hwaits : r.Waits taken)
    (h' : Ending closed timeout r taken' left' answer') (hwaits' : r.Waits taken')
    (hqueue : taken ++ left = taken' ++ left') :
    taken = taken' ∧ left = left' ∧ answer = answer' := by
  obtain ⟨htaken, hleft⟩ : taken = taken' ∧ left = left' := by
    rcases List.append_eq_append_iff.1 hqueue with ⟨more, rfl, rfl⟩ | ⟨more, rfl, rfl⟩
    · cases h.eq_nil_of_waits hwaits' rfl
      simp
    · cases h'.eq_nil_of_waits hwaits rfl
      simp
  subst htaken hleft
  exact ⟨rfl, rfl, h.answer_unique h'⟩

end Ending

/-- A collection has an ending: it has merged what it has taken, one after another. -/
theorem exists_ending (h : ¬ r.Failed) (closed : Bool) (timeout : Timespan) (queue : List Psbt) :
    ∃ taken left answer, queue = taken ++ left ∧ r.Waits taken ∧
      Ending closed timeout r taken left answer ∧
      mergeQueue closed timeout r queue = (r.mergeAll taken, left, answer) := by
  induction queue generalizing r with
  | nil =>
    rcases complete_or_collecting h with hcomplete | hcollecting
    · exact ⟨[], [], _, rfl, .nil, .complete hcomplete, mergeQueue_of_complete hcomplete []⟩
    · exact ⟨[], [], _, rfl, .nil, .dry hcollecting, mergeQueue_nil_of_collecting hcollecting⟩
  | cons p queue ih =>
    rcases complete_or_collecting h with hcomplete | hcollecting
    · exact ⟨[], p :: queue, _, rfl, .nil, .complete hcomplete, mergeQueue_of_complete hcomplete _⟩
    rcases passes_or_fails h p with ⟨hpasses, hactive⟩ | ⟨why, herror, hfinal, hfailed⟩
    · obtain ⟨taken, left, answer, rfl, hwaits, hending, hcollect⟩ := ih hactive
      refine ⟨p :: taken, left, answer, rfl, hwaits.cons hcollecting, hending.cons, ?_⟩
      rw [mergeQueue_cons_of_passes hcollecting hpasses, hcollect]
      rfl
    · exact ⟨[p], queue, .error why, rfl, .cons hcollecting .nil,
        @Ending.failed closed timeout r [] queue p why herror hfinal hfailed,
        mergeQueue_cons_of_error hcollecting herror hfinal queue⟩

/-- What a collection leaves and answers is what merging up to an ending does. -/
theorem mergeQueue_eq_iff {r' : Round} (h : ¬ r.Failed) :
    mergeQueue closed timeout r queue = (r', left, answer) ↔ ∃ taken, queue = taken ++ left ∧
      r' = r.mergeAll taken ∧ r.Waits taken ∧ Ending closed timeout r taken left answer := by
  obtain ⟨taken, left₀, answer₀, hqueue, hwaits, hending, hcollect⟩ :=
    exists_ending h closed timeout queue
  constructor
  · intro heq
    rw [hcollect] at heq
    cases heq
    exact ⟨taken, hqueue, rfl, hwaits, hending⟩
  · rintro ⟨taken', hqueue', rfl, hwaits', hending'⟩
    obtain ⟨rfl, rfl, rfl⟩ :=
      hending.unique hwaits hending' hwaits' (hqueue.symm.trans hqueue')
    exact hcollect

/-! ## Several queues -/

/-- A queue that leaves the round collecting is merged as a whole. -/
theorem waits_of_collecting (h : (r.mergeAll taken).Collecting) : r.Waits taken := by
  rintro before p after rfl
  rw [mergeAll_append] at h
  exact h.of_mergeAll

/-- After such a queue the collection goes on with what comes next. -/
theorem mergeQueue_append_of_dry (h : (r.mergeAll taken).Collecting) (later : List Psbt) :
    mergeQueue closed timeout r (taken ++ later) = mergeQueue closed timeout (r.mergeAll taken) later := by
  induction taken generalizing r with
  | nil => rfl
  | cons p taken ih =>
    have hrest : ((r.merge p).1.mergeAll taken).Collecting := h
    have hcollecting : r.Collecting := h.of_mergeAll
    have hpasses : r.Passes p := by
      rcases passes_or_fails hcollecting.not_failed p with ⟨hpasses, _⟩ | ⟨_, _, _, hfailed⟩
      · exact hpasses
      · exact absurd ⟨_, hfailed⟩ hrest.of_mergeAll.not_failed
    rw [List.cons_append, mergeQueue_cons_of_passes hcollecting hpasses, ih hrest]
    rfl

/-- An ending that is not for want of PSBTs stays one when others are put behind. -/
theorem Ending.append {closed' : Bool} {timeout' : Timespan}
    (h : Ending closed timeout r taken left answer) (hends : ¬ (r.mergeAll taken).Collecting)
    (later : List Psbt) : Ending closed' timeout' r taken (left ++ later) answer := by
  cases h with
  | complete h => exact .complete h
  | failed h hfinal hfailed => exact .failed h hfinal hfailed
  | dry h => exact absurd h hends

/-! ## Collections as folds -/

section Deadline

variable {now : Uptime}

/-- The deadline alone decides whether a collection ends the program. -/
theorem collect_eq_error_iff : collect now closed timeout r queue = .error ⟨⟩ ↔
    Uptime.latest < now + timeout.toNanos := by
  rw [← Uptime.after?_eq_none_iff, collect]
  cases now.after? timeout with
  | none => exact iff_of_true rfl rfl
  | some deadline => exact iff_of_false nofun nofun

theorem collect_of_reaches (h : now + timeout.toNanos ≤ Uptime.latest) :
    collect now closed timeout r queue = .ok (mergeQueue closed timeout r queue) := by
  rw [collect, Uptime.after?_eq_some_iff.2 ⟨h, rfl⟩]

theorem reaches_of_collect {result : Round × List Psbt × Except Error Unit}
    (h : collect now closed timeout r queue = .ok result) :
    now + timeout.toNanos ≤ Uptime.latest := by
  by_contra hlate
  rw [collect_eq_error_iff.2 (Int.not_le.1 hlate)] at h
  cases h

/-- What a collection leaves and answers is what merging up to an ending does. -/
theorem collect_eq_ok_iff {r' : Round} (h : ¬ r.Failed)
    (hnow : now + timeout.toNanos ≤ Uptime.latest) :
    collect now closed timeout r queue = .ok (r', left, answer) ↔ ∃ taken, queue = taken ++ left ∧
      r' = r.mergeAll taken ∧ r.Waits taken ∧ Ending closed timeout r taken left answer := by
  rw [collect_of_reaches hnow, Except.ok.injEq, mergeQueue_eq_iff h]

end Deadline

/-- **A collection folds merges over its queue.** Let a round not have failed. A collection whose
deadline the clock cannot tell ends the program. Any other one takes PSBTs off the front of the queue,
merges them one after another and answers as its ending says, and that is all there is to it: merges
that end in this way are what the collection does. None is taken if the round is complete already. If
all PSBTs of the queue leave the round collecting, they are all merged, and the answer is that the
queue is closed or the time is over.

A PSBT that a merge calls unfit leaves the round as it is. A later collection goes on from a round that
collects as if its queue had been behind this one. What stands behind a queue that completes or fails
the round stays there. -/
theorem collect_folds_merges (h : ¬ r.Failed) (now : Uptime) (closed : Bool) (timeout : Timespan)
    (queue : List Psbt) :
    (collect now closed timeout r queue = .error ⟨⟩ ↔ Uptime.latest < now + timeout.toNanos) ∧
      (now + timeout.toNanos ≤ Uptime.latest →
        (∀ r' left answer, collect now closed timeout r queue = .ok (r', left, answer) ↔
          ∃ taken, queue = taken ++ left ∧ r' = r.mergeAll taken ∧ r.Waits taken ∧
            Ending closed timeout r taken left answer) ∧
          (r.state = .complete → collect now closed timeout r queue = .ok (r, queue, .ok ())) ∧
          ((r.mergeAll queue).Collecting → collect now closed timeout r queue =
            .ok (r.mergeAll queue, [],
              .error (if closed then .relay .channelClosed else .collectionTimeout timeout)))) ∧
      (∀ before p fault, ((r.mergeAll before).merge p).2 = .error (.psbt fault) →
        r.mergeAll (before ++ [p]) = r.mergeAll before) ∧
      ((r.mergeAll queue).Collecting → ∀ now' closed' timeout' later,
        collect now' closed' timeout' r (queue ++ later) =
          collect now' closed' timeout' (r.mergeAll queue) later) ∧
      (¬ (r.mergeAll queue).Collecting → ∀ r' left answer,
        collect now closed timeout r queue = .ok (r', left, answer) →
        ∀ now' closed' timeout' later, now' + timeout'.toNanos ≤ Uptime.latest →
          collect now' closed' timeout' r (queue ++ later) = .ok (r', left ++ later, answer)) := by
  refine ⟨collect_eq_error_iff, fun hnow => ⟨fun r' left answer => collect_eq_ok_iff h hnow,
    fun hcomplete => ?_, fun hdry => ?_⟩, fun before p fault hunfit => ?_,
    fun hdry now' closed' timeout' later => ?_,
    fun hends r' left answer hcollect now' closed' timeout' later hnow' => ?_⟩
  · rw [collect_of_reaches hnow, mergeQueue_of_complete hcomplete queue]
  · exact (collect_eq_ok_iff h hnow).2 ⟨queue, (List.append_nil queue).symm, rfl,
      waits_of_collecting hdry, .dry hdry⟩
  · rw [mergeAll_concat]
    exact merge_of_unfit hunfit
  · unfold collect
    rw [mergeQueue_append_of_dry hdry later]
  · obtain ⟨taken, rfl, rfl, hwaits, hending⟩ :=
      (collect_eq_ok_iff h (reaches_of_collect hcollect)).1 hcollect
    refine (collect_eq_ok_iff h hnow').2
      ⟨taken, List.append_assoc .., rfl, hwaits, hending.append ?_ later⟩
    -- a queue that ran dry would have left the round collecting
    intro hcollecting
    rcases hending.stops with hstops | rfl
    · exact hstops hcollecting
    · exact hends (by rwa [List.append_nil])

/-- A PSBT that no round takes. -/
def unfitSamplePsbt : Psbt := { samplePsbt with inputs := [] }

/-- The most seconds that a time to wait can have. -/
def sampleForever : Timespan := .ofSeconds 18446744073709551615

/-- The sample round collects from queues with an unfit PSBT, one that completes the round, and one
that fails it. Where there is forever to wait, even the complete round ends the program. -/
theorem collect_folds_merges_sample :
    ∃ first complete failed, start .sample samplePsbt = .ok first ∧ ¬ first.Failed ∧
      collect 0 true (.ofSeconds 5) first [unfitSamplePsbt, signedSamplePsbt, spoiledSamplePsbt] =
        .ok (complete, [spoiledSamplePsbt], .ok ()) ∧ complete.state = .complete ∧
      collect 0 true (.ofSeconds 5) complete [unfitSamplePsbt] =
        .ok (complete, [unfitSamplePsbt], .ok ()) ∧
      collect 0 true sampleForever complete [unfitSamplePsbt] = .error ⟨⟩ ∧
      collect 0 true (.ofSeconds 5) first [spoiledSamplePsbt, signedSamplePsbt] =
        .ok (failed, [signedSamplePsbt], .error (.invalidSignature (.script 1) .unverified)) ∧
      failed.Failed ∧
      collect 0 false (.ofSeconds 5) first [unfitSamplePsbt] =
        .ok (first, [], .error (.collectionTimeout (.ofSeconds 5))) ∧
      collect 0 true (.ofSeconds 5) first ([unfitSamplePsbt] ++ [signedSamplePsbt]) =
        collect 0 true (.ofSeconds 5) first [signedSamplePsbt] := by
  obtain ⟨first, hstart⟩ := start_samplePsbt
  have hrun : (start .sample samplePsbt).toOption.map (fun r =>
      (r.state, (r.merge unfitSamplePsbt).2, (r.merge signedSamplePsbt).1.state,
        (r.merge spoiledSamplePsbt).2, (r.merge spoiledSamplePsbt).1.state)) =
      some (.collecting 0 1, .error (.psbt .partialWithoutInputs), .complete,
        .error (.invalidSignature (.script 1) .unverified),
        .failed "Invalid signature for script slot 1: signature failed verification") := by
    decide +kernel
  rw [hstart] at hrun
  obtain ⟨hstate, hrest⟩ := Prod.mk.inj (Option.some.inj hrun)
  obtain ⟨hunfit, hrest⟩ := Prod.mk.inj hrest
  obtain ⟨hsigned, hrest⟩ := Prod.mk.inj hrest
  obtain ⟨hspoiled, hfailed⟩ := Prod.mk.inj hrest
  have hcollecting : first.Collecting := ⟨0, 1, hstate⟩
  have hactive := hcollecting.not_failed
  have hsame : first.mergeAll [unfitSamplePsbt] = first := merge_of_unfit hunfit
  have hcomplete : (first.mergeAll [unfitSamplePsbt, signedSamplePsbt]).state = .complete := by
    rw [show [unfitSamplePsbt, signedSamplePsbt] = [unfitSamplePsbt] ++ [signedSamplePsbt] from rfl,
      mergeAll_concat, hsame, hsigned]
  have hdone : ¬ (first.mergeAll [unfitSamplePsbt, signedSamplePsbt]).Failed :=
    not_failed_iff.2 (state_eq_complete_iff.1 hcomplete).1
  have hwaits : first.Waits [unfitSamplePsbt, signedSamplePsbt] :=
    .cons hcollecting (.cons ((merge_of_unfit hunfit).symm ▸ hcollecting) .nil)
  have hfive : (0 : Uptime) + (Timespan.ofSeconds 5).toNanos ≤ Uptime.latest := by decide
  obtain ⟨_, hreturns, _⟩ := collect_folds_merges hactive 0 true (.ofSeconds 5)
    [unfitSamplePsbt, signedSamplePsbt, spoiledSamplePsbt]
  obtain ⟨hsome, _⟩ := hreturns hfive
  obtain ⟨_, hreturns, _⟩ := collect_folds_merges hdone 0 true (.ofSeconds 5) [unfitSamplePsbt]
  obtain ⟨_, hnone, _⟩ := hreturns hfive
  obtain ⟨hends, _⟩ := collect_folds_merges hdone 0 true sampleForever [unfitSamplePsbt]
  obtain ⟨_, hreturns, _⟩ := collect_folds_merges hactive 0 true (.ofSeconds 5)
    [spoiledSamplePsbt, signedSamplePsbt]
  obtain ⟨hbad, _⟩ := hreturns hfive
  obtain ⟨_, hreturns, _, hlater, _⟩ :=
    collect_folds_merges hactive 0 false (.ofSeconds 5) [unfitSamplePsbt]
  obtain ⟨_, _, hdry⟩ := hreturns hfive
  rw [hsame] at hdry hlater
  exact ⟨first, _, _, hstart, hactive,
    (hsome _ _ _).2 ⟨_, rfl, rfl, hwaits, .complete hcomplete⟩, hcomplete, hnone hcomplete,
    hends.2 (by decide),
    (hbad _ _ _).2 ⟨[] ++ [spoiledSamplePsbt], rfl, rfl, .cons hcollecting .nil,
      .failed hspoiled nofun hfailed⟩,
    ⟨_, hfailed⟩, hdry hcollecting, hlater hcollecting _ _ _ _⟩

end SignetFederation.Round
