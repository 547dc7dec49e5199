import SignetFederation.Proofs.Signing.Confluence
import SignetFederation.Proofs.Signing.Runs

/-!
# Errors of a signing round

An error of a merge is harmless or final. It is harmless if it is about the partial PSBT as a whole,
which is for another transaction or has no input: then nothing was taken (`merge_cases`). It is final
if something that the PSBT brings is wrong: the parts before the wrong one were taken, they stay, and
the round keeps the error's text as its reason (`takeAll_error`). From then on every call gets that
reason as its answer and nothing changes any more (`run_of_failed`).

Main statement: `errors_harmless_or_final`.
-/

namespace SignetFederation.Round

/-! ## The wrong part of a row -/

/-- What a slot refuses is wrong with the signature, not with a PSBT. -/
theorem place_ne_psbt {r : Round} {slot : Slot} {s : TapSignature} {why : Error}
    (h : r.place slot s = .error why) (fault : PsbtFault) : why ≠ .psbt fault := by
  rintro rfl
  unfold place at h
  split at h
  · cases h
  · split at h
    · cases h
    · split at h <;> cases h

/-- What an input brings is never wrong because of the PSBT as a whole. -/
theorem psbt_not_mem_contributions (q : Quorum) (i : Psbt.Input) (fault : PsbtFault) :
    Except.error (.psbt fault) ∉ contributions q i := by
  intro h
  rcases List.mem_append.1 h with h | h
  · rcases List.mem_append.1 h with h | h
    · split at h
      · cases h
      · cases List.mem_singleton.1 h
    · split at h
      · cases List.mem_singleton.1 h
      · cases h
  · obtain ⟨e, _, he⟩ := List.mem_map.1 h
    unfold leafContribution at he
    split at he
    · cases he
    · split at he <;> cases he

/-- The part of a row that fails a round: the parts before it were taken, and the round that they
left keeps the reason. -/
theorem takeAll_error {r : Round} {cs : List (Except Error (Slot × TapSignature))} {why : Error}
    (h : (r.takeAll cs).2 = .error why) :
    ∃ taken wrong rest, cs = taken ++ wrong :: rest ∧ (r.takeAll taken).2 = .ok () ∧
      (r.takeAll cs).1 = (r.takeAll taken).1.fail why ∧
      (wrong = .error why ∨
        ∃ slot s, wrong = .ok (slot, s) ∧ (r.takeAll taken).1.place slot s = .error why) := by
  fun_induction takeAll r cs with
  | case1 r => cases h
  | case2 r why' rest =>
    cases h
    exact ⟨[], .error why, rest, rfl, rfl, rfl, .inl rfl⟩
  | case3 r slot s rest r' hplace ih =>
    obtain ⟨taken, wrong, later, rfl, htaken, hlast, hwrong⟩ := ih h
    refine ⟨.ok (slot, s) :: taken, wrong, later, rfl, ?_⟩
    simp only [takeAll, hplace]
    exact ⟨htaken, hlast, hwrong⟩
  | case4 r slot s rest why' hplace =>
    cases h
    exact ⟨[], .ok (slot, s), rest, rfl, rfl, rfl, .inr ⟨slot, s, rfl, hplace⟩⟩

/-! ## What a merge answers -/

@[simp] theorem signature?_fail (r : Round) (why : Error) (slot : Slot) :
    (r.fail why).signature? slot = r.signature? slot := by
  cases slot <;> rfl

@[simp] theorem state_fail (r : Round) (why : Error) :
    (r.fail why).state = .failed why.message := rfl

/-- A merge into an active round either refuses the PSBT as a whole and leaves the round alone, or
takes what its first input brings. -/
theorem merge_cases {r : Round} (h : r.failure = none) (p : Psbt) :
    ((p.unsigned ≠ r.psbt.unsigned ∨ p.inputs = []) ∧
      ∃ fault, r.merge p = (r, .error (.psbt fault))) ∨
    ∃ i, Concerns r.psbt.unsigned p i ∧
      (r.merge p).1 = (r.takeAll (contributions r.quorum i)).1 ∧
      ∀ why, (r.merge p).2 = .error why ↔
        (r.takeAll (contributions r.quorum i)).2 = .error why := by
  unfold merge
  rw [h]
  by_cases hp : p.unsigned = r.psbt.unsigned
  · simp only [hp, ne_eq, not_true_eq_false, if_false]
    cases hi : p.inputs with
    | nil => exact .inl ⟨.inr rfl, _, rfl⟩
    | cons i rest =>
      refine .inr ⟨i, ⟨hp, by rw [hi]; rfl⟩, ?_⟩
      simp only
      split <;> next htake => simp [htake]
  · exact .inl ⟨.inl hp, _, if_pos hp⟩

/-- A PSBT with an input for a transaction is fit for it. -/
theorem Concerns.fit {t : Transaction} {p : Psbt} {i : Psbt.Input} (h : Concerns t p i) :
    ¬ (p.unsigned ≠ t ∨ p.inputs = []) := by
  rintro (hother | hnone)
  · exact hother h.1
  · have hfirst := h.2
    rw [hnone] at hfirst
    cases hfirst

/-- A merge that takes what an input brings does not call the PSBT unfit. -/
theorem takeAll_ne_psbt {r : Round} {i : Psbt.Input} {fault : PsbtFault} :
    (r.takeAll (contributions r.quorum i)).2 ≠ .error (.psbt fault) := by
  intro h
  obtain ⟨taken, wrong, rest, hrow, _, _, hwrong⟩ := takeAll_error h
  have hmem : wrong ∈ contributions r.quorum i := by
    rw [hrow]
    exact List.mem_append_right _ List.mem_cons_self
  rcases hwrong with rfl | ⟨slot, s, _, hplace⟩
  · exact psbt_not_mem_contributions _ _ _ hmem
  · exact place_ne_psbt hplace fault rfl

/-- What a merge leaves that fails a round: a later form of it, in which all that was held is still
held, with the reason kept. What came in are good signatures that the PSBT carries. -/
structure FailedBy (r : Round) (p : Psbt) (why : Error) (r' : Round) : Prop extends
    Extends r r' where
  reason : r'.state = .failed why.message
  brought : ∀ slot s, r'.signature? slot = some s → r.signature? slot = some s ∨
    ∃ i, Concerns r.psbt.unsigned p i ∧ Brings r.quorum i slot s ∧ Good r.quorum r.hashes slot s

/-- A merge that stops at a wrong part fails the round. -/
theorem failedBy_of_takeAll {r : Round} {p : Psbt} {i : Psbt.Input} {why : Error}
    (hi : Concerns r.psbt.unsigned p i)
    (h : (r.takeAll (contributions r.quorum i)).2 = .error why) :
    FailedBy r p why (r.takeAll (contributions r.quorum i)).1 := by
  have hext := takeAll_extends r (contributions r.quorum i)
  obtain ⟨taken, wrong, rest, hrow, htaken, hlast, _⟩ := takeAll_error h
  refine ⟨hext, by rw [hlast, state_fail], fun slot s hs => ?_⟩
  rw [or_iff_not_imp_left]
  intro hnew
  have hgood := (hext.good slot s hs).resolve_left hnew
  rw [hlast, signature?_fail, signature?_takeAll htaken] at hs
  have hmem : Except.ok (slot, s) ∈ contributions r.quorum i := by
    rw [hrow]
    exact List.mem_append_left _ (hs.resolve_left hnew)
  exact ⟨i, hi, ok_mem_contributions_iff.1 hmem, hgood⟩

/-! ## A failed round -/

/-- What the calls of a run answer, each on the round that the ones before it left. -/
def answers (r : Round) : List Call → List (Except Error RoundState)
  | [] => []
  | c :: calls => (r.call c).2 :: answers (r.call c).1 calls

theorem failure_of_state {r : Round} {reason : String} (h : r.state = .failed reason) :
    r.failure = some reason := by
  cases hf : r.failure with
  | none => exact absurd ⟨reason, h⟩ (not_failed_iff.2 hf)
  | some reason' =>
    unfold state at h
    rw [hf] at h
    cases h
    rfl

theorem call_of_failed {r : Round} {reason : String} (h : r.failure = some reason) (c : Call) :
    r.call c = (r, .error (.roundFailed reason)) := by
  cases c with
  | merge p => exact merge_of_failed h p
  | apply s =>
    change r.apply s = _
    unfold apply
    rw [h]

/-- A failed round answers every call of a run with its reason, and stays as it is. -/
theorem run_of_failed {r : Round} {reason : String} (h : r.failure = some reason)
    (calls : List Call) :
    r.run calls = r ∧
      r.answers calls = List.replicate calls.length (.error (.roundFailed reason)) := by
  induction calls with
  | nil => exact ⟨rfl, rfl⟩
  | cons c calls ih =>
    obtain ⟨hrun, hanswers⟩ := ih
    have hcall := call_of_failed h c
    constructor
    · change (r.call c).1.run calls = r
      rw [hcall]
      exact hrun
    · rw [answers, hcall, hanswers]
      rfl

/-! ## Harmless and final errors -/

/-- **Errors of a round are harmless or final.** A merge into an active round calls the PSBT unfit
exactly if it is for another transaction or has no input, and then the round is as before. Any other
error fails the round with its text as the reason: what was held is still held, and what came in are
good signatures that the PSBT carries. A signer that refuses leaves the round as it is. A failed
round answers every further call with its reason and never changes. -/
theorem errors_harmless_or_final (r : Round) :
    (¬ r.Failed →
      (∀ p, ((∃ fault, (r.merge p).2 = .error (.psbt fault)) ↔
          p.unsigned ≠ r.psbt.unsigned ∨ p.inputs = []) ∧
        (∀ fault, (r.merge p).2 = .error (.psbt fault) → (r.merge p).1 = r) ∧
        ∀ why, (r.merge p).2 = .error why → (∀ fault, why ≠ .psbt fault) →
          FailedBy r p why (r.merge p).1) ∧
      ∀ signer why, signer.sign r.psbt = .error why → r.apply signer = (r, .error why)) ∧
    ∀ reason, r.state = .failed reason → ∀ calls, r.run calls = r ∧
      r.answers calls = List.replicate calls.length (.error (.roundFailed reason)) := by
  refine ⟨fun hactive => ?_, fun reason hstate => run_of_failed (failure_of_state hstate)⟩
  have hnone := not_failed_iff.1 hactive
  refine ⟨fun p => ?_, fun signer why hsign => ?_⟩
  · rcases merge_cases hnone p with ⟨hunfit, fault, hmerge⟩ | ⟨i, hi, hround, hanswer⟩
    · rw [hmerge]
      refine ⟨⟨fun _ => hunfit, fun _ => ⟨fault, rfl⟩⟩, fun _ _ => rfl, fun why hwhy hother => ?_⟩
      cases hwhy
      exact absurd rfl (hother fault)
    · have hno : ∀ fault, (r.merge p).2 ≠ .error (.psbt fault) := by
        intro fault hfault
        exact takeAll_ne_psbt ((hanswer _).1 hfault)
      refine ⟨⟨?_, fun hunfit => absurd hunfit hi.fit⟩, ?_, ?_⟩
      · rintro ⟨fault, hfault⟩
        exact absurd hfault (hno fault)
      · intro fault hfault
        exact absurd hfault (hno fault)
      · intro why hwhy _
        rw [hround]
        exact failedBy_of_takeAll hi ((hanswer why).1 hwhy)
  · unfold apply
    rw [hnone]
    simp only [hsign]

/-- The sample PSBT with a good signature in the first script slot and a bad one in the second. -/
def spoiledSamplePsbt : Psbt :=
  { signedSamplePsbt with
    inputs := signedSamplePsbt.inputs.map fun i =>
      { i with
        tapScriptSignatures := i.tapScriptSignatures.insert
          ⟨.ofNat 0xf9308a019258c31049344f85f89d5229b531c845836f99b08601f113bce036f9,
            Quorum.sample.leafHash⟩
          ⟨.zero 64, .all⟩ } }

/-- A PSBT without inputs and a signer that refuses leave the sample round alone. A PSBT with a good
and a bad signature fails it after the good one was taken, and nothing changes it then. -/
theorem errors_harmless_or_final_sample :
    ∃ first, start .sample samplePsbt = .ok first ∧ ¬ first.Failed ∧
      (first.merge { samplePsbt with inputs := [] }).1 = first ∧
      first.apply ⟨.script 1, fun _ => .error .untweakable⟩ = (first, .error .untweakable) ∧
      FailedBy first spoiledSamplePsbt (.invalidSignature (.script 1) .unverified)
        (first.merge spoiledSamplePsbt).1 ∧
      ((first.merge spoiledSamplePsbt).1.signature? (.script 0)).isSome = true ∧
      (first.merge spoiledSamplePsbt).1.answers
          [.merge signedSamplePsbt, .apply ⟨.keyPath, fun _ => .error .untweakable⟩] =
        List.replicate 2 (.error (.roundFailed
          "Invalid signature for script slot 1: signature failed verification")) := by
  obtain ⟨first, hstart⟩ := start_samplePsbt
  have hrun : (start .sample samplePsbt).toOption.map (fun r =>
      (r.state, (r.merge { samplePsbt with inputs := [] }).2, (r.merge spoiledSamplePsbt).2,
        ((r.merge spoiledSamplePsbt).1.signature? (.script 0)).isSome)) =
      some (.collecting 0 1, .error (.psbt .partialWithoutInputs),
        .error (.invalidSignature (.script 1) .unverified), true) := by
    decide +kernel
  rw [hstart] at hrun
  obtain ⟨hstate, hrest⟩ := Prod.mk.inj (Option.some.inj hrun)
  obtain ⟨hunfit, hrest⟩ := Prod.mk.inj hrest
  obtain ⟨hspoiled, hheld⟩ := Prod.mk.inj hrest
  have hactive : ¬ first.Failed := by
    rintro ⟨reason, hfailed⟩
    rw [hstate] at hfailed
    cases hfailed
  obtain ⟨hmerge, happly⟩ := (errors_harmless_or_final first).1 hactive
  have hfailed := (hmerge spoiledSamplePsbt).2.2 _ hspoiled (by rintro _ ⟨⟩)
  obtain ⟨_, hanswers⟩ := (errors_harmless_or_final (first.merge spoiledSamplePsbt).1).2 _
    hfailed.reason [.merge signedSamplePsbt, .apply ⟨.keyPath, fun _ => .error .untweakable⟩]
  exact ⟨first, hstart, hactive, (hmerge _).2.1 _ hunfit, happly _ _ rfl, hfailed, hheld, hanswers⟩

end SignetFederation.Round
