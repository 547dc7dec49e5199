import SignetFederation.Proofs.Signet.LeafWitness
import SignetFederation.Proofs.Signing.Prepared

/-!
# Extraction from the PSBT of a round

A round counts its slots, extraction reads the fields of a PSBT. The two agree as long as the input
is not finished: a complete round has a solution out of held signatures, and one that still collects
lacks exactly the signatures that it has not got. The witness of a finished input is taken instead,
whatever the round holds; `finished_collecting` is a round that collects beside such a witness.

Main statement: `extraction_follows_state`.
-/

namespace SignetFederation

namespace Round

/-! ## Slots as leaf signatures -/

section InStep

variable {r : Round} {i : Psbt.Input} {rest : List Psbt.Input}

/-- The leaf signatures that extraction finds are those of the filled slots. -/
theorem InStep.mem_leafSignatures_iff (h : r.InStep) (hi : r.psbt.inputs = i :: rest) {n : Nat}
    {s : TapSignature} :
    (n, s) ∈ Solution.leafSignatures r.quorum i ↔ r.signature? (.script n) = some s := by
  obtain ⟨i', rest', hi', _, hscript⟩ := h
  obtain ⟨rfl, rfl⟩ := List.cons.inj (hi.symm.trans hi')
  rw [Solution.mem_leafSignatures_iff]
  simp only [hscript, true_and]
  constructor
  · rintro ⟨key, hkey, m, hm, hs⟩
    rwa [Quorum.signer_inj hkey hm]
  · intro hs
    have hn : n < r.quorum.signers.length := by
      rw [← r.length_script]
      exact (List.getElem?_eq_some_iff.1 (Option.join_eq_some_iff.1 hs)).1
    exact ⟨_, List.getElem?_eq_getElem hn, n, List.getElem?_eq_getElem hn, hs⟩

/-- Extraction finds as many leaf signatures as script slots are filled. -/
theorem InStep.length_leafSignatures (h : r.InStep) (hi : r.psbt.inputs = i :: rest) :
    (Solution.leafSignatures r.quorum i).length = r.scriptCount := by
  obtain ⟨i', rest', hi', _, hscript⟩ := h
  obtain ⟨rfl, rfl⟩ := List.cons.inj (hi.symm.trans hi')
  have hfst : (r.quorum.signers.zip r.script).map Prod.fst = r.quorum.signers :=
    List.map_fst_zip (Nat.le_of_eq r.length_script.symm)
  have hsnd : (r.quorum.signers.zip r.script).map Prod.snd = r.script :=
    List.map_snd_zip (Nat.le_of_eq r.length_script)
  rw [Solution.length_leafSignatures, scriptCount]
  conv => lhs; rw [← hfst, List.countP_map]
  conv => rhs; rw [← hsnd, List.countP_map]
  refine List.countP_congr ?_
  rintro ⟨key, slot⟩ hmem
  obtain ⟨n, hn⟩ := List.mem_iff_getElem?.1 hmem
  obtain ⟨hkey, hslot⟩ := List.getElem?_zip_eq_some.1 hn
  have hsame : i.tapScriptSignatures.get? ⟨key, r.quorum.leafHash⟩ = slot := by
    refine Option.ext fun s => ?_
    rw [hscript]
    constructor
    · rintro ⟨_, m, hm, hs⟩
      rw [Quorum.signer_inj hm hkey, signature?, hslot] at hs
      exact hs
    · rintro rfl
      exact ⟨rfl, n, hkey, by rw [signature?, hslot]; rfl⟩
  simp [hsame]

/-- The signature for the key path is that of its slot. -/
theorem InStep.tapKeySignature (h : r.InStep) (hi : r.psbt.inputs = i :: rest) :
    i.tapKeySignature = r.signature? .keyPath := by
  obtain ⟨i', rest', hi', hkey, _⟩ := h
  obtain ⟨rfl, rfl⟩ := List.cons.inj (hi.symm.trans hi')
  exact hkey

end InStep

/-! ## Extraction -/

/-- A witness made of held signatures: the one for the key path alone, or an item for each key, held
by a script slot unless it is empty, before the leaf script and the control block. -/
def MadeOfHeld (r : Round) (w : Witness) : Prop :=
  (∃ s, r.signature? .keyPath = some s ∧ w = [s.encode]) ∨
    ∃ items : List Bytes, w = items ++ [r.quorum.script, r.quorum.controlBlock.encode] ∧
      items.length = r.quorum.signers.length ∧
      ∀ item ∈ items, item ≠ [] → ∃ n s, r.signature? (.script n) = some s ∧ item = s.encode

theorem collecting_eq {r : Round} {n m : Nat} (h : r.state = .collecting n m) :
    n = r.signatureCount ∧ r.keyPath = none := by
  unfold state isComplete at h
  cases hf : r.failure with
  | some reason =>
    rw [hf] at h
    cases h
  | none =>
    rw [hf] at h
    simp only [Option.isNone_none, Bool.true_and, Bool.or_eq_true, decide_eq_true_eq] at h
    split at h
    · cases h
    · next hno =>
      cases h
      exact ⟨rfl, Option.not_isSome_iff_eq_none.1 (not_or.1 hno).1⟩

section InStep

variable {r : Round} {i : Psbt.Input} {rest : List Psbt.Input}

/-- A complete round whose input is not finished has a witness. -/
theorem InStep.buildWitness_of_complete (h : r.InStep) (hi : r.psbt.inputs = i :: rest)
    (howns : r.quorum.ownsLeaves i = true) (hstate : r.state = .complete) :
    ∃ w, Solution.buildWitness r.quorum i = .ok w ∧ r.MadeOfHeld w := by
  have hkey := h.tapKeySignature hi
  cases hslot : r.signature? .keyPath with
  | some s =>
    rw [hslot] at hkey
    exact ⟨[s.encode], by rw [Solution.buildWitness, hkey], .inl ⟨s, hslot, rfl⟩⟩
  | none =>
    rw [hslot] at hkey
    have hcount : r.quorum.threshold ≤ (Solution.leafSignatures r.quorum i).length := by
      rw [h.length_leafSignatures hi]
      refine (state_eq_complete_iff.1 hstate).2.resolve_left fun hsome => ?_
      change (r.signature? .keyPath).isSome = true at hsome
      rw [hslot] at hsome
      cases hsome
    refine ⟨_, (Solution.buildWitness_eq_ok_iff hkey).2 ⟨howns, hcount, rfl⟩,
      .inr ⟨_, rfl, by simp, ?_⟩⟩
    intro item hitem hne
    obtain ⟨n, _, rfl⟩ := List.mem_map.1 hitem
    rcases Solution.stackItem_cases _ n with ⟨s, hs, heq⟩ | ⟨_, heq⟩
    · exact ⟨n, s, (h.mem_leafSignatures_iff hi).1 (List.mem_of_mem_take hs), heq⟩
    · exact absurd heq hne

/-- A round that collects lacks as many signatures as extraction misses. -/
theorem InStep.buildWitness_of_collecting (h : r.InStep) (hi : r.psbt.inputs = i :: rest)
    (howns : r.quorum.ownsLeaves i = true) {n m : Nat} (hstate : r.state = .collecting n m) :
    Solution.buildWitness r.quorum i =
      .error (.incompleteSignatures r.quorum.threshold r.signatureCount) := by
  obtain ⟨hlt, hm⟩ := state_eq_collecting hstate
  obtain ⟨hn, hopen⟩ := collecting_eq hstate
  have hkey : i.tapKeySignature = none := (h.tapKeySignature hi).trans hopen
  have hcount : r.signatureCount = (Solution.leafSignatures r.quorum i).length := by
    simp [signatureCount, hopen, h.length_leafSignatures hi]
  rw [hn, hm, hcount] at hlt
  rw [Solution.buildWitness, hkey, howns, hcount]
  simp only [Bool.not_true, Bool.false_eq_true, if_false, List.length_take]
  rw [if_pos (by omega), Nat.min_eq_right (Nat.le_of_lt hlt)]

end InStep

/-- **Extraction follows the state of a round.** Let a round be started with a PSBT and worked on by
any calls. If the PSBT's input has no finished witness, a complete round has a solution that is made
of held and good signatures, and a round that collects is refused with the threshold and the number
of its filled slots. A finished witness is the solution if it has the form that the quorum asks for
and is refused otherwise; the state of the round does not matter then. -/
theorem extraction_follows_state {q : Quorum} {p : Psbt} {first : Round}
    (hstart : start q p = .ok first) (calls : List Call) :
    ∃ i, p.inputs = [i] ∧
      (i.finalWitness = none →
        ((first.run calls).state = .complete →
          ∃ s, Solution.ofPsbt q (first.run calls).psbt = .ok s ∧
            (first.run calls).MadeOfHeld s.witness ∧
            ∀ slot sig, (first.run calls).signature? slot = some sig →
              Good q (first.run calls).hashes slot sig) ∧
        ∀ n m, (first.run calls).state = .collecting n m →
          Solution.ofPsbt q (first.run calls).psbt =
            .error (.incompleteSignatures q.threshold (first.run calls).signatureCount)) ∧
      ∀ w, i.finalWitness = some w → Solution.ofPsbt q (first.run calls).psbt =
        (Solution.checkWitness q w).map fun _ => ⟨i.finalScriptSig.getD [], w⟩ := by
  obtain ⟨_, hstarted⟩ := started_of_start hstart
  have hinv := hstarted.invariant.run calls
  obtain ⟨i₀, i, spent, hi₀, hi, howns, hbare⟩ := exists_input_of_run hstart calls
  generalize first.run calls = r at *
  have hquorum : r.quorum = q := hinv.quorum.trans hstarted.quorum
  have howns' : r.quorum.ownsLeaves i = true := by
    have hscripts : i.tapScripts = (q.fillInput i₀ spent).tapScripts := by
      have := congrArg Psbt.Input.tapScripts hbare
      exact this
    rw [hquorum, Quorum.ownsLeaves, hscripts]
    exact Quorum.ownsLeaves_fillInput howns
  have hwitness : i.finalWitness = i₀.finalWitness := by
    have := congrArg Psbt.Input.finalWitness hbare
    exact this
  have hscriptSig : i.finalScriptSig = i₀.finalScriptSig := by
    have := congrArg Psbt.Input.finalScriptSig hbare
    exact this
  refine ⟨i₀, hi₀, fun hopen => ?_, fun w hfinished => ?_⟩
  · rw [hopen] at hwitness
    have hpsbt : Solution.ofPsbt q r.psbt =
        (Solution.buildWitness q i).map fun w => ⟨i.finalScriptSig.getD [], w⟩ := by
      rw [Solution.ofPsbt, hi]
      simp only [hwitness]
      cases Solution.buildWitness q i <;> rfl
    rw [hpsbt]
    refine ⟨fun hstate => ?_, fun n m hstate => ?_⟩
    · obtain ⟨w, hw, hheld⟩ := hinv.inStep.buildWitness_of_complete hi howns' hstate
      rw [hquorum] at hw
      refine ⟨⟨_, w⟩, by rw [hw]; rfl, hheld, fun slot sig hsig => ?_⟩
      rw [← hquorum]
      exact hinv.good slot sig hsig
    · have hmissing := hinv.inStep.buildWitness_of_collecting hi howns' hstate
      rw [hquorum] at hmissing
      rw [hmissing]
      rfl
  · rw [hfinished] at hwitness
    rw [Solution.ofPsbt, hi]
    simp only [hwitness, hscriptSig]
    cases Solution.checkWitness q w <;> rfl

/-- The sample round after a PSBT with one signature, and before. -/
theorem extraction_follows_state_sample :
    ∃ first, start .sample samplePsbt = .ok first ∧ first.state = .collecting 0 1 ∧
      Solution.ofPsbt .sample first.psbt = .error (.incompleteSignatures 1 0) ∧
      (first.run [.merge signedSamplePsbt]).state = .complete ∧
      ∃ s, Solution.ofPsbt .sample (first.run [.merge signedSamplePsbt]).psbt = .ok s ∧
        (first.run [.merge signedSamplePsbt]).MadeOfHeld s.witness := by
  obtain ⟨first, hstart⟩ := start_samplePsbt
  have hrun : (start .sample samplePsbt).toOption.map (fun r =>
      (r.state, r.signatureCount, (r.run [.merge signedSamplePsbt]).state)) =
      some (.collecting 0 1, 0, .complete) := by
    decide +kernel
  rw [hstart] at hrun
  obtain ⟨hfirst, hrest⟩ := Prod.mk.inj (Option.some.inj hrun)
  obtain ⟨hcount, hlast⟩ := Prod.mk.inj hrest
  obtain ⟨i, hi, hbefore, _⟩ := extraction_follows_state hstart []
  obtain ⟨i', hi', hafter, _⟩ := extraction_follows_state hstart [.merge signedSamplePsbt]
  have hunfinished : ∀ j, samplePsbt.inputs = [j] → j.finalWitness = none := by
    rintro _ h
    cases h
    rfl
  have hmissing := (hbefore (hunfinished i hi)).2 0 1 hfirst
  obtain ⟨s, hs, hheld, _⟩ := (hafter (hunfinished i' hi')).1 hlast
  refine ⟨first, hstart, hfirst, ?_, hlast, s, hs, hheld⟩
  change Solution.ofPsbt .sample first.psbt =
    .error (.incompleteSignatures 1 first.signatureCount) at hmissing
  rw [hmissing, hcount]

/-- The sample PSBT with a finished witness, which has the length of a signature and is none. -/
def finishedSamplePsbt : Psbt :=
  { samplePsbt with
    inputs := samplePsbt.inputs.map fun i =>
      { i with finalWitness := some [List.replicate 64 0] } }

/-- **A finished witness hides the state.** A round that collects is started with a finished input,
and extraction answers with a witness that nobody signed. -/
theorem finished_collecting :
    ∃ first, start .sample finishedSamplePsbt = .ok first ∧ first.state = .collecting 0 1 ∧
      Solution.ofPsbt .sample first.psbt = .ok ⟨[], [List.replicate 64 0]⟩ ∧
      Solution.ofPsbt .sample first.psbt ≠
        .error (.incompleteSignatures Quorum.sample.threshold first.signatureCount) := by
  have hrun : (start .sample finishedSamplePsbt).toOption.map (fun r =>
      (r.state, (Solution.ofPsbt .sample r.psbt).toOption)) =
      some (.collecting 0 1, some ⟨[], [List.replicate 64 0]⟩) := by
    decide +kernel
  cases hstart : start .sample finishedSamplePsbt with
  | error why =>
    rw [hstart] at hrun
    cases hrun
  | ok first =>
    rw [hstart] at hrun
    obtain ⟨hstate, hsome⟩ := Prod.mk.inj (Option.some.inj hrun)
    cases hsolution : Solution.ofPsbt .sample first.psbt with
    | error why =>
      rw [hsolution] at hsome
      cases hsome
    | ok s =>
      rw [hsolution] at hsome
      cases Option.some.inj hsome
      refine ⟨first, rfl, hstate, hsolution, ?_⟩
      rw [hsolution]
      nofun

end Round

end SignetFederation
