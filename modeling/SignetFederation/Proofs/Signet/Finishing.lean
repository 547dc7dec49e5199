import SignetFederation.Proofs.Signet.LeafWitness

/-!
# Finished PSBTs

A witness that is there already is checked, and one that is not is built. The check accepts one item
of the length of a signature, or an item for each key, as many of them signatures as the threshold
says, before the leaf script and the control block (`checkWitness_eq_ok_iff`); what is built has one of
these forms (`checkWitness_of_buildWitness`). So a solution that a PSBT has is found again when the PSBT
was finished with it, and to finish the PSBT once more changes nothing.

Main statement: `finish_keeps_solution`.
-/

namespace SignetFederation

open Quorum

namespace Solution

/-! ## The forms of a witness -/

theorem isSignatureLength_encode (s : TapSignature) : isSignatureLength s.encode = true := by
  unfold isSignatureLength
  rw [s.length_encode]
  split <;> rfl

/-- What the check asks of the items before the leaf script and the control block. -/
structure Stacked (q : Quorum) (items : List Bytes) : Prop where
  length : items.length = q.signers.length
  signatures : ∀ item ∈ items, item = [] ∨ isSignatureLength item = true
  count : given items = q.threshold

/-- The items after the first ones are two. -/
theorem eq_take_append {w : Witness} {n : Nat} {a b : Bytes} (hlen : w.length = n + 2)
    (ha : w[n]? = some a) (hb : w[n + 1]? = some b) : w = w.take n ++ [a, b] := by
  obtain ⟨hn, rfl⟩ := List.getElem?_eq_some_iff.1 ha
  obtain ⟨hn', rfl⟩ := List.getElem?_eq_some_iff.1 hb
  have hrest : w.drop (n + 1 + 1) = [] := List.drop_eq_nil_of_le (by omega)
  conv => lhs; rw [← List.take_append_drop n w]
  rw [List.drop_eq_getElem_cons hn, List.drop_eq_getElem_cons hn', hrest]

/-- The signatures among some items are the items that are not empty, and all have the length. -/
theorem signatures_iff {items : List Bytes} :
    ((items.filter fun item => !item.isEmpty).find? fun item => !isSignatureLength item) = none ↔
      ∀ item ∈ items, item = [] ∨ isSignatureLength item = true := by
  rw [List.find?_eq_none]
  constructor
  · intro h item hitem
    by_cases hempty : item = []
    · exact .inl hempty
    · have hmem : item ∈ items.filter fun item => !item.isEmpty :=
        List.mem_filter.2 ⟨hitem, by simpa using hempty⟩
      exact .inr (by simpa using h item hmem)
  · intro h item hitem
    obtain ⟨hmem, hsome⟩ := List.mem_filter.1 hitem
    rcases h item hmem with rfl | hlen
    · cases hsome
    · simp [hlen]

/-- A witness that is there already is accepted exactly if it is one item of the length of a
signature, or a stack for the leaf. -/
theorem checkWitness_eq_ok_iff {q : Quorum} {w : Witness} :
    checkWitness q w = .ok () ↔ (∃ item, w = [item] ∧ isSignatureLength item = true) ∨
      ∃ items, w = items ++ [q.script, q.controlBlock.encode] ∧ Stacked q items := by
  unfold checkWitness
  split
  · next item =>
    constructor
    · intro h
      refine .inl ⟨item, rfl, ?_⟩
      by_contra hno
      rw [if_pos (by simpa using hno)] at h
      cases h
    · rintro (⟨_, heq, hlen⟩ | ⟨items, heq, _⟩)
      · cases heq
        exact if_neg (by simp [hlen])
      · have := congrArg List.length heq
        simp at this
  · next hmany =>
    have hnone : ¬ ∃ item, w = [item] ∧ isSignatureLength item = true := by
      rintro ⟨item, hone, _⟩
      exact hmany item hone
    simp only [throw_bind, ite_error_eq_ok_iff, not_not, or_iff_right hnone]
    have hgiven : (w.take q.signers.length).countP (fun item => !item.isEmpty) =
        given (w.take q.signers.length) := rfl
    constructor
    · rintro ⟨hlen, hscript, hcontrol, h⟩
      refine ⟨_, eq_take_append hlen hscript hcontrol, ?_⟩
      have hlength : (w.take q.signers.length).length = q.signers.length := by
        rw [List.length_take]
        omega
      split at h
      · cases h
      · next hfind =>
        obtain ⟨hle, h⟩ := ite_error_eq_ok_iff.1 h
        have hge : ¬ ((w.take q.signers.length).filter fun item => !item.isEmpty).length <
            q.threshold := by
          intro hlt
          rw [if_pos hlt] at h
          cases h
        rw [← List.countP_eq_length_filter, hgiven] at hle hge
        exact ⟨hlength, signatures_iff.1 hfind, by omega⟩
    · rintro ⟨items, rfl, hlen, hsignatures, hcount⟩
      have htake : (items ++ [q.script, q.controlBlock.encode]).take q.signers.length = items := by
        rw [← hlen, List.take_left]
      rw [htake] at hgiven ⊢
      refine ⟨by simp [hlen], ?_, ?_, ?_⟩
      · rw [← hlen]
        simp
      · rw [← hlen]
        simp
      · rw [signatures_iff.2 hsignatures, ← List.countP_eq_length_filter, hgiven, hcount]
        simp only [Nat.lt_irrefl, if_false]
        rfl

/-! ## Built witnesses -/

/-- The items for the leaf that are built out of as many signatures as the threshold says. -/
theorem stacked_stackItems {q : Quorum} {input : Psbt.Input}
    (hlen : q.threshold ≤ (leafSignatures q input).length) :
    Stacked q ((List.range q.signers.length).reverse.map
      (stackItem ((leafSignatures q input).take q.threshold))) where
  length := by simp
  signatures item hitem := by
    obtain ⟨i, _, rfl⟩ := List.mem_map.1 hitem
    rcases stackItem_cases ((leafSignatures q input).take q.threshold) i with
      ⟨s, _, hs⟩ | ⟨_, hempty⟩
    · exact .inr (by rw [hs]; exact isSignatureLength_encode s)
    · exact .inl hempty
  count := given_leafItems hlen

/-- A witness that is built is accepted where it is found. -/
theorem checkWitness_of_buildWitness {q : Quorum} {input : Psbt.Input} {w : Witness}
    (h : buildWitness q input = .ok w) : checkWitness q w = .ok () := by
  refine checkWitness_eq_ok_iff.2 ?_
  cases hkey : input.tapKeySignature with
  | some s =>
    rw [buildWitness, hkey] at h
    cases h
    exact .inl ⟨_, rfl, isSignatureLength_encode s⟩
  | none =>
    obtain ⟨_, hlen, rfl⟩ := (buildWitness_eq_ok_iff hkey).1 h
    exact .inr ⟨_, rfl, stacked_stackItems hlen⟩

/-! ## Solutions -/

/-- The witness of a solution is accepted, whether it was there already or is built. -/
theorem checkWitness_of_ofPsbt {q : Quorum} {p : Psbt} {s : Solution} (h : ofPsbt q p = .ok s) :
    p.inputs ≠ [] ∧ checkWitness q s.witness = .ok () := by
  unfold ofPsbt at h
  cases hinputs : p.inputs with
  | nil =>
    rw [hinputs] at h
    cases h
  | cons i rest =>
    cases hfinal : i.finalWitness with
    | some w =>
      simp only [hinputs, hfinal, bind_eq_ok_iff, pure_eq_ok_iff] at h
      obtain ⟨_, hcheck, _, rfl, rfl⟩ := h
      exact ⟨List.cons_ne_nil i rest, hcheck⟩
    | none =>
      simp only [hinputs, hfinal, bind_eq_ok_iff, pure_eq_ok_iff] at h
      obtain ⟨w, hbuild, rfl⟩ := h
      exact ⟨List.cons_ne_nil i rest, checkWitness_of_buildWitness hbuild⟩

/-- An input that was finished with an accepted solution gives it back. -/
theorem ofPsbt_of_finished {q : Quorum} {p : Psbt} {i : Psbt.Input} {rest : List Psbt.Input}
    {s : Solution} (hinputs : p.inputs = i.finish s :: rest)
    (hcheck : checkWitness q s.witness = .ok ()) : ofPsbt q p = .ok s := by
  simp only [ofPsbt, hinputs, Psbt.Input.finish, hcheck]
  rfl

end Solution

namespace Psbt

/-! ## Finishing -/

/-- Finishing in place leaves the finished PSBT, or the PSBT as it was. -/
theorem finishInPlace_eq (p : Psbt) (q : Quorum) :
    p.finishInPlace q =
      match p.finish q with
      | .ok p' => (p', .ok ())
      | .error why => (p, .error why) := by
  unfold finishInPlace finish
  cases Solution.ofPsbt q p <;> rfl

/-- A PSBT that is finished was given a solution that is accepted. -/
theorem finishInPlace_eq_ok {p p' : Psbt} {q : Quorum} (h : p.finishInPlace q = (p', .ok ())) :
    ∃ i rest s, p.inputs = i :: rest ∧ Solution.ofPsbt q p = .ok s ∧
      Solution.checkWitness q s.witness = .ok () ∧
      p' = { p with inputs := i.finish s :: rest } := by
  unfold finishInPlace at h
  cases hs : Solution.ofPsbt q p with
  | error why =>
    rw [hs] at h
    cases h
  | ok s =>
    rw [hs] at h
    obtain ⟨hne, hcheck⟩ := Solution.checkWitness_of_ofPsbt hs
    obtain ⟨i, rest, hinputs⟩ := List.exists_cons_of_ne_nil hne
    rw [hinputs] at h
    cases h
    exact ⟨i, rest, s, hinputs, rfl, hcheck, rfl⟩

/-- **Finishing keeps the solution.** A PSBT that was finished has the solution that it had before,
finishing it once more succeeds and changes nothing, and nothing differs from before but the final
fields of the first input and those that served to find the solution. A PSBT that cannot be finished
stays as it is. Every witness that is built is accepted where it is found. -/
theorem finish_keeps_solution (p : Psbt) (q : Quorum) :
    p.finishInPlace q = (match p.finish q with
      | .ok p' => (p', .ok ())
      | .error why => (p, .error why)) ∧
    (∀ p', p.finishInPlace q = (p', .ok ()) →
      (∃ data, p.commitmentSection q = .ok data ∧ p'.commitmentSection q = .ok data) ∧
      p'.finishInPlace q = (p', .ok ()) ∧
      ∃ i i' rest, p.inputs = i :: rest ∧ p' = { p with inputs := i' :: rest } ∧
        i' = { i with
          finalScriptSig := i'.finalScriptSig
          finalWitness := i'.finalWitness
          tapKeySignature := i'.tapKeySignature
          tapScriptSignatures := i'.tapScriptSignatures
          tapScripts := i'.tapScripts
          tapKeyOrigins := i'.tapKeyOrigins
          tapInternalKey := i'.tapInternalKey
          tapMerkleRoot := i'.tapMerkleRoot
          sighashType := i'.sighashType }) ∧
    (∀ p' why, p.finishInPlace q = (p', .error why) → p' = p) ∧
    ∀ input w, Solution.buildWitness q input = .ok w → Solution.checkWitness q w = .ok () := by
  refine ⟨finishInPlace_eq p q, fun p' h => ?_, fun p' why h => ?_,
    fun input w => Solution.checkWitness_of_buildWitness⟩
  · obtain ⟨i, rest, s, hinputs, hs, hcheck, rfl⟩ := finishInPlace_eq_ok h
    have hs' := Solution.ofPsbt_of_finished
      (p := { p with inputs := i.finish s :: rest }) rfl hcheck
    refine ⟨⟨s.commitmentSection, ?_, ?_⟩, ?_, i, i.finish s, rest, hinputs, rfl, rfl⟩
    · rw [commitmentSection, hs]
      rfl
    · rw [commitmentSection, hs']
      rfl
    · -- the second solution is the first one, and an input is finished with it already
      rw [finishInPlace, hs']
      rfl
  · rw [finishInPlace_eq] at h
    split at h <;> cases h
    rfl

/-- The sample PSBT with one signature, finished twice, and the one without any, which cannot be
finished. -/
theorem finish_keeps_solution_sample :
    (∃ p' data, Round.signedSamplePsbt.finishInPlace .sample = (p', .ok ()) ∧
      Round.signedSamplePsbt.commitmentSection .sample = .ok data ∧
      p'.commitmentSection .sample = .ok data ∧ p'.finishInPlace .sample = (p', .ok ())) ∧
    (∃ p' why, Round.samplePsbt.finishInPlace .sample = (p', .error why) ∧
      p' = Round.samplePsbt) ∧
    ∃ i w, i ∈ Round.signedSamplePsbt.inputs ∧ Solution.buildWitness .sample i = .ok w ∧
      Solution.checkWitness .sample w = .ok () := by
  obtain ⟨_, hkeeps, _, haccepts⟩ := finish_keeps_solution Round.signedSamplePsbt .sample
  obtain ⟨_, _, hstays, _⟩ := finish_keeps_solution Round.samplePsbt .sample
  have hdone : (Round.signedSamplePsbt.finishInPlace .sample).2 = .ok () := by decide +kernel
  have hmissing : (Round.samplePsbt.finishInPlace .sample).2 =
      .error (.incompleteSignatures 1 0) := by
    decide +kernel
  have hbuilt : (Round.signedSamplePsbt.inputs.any fun i =>
      (Solution.buildWitness .sample i).toOption.isSome) = true := by
    decide +kernel
  have hfinished := Prod.ext_iff.2 ⟨rfl, hdone⟩
  have hrefused := Prod.ext_iff.2 ⟨rfl, hmissing⟩
  obtain ⟨⟨data, hbefore, hafter⟩, hagain, _⟩ := hkeeps _ hfinished
  refine ⟨⟨_, data, hfinished, hbefore, hafter, hagain⟩,
    ⟨_, _, hrefused, hstays _ _ hrefused⟩, ?_⟩
  obtain ⟨i, hi, hsome⟩ := List.any_eq_true.1 hbuilt
  cases hw : Solution.buildWitness .sample i with
  | error why =>
    rw [hw] at hsome
    cases hsome
  | ok w => exact ⟨i, w, hi, hw, haccepts i w hw⟩

end Psbt

end SignetFederation
