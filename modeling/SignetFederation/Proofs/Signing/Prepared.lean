import SignetFederation.Proofs.Signing.Runs

/-!
# Prepared PSBTs

A round works on a PSBT that was filled with what its quorum prescribes. Signatures come and go, the
rest of the input stays what the filling made of it; so the PSBT of a round is prepared at any time,
and to prepare it once more changes nothing. A signer that prepares the round's PSBT for itself
therefore signs for the very messages that the round verifies against.

Main statements: `Quorum.update_of_withoutSignatures` and `Round.exists_input_of_run`.
-/

namespace SignetFederation

/-- A map in which a key has a value already is not changed by putting it there. -/
theorem SortedMap.insert_of_get? {κ ν : Type} [Ranked κ] [DecidableEq κ] {m : SortedMap κ ν} {k : κ}
    {v : ν} (h : m.get? k = some v) : m.insert k v = m := by
  refine SortedMap.ext_get? fun k' => ?_
  rw [SortedMap.get?_insert]
  split
  · next hk => rw [hk, h]
  · rfl

namespace Quorum

variable {q : Quorum} {i : Psbt.Input} {spent : TxOut}

/-- The input with what the quorum prescribes has no other leaf script. -/
theorem ownsLeaves_fillInput (h : q.ownsLeaves i = true) :
    q.ownsLeaves (q.fillInput i spent) = true := by
  refine List.all_eq_true.2 ?_
  rintro ⟨control, leaf⟩ hmem
  have hget := SortedMap.mem_entries_iff.1 hmem
  simp only [fillInput, SortedMap.get?_insert] at hget
  split at hget
  · next hcontrol =>
    cases hget
    simp [hcontrol]
  · exact List.all_eq_true.1 h _ (SortedMap.mem_entries_iff.2 hget)

/-- A filled input is filled already. -/
theorem fillInput_fillInput (spent' : TxOut) :
    q.fillInput (q.fillInput i spent) spent' = q.fillInput i spent := by
  have hleaf : (q.fillInput i spent).tapScripts.get? q.controlBlock =
      some (q.script, Taproot.scriptLeaf) := SortedMap.get?_insert_self _ _ _
  have hscripts := SortedMap.insert_of_get? hleaf
  simp only [fillInput, Option.getD_some] at hscripts ⊢
  rw [hscripts]

/-- The output that a filled input spends. -/
theorem spentOutput_fillInput {vout : UInt32} (h : i.spent? vout = some spent) :
    (q.fillInput i spent).spentOutput = some spent := by
  unfold Psbt.Input.spent? at h
  cases hs : i.spentOutput with
  | none => simp [fillInput, hs]
  | some out =>
    rw [hs] at h
    cases h
    simp [fillInput, hs]

end Quorum

namespace Round

/-! ## The only input of a started round -/

/-- An input without its signatures. -/
def bareInput (i : Psbt.Input) : Psbt.Input :=
  { i with tapKeySignature := none, tapScriptSignatures := ∅ }

theorem eq_of_bareInput {i j : Psbt.Input} (h : bareInput i = bareInput j)
    (hkey : i.tapKeySignature = j.tapKeySignature)
    (hleaf : i.tapScriptSignatures = j.tapScriptSignatures) : i = j := by
  cases i
  cases j
  simp only at hkey hleaf
  subst hkey hleaf
  simp only [bareInput, Psbt.Input.mk.injEq, true_and] at h ⊢
  exact h

/-- What does not look at signatures says the same of inputs that differ only in these. -/
theorem congr_of_bareInput {β : Type} {i j : Psbt.Input} (h : bareInput i = bareInput j)
    (f : Psbt.Input → β) (hf : ∀ k, f (bareInput k) = f k) : f i = f j := by
  rw [← hf, h, hf]

/-- A PSBT that differs from one with a single input at most in its signatures has one input, which
differs at most in its signatures. -/
theorem exists_input_of_withoutSignatures {p p' : Psbt} {j : Psbt.Input}
    (h : withoutSignatures p = withoutSignatures p') (hj : p'.inputs = [j]) :
    ∃ i, p.inputs = [i] ∧ bareInput i = bareInput j := by
  have hinputs := congrArg Psbt.inputs h
  simp only [withoutSignatures, hj, List.modifyHead_cons] at hinputs
  rcases hi : p.inputs with _ | ⟨i, _ | _⟩
  · rw [hi] at hinputs
    cases hinputs
  · rw [hi] at hinputs
    exact ⟨i, rfl, (List.cons.inj hinputs).1⟩
  · simp [hi] at hinputs

/-- After any calls the round's PSBT has the input that it was started with, filled with what the
quorum prescribes and with other signatures. -/
theorem exists_input_of_run {q : Quorum} {p : Psbt} {first : Round}
    (hstart : start q p = .ok first) (calls : List Call) :
    ∃ i₀ i spent, p.inputs = [i₀] ∧ (first.run calls).psbt.inputs = [i] ∧
      q.ownsLeaves i₀ = true ∧ bareInput i = bareInput (q.fillInput i₀ spent) := by
  obtain ⟨i₀, h⟩ := started_of_start hstart
  obtain ⟨base, hbase, hprepared⟩ := h.prepared
  obtain ⟨j, spent, honly, _, _, howns, hfilled⟩ := Quorum.update_eq_ok_iff.1 hbase
  have hj : j = i₀ := (List.cons.inj ((Psbt.onlyInput_eq_ok_iff.1 honly).1.symm.trans h.inputs)).1
  subst hj
  have hrest : withoutSignatures (first.run calls).psbt = withoutSignatures base :=
    (h.invariant.run calls).rest.trans hprepared
  obtain ⟨i, hi, hbare⟩ := exists_input_of_withoutSignatures hrest (by rw [hfilled])
  exact ⟨j, i, spent, h.inputs, hi, howns, hbare⟩

/-- After any calls the round's PSBT has one input, which has the final fields that it was started with
and no leaf script but the quorum's. -/
theorem exists_finals_of_run {q : Quorum} {p : Psbt} {first : Round}
    (hstart : start q p = .ok first) (calls : List Call) :
    ∃ i₀ i, p.inputs = [i₀] ∧ (first.run calls).psbt.inputs = [i] ∧
      i.finalScriptSig = i₀.finalScriptSig ∧ i.finalWitness = i₀.finalWitness ∧
      q.ownsLeaves i = true := by
  obtain ⟨i₀, i, spent, hi₀, hi, howns, hbare⟩ := exists_input_of_run hstart calls
  refine ⟨i₀, i, hi₀, hi, congr_of_bareInput hbare Psbt.Input.finalScriptSig fun _ => rfl,
    congr_of_bareInput hbare Psbt.Input.finalWitness fun _ => rfl, ?_⟩
  exact (congr_of_bareInput hbare q.ownsLeaves fun _ => rfl).trans
    (Quorum.ownsLeaves_fillInput howns)

end Round

/-! ## Preparing twice -/

open Round in
/-- A prepared PSBT, with whatever signatures, has one input, which spends an output of the
challenge. -/
theorem Quorum.exists_spent_of_withoutSignatures {q : Quorum} {p p' base : Psbt}
    (hbase : q.update p = .ok base) (h : withoutSignatures p' = withoutSignatures base) :
    ∃ i spent, p'.onlyInput = .ok (i, spent) ∧ i.spentOutput = some spent ∧
      spent.script = q.challenge ∧ q.ownsLeaves i = true ∧ i.tapInternalKey = some q.internal ∧
      ∀ spent', q.fillInput i spent' = i := by
  obtain ⟨i₀, spent, honly, hscript, _, howns, rfl⟩ := Quorum.update_eq_ok_iff.1 hbase
  obtain ⟨_, placed, hplaced, hspent⟩ := Psbt.onlyInput_eq_ok_iff.1 honly
  obtain ⟨i, hi, hbare⟩ := exists_input_of_withoutSignatures h rfl
  have hunsigned : p'.unsigned = p.unsigned := by
    have := congrArg Psbt.unsigned h
    exact this
  have hout : i.spentOutput = some spent :=
    (congr_of_bareInput hbare Psbt.Input.spentOutput fun _ => rfl).trans
      (spentOutput_fillInput hspent)
  have hspent' : i.spent? placed.previous.vout = some spent := by
    unfold Psbt.Input.spent?
    rw [hout]
  refine ⟨i, spent, Psbt.onlyInput_eq_ok_iff.2 ⟨hi, placed, hunsigned ▸ hplaced, hspent'⟩, hout,
    hscript, ?_, congr_of_bareInput hbare Psbt.Input.tapInternalKey fun _ => rfl, fun spent' => ?_⟩
  · have hleaves := congr_of_bareInput hbare q.ownsLeaves fun _ => rfl
    exact hleaves.trans (ownsLeaves_fillInput howns)
  · -- filling touches no signature, so it is enough that it does nothing to the bare input
    have hbare' : bareInput (q.fillInput i spent') = bareInput i := by
      have hcomm : ∀ j, bareInput (q.fillInput j spent') = q.fillInput (bareInput j) spent' :=
        fun _ => rfl
      rw [hcomm, hbare, ← hcomm, fillInput_fillInput]
    exact eq_of_bareInput hbare' rfl rfl

open Round in
/-- A prepared PSBT, with whatever signatures, is prepared by leaving it as it is. -/
theorem Quorum.update_of_withoutSignatures {q : Quorum} {p p' base : Psbt}
    (hbase : q.update p = .ok base) (h : withoutSignatures p' = withoutSignatures base) :
    q.update p' = .ok p' := by
  obtain ⟨i, spent, honly, _, hscript, howns, hkey, hfill⟩ :=
    Quorum.exists_spent_of_withoutSignatures hbase h
  refine Quorum.update_eq_ok_iff.2 ⟨i, spent, honly, hscript, ?_, howns, ?_⟩
  · intro key hk
    rw [hkey] at hk
    exact (Option.some.inj hk).symm
  · rw [hfill, ← (Psbt.onlyInput_eq_ok_iff.1 honly).1]

end SignetFederation
