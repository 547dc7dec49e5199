import SignetFederation.Proofs.Signing.Prepared

/-!
# A local signer in a round

A round that goes on is consistent: its PSBT is prepared, its messages are those of the PSBT, slots
and PSBT are in step and all signatures are good. A merge into such a round comes down to the
signatures that the PSBT brings (`Consistent.merge_ok_iff`, `Consistent.signature?_merge`). A local
signer of the round's quorum signs the round's own messages, so its step succeeds exactly if the
signature verifies and its slot holds no other (`Consistent.apply_ok_iff`), and then fills this slot
and no other (`Consistent.signature?_apply`).
-/

namespace SignetFederation

namespace Round

/-! ## Signatures of an input -/

section Brings

variable {q : Quorum} {i : Psbt.Input} {slot slot' : Slot} {s s' : TapSignature}

theorem brings_keyPath_iff : Brings q i .keyPath s ↔ i.tapKeySignature = some s := by
  constructor
  · intro h
    cases h with
    | keyPath h => exact h
  · exact .keyPath

theorem brings_script_iff {n : Nat} : Brings q i (.script n) s ↔
    ∃ key, q.signers[n]? = some key ∧ i.tapScriptSignatures.get? ⟨key, q.leafHash⟩ = some s := by
  constructor
  · intro h
    cases h with
    | script hkey h => exact ⟨_, hkey, h⟩
  · rintro ⟨key, hkey, h⟩
    exact .script hkey h

/-- An input carries at most one signature for a slot. -/
theorem Brings.unique (h : Brings q i slot s) (h' : Brings q i slot s') : s = s' := by
  cases h with
  | keyPath h =>
    rw [brings_keyPath_iff, h] at h'
    exact Option.some.inj h'
  | script hkey h =>
    obtain ⟨key, hkey', h''⟩ := brings_script_iff.1 h'
    rw [hkey] at hkey'
    cases hkey'
    rw [h] at h''
    exact Option.some.inj h''

/-- What an input carries once a signature is put into it. -/
theorem brings_withSignature_iff {key : XOnlyKey} (hkey : q.keyFor slot = some key) :
    Brings q (i.withSignature q slot key s) slot' s' ↔
      if slot' = slot then s' = s else Brings q i slot' s' := by
  cases slot with
  | keyPath =>
    cases slot' with
    | keyPath => simp [brings_keyPath_iff, Psbt.Input.withSignature, eq_comm]
    | script m => simp [brings_script_iff, Psbt.Input.withSignature]
  | script n =>
    have hn : q.signers[n]? = some key := hkey
    cases slot' with
    | keyPath => simp [brings_keyPath_iff, Psbt.Input.withSignature]
    | script m =>
      simp only [brings_script_iff, Psbt.Input.withSignature, SortedMap.get?_insert,
        LeafSigner.mk.injEq, and_true, Slot.script.injEq]
      by_cases hm : m = n
      · subst hm
        simp [hn, eq_comm]
      · rw [if_neg hm]
        refine exists_congr fun key' => and_congr_right fun hkey' => ?_
        rw [if_neg]
        rintro rfl
        exact hm (Quorum.signer_inj hkey' hn)

/-- A good signature for a slot makes no input faulty. -/
theorem Faulty.of_withSignature {hashes : Sighashes} {key : XOnlyKey}
    (hkey : q.keyFor slot = some key) (hs : Good q hashes slot s)
    (h : Faulty q hashes (i.withSignature q slot key s)) : Faulty q hashes i := by
  rcases h with ⟨control, leaf, hleaf, hne⟩ | ⟨e, s', hs', he⟩ | ⟨slot', s', hb, hbad⟩
  · refine .inl ⟨control, leaf, ?_, hne⟩
    cases slot <;> exact hleaf
  · refine .inr (.inl ⟨e, s', ?_, he⟩)
    cases slot with
    | keyPath => exact hs'
    | script n =>
      have hn : q.signers[n]? = some key := hkey
      simp only [Psbt.Input.withSignature, SortedMap.get?_insert] at hs'
      split at hs'
      · next heq =>
        subst heq
        rcases he with he | he
        · exact absurd rfl he
        · exact absurd (List.mem_of_getElem? hn) he
      · exact hs'
  · rw [brings_withSignature_iff hkey] at hb
    split at hb
    · next heq =>
      subst heq hb
      exact absurd hs hbad
    · exact .inr (.inr ⟨slot', s', hb, hbad⟩)

/-- The input of a round carries what its slots hold. -/
theorem InStep.brings_iff {r : Round} {rest : List Psbt.Input} (h : r.InStep)
    (hi : r.psbt.inputs = i :: rest) : Brings r.quorum i slot s ↔ r.signature? slot = some s := by
  obtain ⟨i', rest', hi', hkeyPath, hscript⟩ := h
  obtain ⟨rfl, rfl⟩ := List.cons.inj (hi.symm.trans hi')
  cases slot with
  | keyPath =>
    rw [brings_keyPath_iff, hkeyPath]
    rfl
  | script n =>
    simp only [brings_script_iff, hscript, true_and]
    constructor
    · rintro ⟨key, hkey, m, hm, hs⟩
      rwa [Quorum.signer_inj hkey hm]
    · intro hs
      have hn : n < r.quorum.signers.length := by
        rw [← r.length_script]
        exact (List.getElem?_eq_some_iff.1 (Option.join_eq_some_iff.1 hs)).1
      exact ⟨_, List.getElem?_eq_getElem hn, n, List.getElem?_eq_getElem hn, hs⟩

end Brings

/-! ## Consistent rounds -/

/-- What holds of a round at any time: its PSBT is prepared, its messages are those that the PSBT's
signatures sign, and the slots hold good signatures, which are those of the PSBT. -/
structure Consistent (r : Round) : Prop where
  prepared : r.quorum.update r.psbt = .ok r.psbt
  messages : r.quorum.sighashes r.psbt = .ok r.hashes
  inStep : r.InStep
  good : ∀ slot s, r.signature? slot = some s → Good r.quorum r.hashes slot s

theorem Consistent.extends {r r' : Round} (h : r.Consistent) (hext : Extends r r') :
    r'.Consistent where
  prepared := by
    rw [hext.quorum]
    exact Quorum.update_of_withoutSignatures h.prepared hext.rest
  messages := by
    rw [hext.quorum, hext.hashes]
    exact Quorum.sighashes_congr hext.rest h.messages
  inStep := hext.inStep h.inStep
  good := hext.sound h.good

theorem consistent_of_start {q : Quorum} {p : Psbt} {r : Round} (h : start q p = .ok r) :
    r.Consistent := by
  obtain ⟨i, hstarted⟩ := started_of_start h
  obtain ⟨base, hbase, hrest⟩ := hstarted.prepared
  refine ⟨?_, ?_, hstarted.inStep, hstarted.sound⟩
  · rw [hstarted.quorum]
    exact Quorum.update_of_withoutSignatures hbase hrest
  · rw [hstarted.quorum]
    exact hstarted.hashes

namespace Consistent

variable {r : Round}

/-- The only input of the round's PSBT is not faulty and spends an output of the challenge. -/
theorem exists_input (h : r.Consistent) :
    ∃ i spent, r.psbt.inputs = [i] ∧ i.spentOutput = some spent ∧
      spent.script = r.quorum.challenge ∧ r.psbt.onlyInput = .ok (i, spent) ∧
      ¬ Faulty r.quorum r.hashes i := by
  obtain ⟨i, spent, honly, hout, hscript, howns, _⟩ :=
    Quorum.exists_spent_of_withoutSignatures h.prepared rfl
  have hi := (Psbt.onlyInput_eq_ok_iff.1 honly).1
  refine ⟨i, spent, hi, hout, hscript, honly, ?_⟩
  rintro (⟨control, leaf, hleaf, hne⟩ | ⟨e, s, hs, he⟩ | ⟨slot, s, hs, hbad⟩)
  · have := List.all_eq_true.1 howns _ (SortedMap.mem_entries_iff.2 hleaf)
    simp only [Bool.and_eq_true, beq_iff_eq] at this
    exact hne this.1
  · obtain ⟨i', rest', hi', _, hscript'⟩ := h.inStep
    obtain ⟨rfl, _⟩ := List.cons.inj (hi.symm.trans hi')
    obtain ⟨hleaf, n, hn, _⟩ := (hscript' e s).1 hs
    rcases he with he | he
    · exact he hleaf
    · exact he (List.mem_of_getElem? hn)
  · exact hbad (h.good slot s ((h.inStep.brings_iff hi).1 hs))

/-! ## Merging into a consistent round -/

theorem exists_merge_ok_iff {p : Psbt} {i : Psbt.Input} {rest : List Psbt.Input}
    (hactive : r.failure = none) (hp : p.unsigned = r.psbt.unsigned) (hi : p.inputs = i :: rest) :
    (∃ state, (r.merge p).2 = .ok state) ↔
      (r.takeAll (contributions r.quorum i)).2 = .ok () := by
  unfold merge
  simp only [hactive, hp, hi, ne_eq, not_true_eq_false, if_false]
  generalize r.takeAll (contributions r.quorum i) = taken
  obtain ⟨r', answer⟩ := taken
  cases answer <;> simp

/-- A merge answers with a state exactly if the PSBT is for the round's transaction, its first input
is not faulty and none of its signatures is at odds with a held one. -/
theorem merge_ok_iff (h : r.Consistent) {p : Psbt} :
    (∃ state, (r.merge p).2 = .ok state) ↔ r.failure = none ∧ p.unsigned = r.psbt.unsigned ∧
      ∃ i rest, p.inputs = i :: rest ∧ ¬ Faulty r.quorum r.hashes i ∧
        ∀ slot s s', r.signature? slot = some s → Brings r.quorum i slot s' → s = s' := by
  cases hf : r.failure with
  | some reason => simp [merge_of_failed hf]
  | none =>
    by_cases hp : p.unsigned = r.psbt.unsigned
    · cases hi : p.inputs with
      | nil => simp [merge, hf, hp, hi]
      | cons i rest =>
        rw [exists_merge_ok_iff hf hp hi, takeAll_ok_iff h.good, forall_contributions_iff]
        constructor
        · rintro ⟨hclean, hone⟩
          refine ⟨rfl, hp, i, rest, rfl, hclean, fun slot s s' hs hs' => ?_⟩
          exact hone slot s s' (.inl hs) (.inr (ok_mem_contributions_iff.2 hs'))
        · rintro ⟨_, _, _, _, heq, hclean, hone⟩
          cases heq
          refine ⟨hclean, fun slot s s' hs hs' => ?_⟩
          -- either signature is held or brought, and only one of each kind can be there
          unfold Holds at hs hs'
          rw [ok_mem_contributions_iff] at hs hs'
          rcases hs with hs | hs <;> rcases hs' with hs' | hs'
          · rw [hs] at hs'
            exact Option.some.inj hs'
          · exact hone slot s s' hs hs'
          · exact (hone slot s' s hs' hs).symm
          · exact hs.unique hs'
    · simp [merge, hf, hp]

/-- After a merge that answers with a state the round holds what it held and what was brought. -/
theorem signature?_merge (h : r.Consistent) {p : Psbt} {state : RoundState}
    (hok : (r.merge p).2 = .ok state) {i : Psbt.Input} {rest : List Psbt.Input}
    (hi : p.inputs = i :: rest) {slot : Slot} {s : TapSignature} :
    (r.merge p).1.signature? slot = some s ↔
      r.signature? slot = some s ∨ Brings r.quorum i slot s := by
  obtain ⟨hf, hp, _⟩ := h.merge_ok_iff.1 ⟨state, hok⟩
  have hrow : r.contributed p = contributions r.quorum i := by
    rw [contributed, if_pos hp, hi]
    rfl
  have htaken : (r.takeAll (contributions r.quorum i)).2 = .ok () := by
    rw [← takeAll_failure hf, ← hrow, ← merge_fst hf]
    exact (state_of_merge_ok hok).2
  rw [merge_fst hf, hrow, signature?_takeAll htaken, Holds, ok_mem_contributions_iff]

end Consistent

end Round

/-! ## The signer's step -/

/-- The signature that a local signer makes over some messages. -/
def LocalSigner.Signs (l : LocalSigner) (hashes : Sighashes) (s : TapSignature) : Prop :=
  ∃ key, l.signingKey = .ok key ∧ s = ⟨Schnorr.sign key (hashes.forSlot l.slot), .all⟩

theorem LocalSigner.Signs.unique {l : LocalSigner} {hashes : Sighashes} {s s' : TapSignature}
    (h : l.Signs hashes s) (h' : l.Signs hashes s') : s = s' := by
  obtain ⟨key, hkey, rfl⟩ := h
  obtain ⟨key', hkey', rfl⟩ := h'
  rw [hkey] at hkey'
  cases hkey'
  rfl

/-- A signer puts its signature over the PSBT's messages into a prepared PSBT, and does nothing
else. -/
theorem LocalSigner.sign_eq_ok_iff {l : LocalSigner} {p p' : Psbt} {hashes : Sighashes}
    (hprepared : l.quorum.update p = .ok p) (hhashes : l.quorum.sighashes p = .ok hashes) :
    l.sign p = .ok p' ↔ ∃ s, l.Signs hashes s ∧ p' = { p with
      inputs := p.inputs.modifyHead fun i => i.withSignature l.quorum l.slot l.publicKey s } := by
  simp only [LocalSigner.sign, hprepared, hhashes, bind_eq_ok_iff, pure_eq_ok_iff,
    Except.ok.injEq, exists_eq_left', LocalSigner.Signs]
  constructor
  · rintro ⟨key, hkey, rfl⟩
    exact ⟨_, ⟨key, hkey, rfl⟩, rfl⟩
  · rintro ⟨_, ⟨key, hkey, rfl⟩, rfl⟩
    exact ⟨key, hkey, rfl⟩

namespace Round.Consistent

variable {r : Round} {l : LocalSigner}

/-- What the step of a local signer merges. -/
theorem exists_apply_eq_merge (h : r.Consistent) (hq : l.quorum = r.quorum)
    (hactive : r.failure = none) {s : TapSignature} (hs : l.Signs r.hashes s) :
    ∃ i p, r.psbt.inputs = [i] ∧ ¬ Faulty r.quorum r.hashes i ∧ p.unsigned = r.psbt.unsigned ∧
      p.inputs = [i.withSignature r.quorum l.slot l.publicKey s] ∧
      r.apply l.toPsbtSigner = r.merge p := by
  obtain ⟨i, spent, hi, _, _, _, hclean⟩ := h.exists_input
  have hsign : l.toPsbtSigner.sign r.psbt = _ :=
    (LocalSigner.sign_eq_ok_iff (by rw [hq]; exact h.prepared)
      (by rw [hq]; exact h.messages)).2 ⟨s, hs, rfl⟩
  refine ⟨i, { r.psbt with
    inputs := r.psbt.inputs.modifyHead fun i => i.withSignature l.quorum l.slot l.publicKey s },
    hi, hclean, rfl, by rw [hi, hq]; rfl, ?_⟩
  simp only [Round.apply, hactive, hsign]

/-- A local signer's step only succeeds in an active round, and if the signer can make a signature. -/
theorem exists_signs_of_apply (h : r.Consistent) (hq : l.quorum = r.quorum) {state : RoundState}
    (hok : (r.apply l.toPsbtSigner).2 = .ok state) :
    r.failure = none ∧ ∃ s, l.Signs r.hashes s := by
  unfold Round.apply at hok
  cases hf : r.failure with
  | some reason =>
    rw [hf] at hok
    cases hok
  | none =>
    simp only [hf] at hok
    cases hsign : l.toPsbtSigner.sign r.psbt with
    | error why =>
      rw [hsign] at hok
      cases hok
    | ok p =>
      obtain ⟨s, hs, _⟩ := (LocalSigner.sign_eq_ok_iff (by rw [hq]; exact h.prepared)
        (by rw [hq]; exact h.messages)).1 hsign
      exact ⟨rfl, s, hs⟩

/-- **When a local signer's step succeeds**: exactly if its signature over the round's messages is
good for its slot and the slot does not hold another one. -/
theorem apply_ok_iff (h : r.Consistent) (hq : l.quorum = r.quorum) :
    (∃ state, (r.apply l.toPsbtSigner).2 = .ok state) ↔ r.failure = none ∧
      ∃ s, l.Signs r.hashes s ∧ Good r.quorum r.hashes l.slot s ∧
        ∀ s', r.signature? l.slot = some s' → s' = s := by
  have hkey : r.quorum.keyFor l.slot = some l.publicKey := by
    rw [← hq]
    exact l.occupies
  constructor
  · rintro ⟨state, hok⟩
    obtain ⟨hactive, s, hs⟩ := h.exists_signs_of_apply hq hok
    obtain ⟨i, p, _, _, _, hinputs, heq⟩ := h.exists_apply_eq_merge hq hactive hs
    rw [heq] at hok
    obtain ⟨_, _, j, rest, hj, hclean, hone⟩ := h.merge_ok_iff.1 ⟨state, hok⟩
    obtain ⟨rfl, rfl⟩ := List.cons.inj (hinputs.symm.trans hj)
    have hown : Brings r.quorum (i.withSignature r.quorum l.slot l.publicKey s) l.slot s := by
      rw [brings_withSignature_iff hkey, if_pos rfl]
    refine ⟨hactive, s, hs, not_not.1 fun hbad => hclean (.inr (.inr ⟨_, s, hown, hbad⟩)), ?_⟩
    exact fun s' hs' => hone l.slot s' s hs' hown
  · rintro ⟨hactive, s, hs, hgood, hfree⟩
    obtain ⟨i, p, hi, hclean, hp, hinputs, heq⟩ := h.exists_apply_eq_merge hq hactive hs
    rw [heq]
    refine h.merge_ok_iff.2 ⟨hactive, hp, _, _, hinputs,
      fun hfaulty => hclean (hfaulty.of_withSignature hkey hgood), fun slot s₁ s₂ h₁ h₂ => ?_⟩
    rw [brings_withSignature_iff hkey] at h₂
    split at h₂
    · next hslot =>
      subst hslot h₂
      exact hfree s₁ h₁
    · have := (h.inStep.brings_iff hi).1 h₂
      rw [h₁] at this
      exact Option.some.inj this

/-- After the step of a local signer its slot holds its signature, the others are as before. -/
theorem signature?_apply (h : r.Consistent) (hq : l.quorum = r.quorum) {state : RoundState}
    (hok : (r.apply l.toPsbtSigner).2 = .ok state) {s : TapSignature} (hs : l.Signs r.hashes s)
    (slot : Slot) (s' : TapSignature) :
    (r.apply l.toPsbtSigner).1.signature? slot = some s' ↔
      r.signature? slot = some s' ∨ (slot = l.slot ∧ s' = s) := by
  have hkey : r.quorum.keyFor l.slot = some l.publicKey := by
    rw [← hq]
    exact l.occupies
  obtain ⟨hactive, t, ht, _, hfree⟩ := (h.apply_ok_iff hq).1 ⟨state, hok⟩
  cases hs.unique ht
  obtain ⟨i, p, hi, _, _, hinputs, heq⟩ := h.exists_apply_eq_merge hq hactive hs
  rw [heq] at hok ⊢
  rw [h.signature?_merge hok hinputs, brings_withSignature_iff hkey]
  by_cases hslot : slot = l.slot
  · subst hslot
    simp only [if_true, true_and]
  · rw [if_neg hslot, h.inStep.brings_iff hi]
    simp [hslot]

end Round.Consistent

end SignetFederation
