import SignetFederation.Proofs.Outcome
import SignetFederation.Proofs.Signing.Slots

/-!
# Merging partial PSBTs

A merge takes what a partial PSBT brings to the round's transaction as one row of contributions, so
the facts about rows carry over. `Brings` and `Faulty` say what an input contributes in terms of its
own fields.

Main statements: `merge_fst`, `forall_contributions_iff` and `started_of_start` (a round that is started
holds exactly the signatures that its PSBT carries).
-/

namespace SignetFederation

/-! ## Preparing a PSBT -/

theorem Psbt.onlyInput_eq_ok_iff {p : Psbt} {i : Psbt.Input} {spent : TxOut} :
    p.onlyInput = .ok (i, spent) ↔ p.inputs = [i] ∧
      ∃ placed, p.unsigned.inputs = [placed] ∧ i.spent? placed.previous.vout = some spent := by
  unfold Psbt.onlyInput
  split
  · next placed input hplaced hinput =>
    rw [hplaced, hinput]
    cases hs : input.spent? placed.previous.vout with
    | none =>
      refine ⟨nofun, ?_⟩
      rintro ⟨hi, _, hp, hspent⟩
      cases hi
      cases hp
      rw [hs] at hspent
      cases hspent
    | some out =>
      constructor
      · intro h
        cases h
        exact ⟨rfl, placed, rfl, hs⟩
      · rintro ⟨hi, _, hp, hspent⟩
        cases hi
        cases hp
        rw [hs] at hspent
        cases hspent
        rfl
  · next placed inputs hne =>
    refine ⟨nofun, ?_⟩
    rintro ⟨hi, placed', hp, _⟩
    exact absurd hi (hne placed' i hp)

/-- A PSBT is prepared exactly if its only input agrees with the quorum where it says anything. -/
theorem Quorum.update_eq_ok_iff {q : Quorum} {p base : Psbt} :
    q.update p = .ok base ↔ ∃ i spent, p.onlyInput = .ok (i, spent) ∧ spent.script = q.challenge ∧
      (∀ key, i.tapInternalKey = some key → key = q.internal) ∧ q.ownsLeaves i = true ∧
      base = { p with inputs := [q.fillInput i spent] } := by
  simp only [Quorum.update, throw_bind, bind_eq_ok_iff, ite_error_eq_ok_iff, Prod.exists, not_not]
  refine exists_congr fun i => exists_congr fun spent => and_congr_right fun _ =>
    and_congr_right fun _ => ?_
  cases hkey : i.tapInternalKey with
  | none => simp [ite_error_eq_ok_iff, pure_eq_ok_iff]
  | some key =>
    by_cases h : key = q.internal
    · simp [h, ite_error_eq_ok_iff, pure_eq_ok_iff]
    · simp [h]

theorem Quorum.sighashes_of_onlyInput {q : Quorum} {p : Psbt} {i : Psbt.Input} {spent : TxOut}
    (h : p.onlyInput = .ok (i, spent)) :
    q.sighashes p = .ok ⟨Taproot.sighash p.unsigned [spent] 0 none,
      Taproot.sighash p.unsigned [spent] 0 (some q.leafHash)⟩ := by
  unfold Quorum.sighashes
  rw [h]
  rfl

/-- The messages do not depend on the signatures that a PSBT carries. -/
theorem Quorum.sighashes_congr {q : Quorum} {p p' : Psbt}
    (h : Round.withoutSignatures p' = Round.withoutSignatures p) {hashes : Sighashes}
    (hp : q.sighashes p = .ok hashes) : q.sighashes p' = .ok hashes := by
  have hunsigned : p'.unsigned = p.unsigned := by
    have := congrArg Psbt.unsigned h
    exact this
  cases honly : p.onlyInput with
  | error why =>
    unfold Quorum.sighashes at hp
    rw [honly] at hp
    cases hp
  | ok found =>
    obtain ⟨i, spent⟩ := found
    obtain ⟨hi, placed, hplaced, hspent⟩ := Psbt.onlyInput_eq_ok_iff.1 honly
    have hinputs := congrArg Psbt.inputs h
    simp only [Round.withoutSignatures, hi, List.modifyHead_cons] at hinputs
    rcases hi' : p'.inputs with _ | ⟨i', _ | _⟩
    · rw [hi'] at hinputs
      cases hinputs
    · rw [hi', List.modifyHead_cons] at hinputs
      have hsame := (List.cons.inj hinputs).1
      have hspent' : i'.spent? placed.previous.vout = some spent := by
        have := congrArg (fun j : Psbt.Input => j.spent? placed.previous.vout) hsame
        exact this.trans hspent
      rw [Quorum.sighashes_of_onlyInput honly] at hp
      rw [Quorum.sighashes_of_onlyInput
        (Psbt.onlyInput_eq_ok_iff.2 ⟨hi', placed, hunsigned ▸ hplaced, hspent'⟩), hunsigned]
      exact hp
    · simp [hi'] at hinputs

namespace Round

/-! ## What an input contributes -/

/-- An input carries a signature for a slot: the one for the key path, or one under the key of a
leaf slot and the quorum's leaf. -/
inductive Brings (q : Quorum) (i : Psbt.Input) : Slot → TapSignature → Prop
  | keyPath {s : TapSignature} (h : i.tapKeySignature = some s) : Brings q i .keyPath s
  | script {n : Nat} {key : XOnlyKey} {s : TapSignature} (hkey : q.signers[n]? = some key)
      (h : i.tapScriptSignatures.get? ⟨key, q.leafHash⟩ = some s) : Brings q i (.script n) s

/-- An input carries what no member of the quorum puts there: another leaf script, a signature for
another leaf or by a key outside the leaf, or a signature that is not good for its slot. -/
def Faulty (q : Quorum) (hashes : Sighashes) (i : Psbt.Input) : Prop :=
  (∃ control leaf, i.tapScripts.get? control = some leaf ∧ leaf.1 ≠ q.script) ∨
    (∃ e s, i.tapScriptSignatures.get? e = some s ∧ (e.leaf ≠ q.leafHash ∨ e.key ∉ q.signers)) ∨
    ∃ slot s, Brings q i slot s ∧ ¬ Good q hashes slot s

/-- A signature for the leaf counts for the slot of its key. -/
theorem leafContribution_eq_ok_iff {q : Quorum} {e : LeafSigner × TapSignature} {slot : Slot}
    {s : TapSignature} : leafContribution q e = .ok (slot, s) ↔
      e.2 = s ∧ e.1.leaf = q.leafHash ∧ ∃ n, slot = .script n ∧ q.signers[n]? = some e.1.key := by
  unfold leafContribution
  by_cases hleaf : e.1.leaf = q.leafHash
  · cases hslot : q.slotOf e.1.key with
    | none =>
      have hno : ∀ n, q.signers[n]? ≠ some e.1.key := fun n hn => by
        rw [Quorum.slotOf_eq_script_iff.2 hn] at hslot
        cases hslot
      simp [hleaf, hno]
    | some slot' =>
      cases slot' with
      | keyPath =>
        have hno : ∀ n, q.signers[n]? ≠ some e.1.key := fun n hn => by
          rw [Quorum.slotOf_eq_script_iff.2 hn] at hslot
          cases hslot
        simp [hleaf, hno]
      | script m =>
        have hm := Quorum.slotOf_eq_script_iff.1 hslot
        simp only [hleaf, ne_eq, not_true_eq_false, if_false, Except.ok.injEq, Prod.mk.injEq,
          true_and]
        constructor
        · rintro ⟨rfl, rfl⟩
          exact ⟨rfl, m, rfl, hm⟩
        · rintro ⟨rfl, n, rfl, hn⟩
          exact ⟨by rw [Quorum.signer_inj hm hn], rfl⟩
  · simp [hleaf]

/-- The signatures among the contributions of an input are those that it carries for slots. -/
theorem ok_mem_contributions_iff {q : Quorum} {i : Psbt.Input} {slot : Slot} {s : TapSignature} :
    Except.ok (slot, s) ∈ contributions q i ↔ Brings q i slot s := by
  have hscripts : Except.ok (slot, s) ∉
      (if i.tapScripts.entries.all fun e => e.2.1 == q.script then []
        else [Except.error (Error.scriptMismatch .foreignLeafScript)]) := by
    split <;> simp
  unfold contributions
  rw [List.mem_append, List.mem_append, or_iff_right hscripts, List.mem_map]
  constructor
  · rintro (h | ⟨⟨e, s'⟩, he, hc⟩)
    · split at h
      · next s' hs' =>
        cases List.mem_singleton.1 h
        exact .keyPath hs'
      · cases h
    · obtain ⟨rfl, hleaf, n, rfl, hn⟩ := leafContribution_eq_ok_iff.1 hc
      refine .script hn ?_
      rw [← hleaf]
      exact SortedMap.mem_entries_iff.1 he
  · intro h
    cases h with
    | keyPath h =>
      rw [h]
      exact .inl (List.mem_singleton.2 rfl)
    | script hkey h =>
      exact .inr ⟨_, SortedMap.mem_entries_iff.2 h,
        leafContribution_eq_ok_iff.2 ⟨rfl, rfl, _, rfl, hkey⟩⟩

/-- All contributions of an input are good signatures for slots exactly if it is not faulty. -/
theorem forall_contributions_iff {q : Quorum} {hashes : Sighashes} {i : Psbt.Input} :
    (∀ c ∈ contributions q i, ∃ slot s, c = .ok (slot, s) ∧ Good q hashes slot s) ↔
      ¬ Faulty q hashes i := by
  constructor
  · rintro h (⟨control, leaf, hleaf, hne⟩ | ⟨e, s, hs, he⟩ | ⟨slot, s, hs, hbad⟩)
    · have hmem : Except.error (Error.scriptMismatch .foreignLeafScript) ∈ contributions q i := by
        have hall : ¬ (i.tapScripts.entries.all fun e => e.2.1 == q.script) = true := fun hall =>
          hne (by simpa using List.all_eq_true.1 hall _ (SortedMap.mem_entries_iff.2 hleaf))
        simp [contributions, hall]
      obtain ⟨_, _, heq, _⟩ := h _ hmem
      cases heq
    · have hmem : leafContribution q (e, s) ∈ contributions q i :=
        List.mem_append_right _ (List.mem_map_of_mem (SortedMap.mem_entries_iff.2 hs))
      obtain ⟨_, _, heq, _⟩ := h _ hmem
      obtain ⟨_, hleaf, n, _, hn⟩ := leafContribution_eq_ok_iff.1 heq
      rcases he with he | he
      · exact he hleaf
      · exact he (List.mem_of_getElem? hn)
    · obtain ⟨_, _, heq, hg⟩ := h _ (ok_mem_contributions_iff.2 hs)
      cases heq
      exact hbad hg
  · intro h c hc
    have hgood : ∀ {slot s}, Brings q i slot s → Good q hashes slot s := fun hs =>
      not_not.1 fun hbad => h (.inr (.inr ⟨_, _, hs, hbad⟩))
    simp only [contributions, List.mem_append, List.mem_map] at hc
    rcases hc with (hc | hc) | ⟨⟨e, s⟩, he, rfl⟩
    · split at hc
      · cases hc
      · next hall =>
        obtain ⟨⟨control, leaf⟩, hmem, hne⟩ := List.all_eq_false.1 (Bool.eq_false_iff.2 hall)
        exact absurd (.inl ⟨control, leaf, SortedMap.mem_entries_iff.1 hmem, by simpa using hne⟩) h
    · split at hc
      · next s hs =>
        exact ⟨_, s, List.mem_singleton.1 hc, hgood (.keyPath hs)⟩
      · cases hc
    · have hs := SortedMap.mem_entries_iff.1 he
      have hleaf : e.leaf = q.leafHash :=
        not_not.1 fun hne => h (.inr (.inl ⟨e, s, hs, .inl hne⟩))
      have hkey : e.key ∈ q.signers := not_not.1 fun hne => h (.inr (.inl ⟨e, s, hs, .inr hne⟩))
      obtain ⟨n, hn⟩ := List.mem_iff_getElem?.1 hkey
      refine ⟨.script n, s, leafContribution_eq_ok_iff.2 ⟨rfl, hleaf, n, rfl, hn⟩, hgood ?_⟩
      exact .script hn (by rw [← hleaf]; exact hs)

/-! ## Merging -/

/-- What a PSBT contributes to a round: nothing unless it is for the round's transaction and has an
input. -/
def contributed (r : Round) (p : Psbt) : List (Except Error (Slot × TapSignature)) :=
  if p.unsigned = r.psbt.unsigned then (p.inputs.head?.map (contributions r.quorum)).getD [] else []

theorem merge_of_failed {r : Round} {reason : String} (h : r.failure = some reason) (p : Psbt) :
    r.merge p = (r, .error (.roundFailed reason)) := by
  unfold merge
  rw [h]

/-- A merge takes the contributions of the PSBT as one row. -/
theorem merge_fst {r : Round} (h : r.failure = none) (p : Psbt) :
    (r.merge p).1 = (r.takeAll (r.contributed p)).1 := by
  unfold merge contributed
  rw [h]
  by_cases hp : p.unsigned = r.psbt.unsigned
  · simp only [hp, ne_eq, not_true_eq_false, if_false, if_true]
    cases p.inputs with
    | nil => rfl
    | cons i rest =>
      simp only [List.head?_cons, Option.map_some, Option.getD_some]
      split <;> (next h' => rw [h'])
  · simp [hp, takeAll]

theorem merge_extends (r : Round) (p : Psbt) : Extends r (r.merge p).1 := by
  cases hf : r.failure with
  | some reason =>
    rw [merge_of_failed hf]
    exact .refl r
  | none =>
    rw [merge_fst hf]
    exact takeAll_extends r _

/-- A merge that answers with a state answers with that of the round that it leaves, which has not
failed. -/
theorem state_of_merge_ok {r : Round} {p : Psbt} {state : RoundState}
    (h : (r.merge p).2 = .ok state) : state = (r.merge p).1.state ∧ (r.merge p).1.failure = none := by
  unfold merge at h ⊢
  cases hf : r.failure with
  | some reason =>
    simp only [hf] at h
    cases h
  | none =>
    simp only [hf] at h ⊢
    split at h
    · cases h
    · next hp =>
      simp only [if_neg hp]
      cases hi : p.inputs with
      | nil =>
        simp only [hi] at h
        cases h
      | cons i rest =>
        simp only [hi] at h ⊢
        have hfail := takeAll_failure hf (contributions r.quorum i)
        split at h
        · next r' htake =>
          cases h
          rw [htake] at hfail
          exact ⟨rfl, hfail.2 rfl⟩
        · cases h

/-! ## Starting a round -/

theorem signature?_unsigned (q : Quorum) (p : Psbt) (hashes : Sighashes) (slot : Slot) :
    (unsigned q p hashes).signature? slot = none := by
  cases slot with
  | keyPath => rfl
  | script n =>
    by_cases hn : n < q.signers.length <;> simp [signature?, unsigned, hn]

/-- A round without signatures is in step with a PSBT without signatures. -/
theorem unsigned_inStep {q : Quorum} {p : Psbt} {hashes : Sighashes} (h : p.inputs ≠ []) :
    (unsigned q (withoutSignatures p) hashes).InStep := by
  cases hi : p.inputs with
  | nil => exact absurd hi h
  | cons i rest =>
    refine ⟨{ i with tapKeySignature := none, tapScriptSignatures := ∅ }, rest,
      by simp [unsigned, withoutSignatures, hi], rfl, fun e s => ?_⟩
    constructor
    · intro hs
      cases hs
    · rintro ⟨_, n, _, hs⟩
      rw [signature?_unsigned] at hs
      cases hs

/-- What a started round is: its PSBT is the prepared one, its messages are those of that PSBT, and
its slots hold exactly the signatures that the PSBT it was started with carries, all of them
good. -/
structure Started (q : Quorum) (p : Psbt) (i : Psbt.Input) (r : Round) : Prop where
  inputs : p.inputs = [i]
  quorum : r.quorum = q
  hashes : q.sighashes r.psbt = .ok r.hashes
  transaction : r.psbt.unsigned = p.unsigned
  prepared : ∃ base, q.update p = .ok base ∧ withoutSignatures r.psbt = withoutSignatures base
  active : r.failure = none
  inStep : r.InStep
  faultless : ¬ Faulty q r.hashes i
  signatures : ∀ slot s, r.signature? slot = some s ↔ Brings q i slot s

theorem Started.sound {q : Quorum} {p : Psbt} {i : Psbt.Input} {r : Round} (h : Started q p i r)
    (slot : Slot) (s : TapSignature) (hs : r.signature? slot = some s) :
    Good r.quorum r.hashes slot s := by
  rw [h.quorum]
  exact not_not.1 fun hbad => h.faultless (.inr (.inr ⟨slot, s, (h.signatures slot s).1 hs, hbad⟩))

/-- A round starts by merging a PSBT into the round without signatures that it prepares. -/
theorem start_eq_ok {q : Quorum} {p : Psbt} {r : Round} (h : start q p = .ok r) :
    ∃ base hashes state, q.update p = .ok base ∧ q.sighashes base = .ok hashes ∧
      (unsigned q (withoutSignatures base) hashes).merge p = (r, .ok state) := by
  unfold start at h
  obtain ⟨base, hbase, h⟩ := bind_eq_ok_iff.1 h
  obtain ⟨hashes, hhashes, h⟩ := bind_eq_ok_iff.1 h
  split at h
  · next r' state hmerge =>
    cases h
    exact ⟨base, hashes, state, hbase, hhashes, hmerge⟩
  · cases h

theorem started_of_start {q : Quorum} {p : Psbt} {r : Round} (h : start q p = .ok r) :
    ∃ i, Started q p i r := by
  obtain ⟨base, hashes, state, hbase, hhashes, hmerge⟩ := start_eq_ok h
  obtain ⟨i, spent, honly, _, _, _, hfilled⟩ := Quorum.update_eq_ok_iff.1 hbase
  obtain ⟨hi, _⟩ := Psbt.onlyInput_eq_ok_iff.1 honly
  have hfree : ∀ slot, (unsigned q (withoutSignatures base) hashes).signature? slot = none :=
    signature?_unsigned q _ _
  have hrow : (unsigned q (withoutSignatures base) hashes).contributed p = contributions q i := by
    have hp : p.unsigned = (unsigned q (withoutSignatures base) hashes).psbt.unsigned := by
      rw [hfilled]
      rfl
    rw [contributed, if_pos hp, hi]
    rfl
  have hblank : (unsigned q (withoutSignatures base) hashes).InStep :=
    unsigned_inStep (by simp [hfilled])
  have hrest : withoutSignatures (unsigned q (withoutSignatures base) hashes).psbt =
      withoutSignatures base := by
    simp [unsigned, withoutSignatures, Function.comp_def]
  have hq : (unsigned q (withoutSignatures base) hashes).quorum = q := rfl
  have hh : (unsigned q (withoutSignatures base) hashes).hashes = hashes := rfl
  have hactive : (unsigned q (withoutSignatures base) hashes).failure = none := rfl
  have hunsigned : (unsigned q (withoutSignatures base) hashes).psbt.unsigned = p.unsigned := by
    rw [hfilled]
    rfl
  -- only these facts about the round without signatures matter from here on
  generalize unsigned q (withoutSignatures base) hashes = blank at *
  have hext : Extends blank r := by
    have := merge_extends blank p
    rwa [hmerge] at this
  have hr : r = (blank.takeAll (contributions q i)).1 := by
    rw [← hrow, ← merge_fst hactive, hmerge]
  have hnone : r.failure = none := by
    have := (state_of_merge_ok (r := blank) (p := p) (by rw [hmerge])).2
    rwa [hmerge] at this
  have htaken : (blank.takeAll (contributions q i)).2 = .ok () := by
    rw [← takeAll_failure hactive, ← hr]
    exact hnone
  refine ⟨i, hi, hext.quorum.trans hq, ?_, hext.unsigned.trans hunsigned,
    ⟨base, hbase, hext.rest.trans hrest⟩, hnone, hext.inStep hblank, ?_, ?_⟩
  · rw [hext.hashes, hh]
    exact Quorum.sighashes_congr (hext.rest.trans hrest) hhashes
  · rw [hext.hashes, ← forall_contributions_iff]
    have hsound : ∀ slot s, blank.signature? slot = some s →
        Good blank.quorum blank.hashes slot s := by simp [hfree]
    have hok := ((takeAll_ok_iff hsound).1 htaken).1
    rwa [hq] at hok
  · intro slot s
    rw [hr, signature?_takeAll htaken, Holds, hfree, ok_mem_contributions_iff]
    simp

/-! ## A round of the sample quorum -/

/-- An unsigned PSBT that spends an output of the sample quorum. -/
def samplePsbt : Psbt :=
  { Psbt.ofTransaction ⟨0, [⟨.null, [], 0, []⟩], [], 0⟩ with
    inputs := [{ Psbt.Input.blank with spentOutput := some ⟨0, Quorum.sample.challenge⟩ }] }

/-- The sample PSBT with the signature of the first signer. -/
def signedSamplePsbt : Psbt :=
  { samplePsbt with
    inputs := samplePsbt.inputs.map fun i =>
      { i with
        tapScriptSignatures := (∅ : SortedMap LeafSigner TapSignature).insert
          ⟨.ofNat 0xc6047f9441ed7d6d3045406e95c07cd85c778e4b8cef3ca7abac09b95c709ee5,
            Quorum.sample.leafHash⟩
          ⟨⟨Bytes.be 32 0x32ed0bb4be7a5dc1ee5082ad97861dc5fb95ae6c4d62e87595c4d8e461ef50be ++
            Bytes.be 32 0x4d0faeaa004c9a3250fc745dbf34ab0d2ccac66437d60cd4ce2a4b3aebb27de9,
            by simp⟩, .all⟩ } }

theorem start_samplePsbt : ∃ r, start .sample samplePsbt = .ok r := by
  have h : (start .sample samplePsbt).toOption.isSome = true := by decide +kernel
  cases hr : start .sample samplePsbt with
  | error why =>
    rw [hr] at h
    cases h
  | ok r => exact ⟨r, rfl⟩

end Round

end SignetFederation
