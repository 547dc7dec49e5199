import Mathlib.Data.List.Perm.Subperm
import SignetFederation.Proofs.Signing.Merging

/-!
# Runs of a signing round

A round is worked on by merging partial PSBTs and by letting signers fill their slots, in any order
and with any outcome. Whatever the calls are, slots and PSBT stay in step, only good signatures are
held, nothing else in the PSBT changes, and no signature is lost (`run_invariant`). A round that
calls itself complete therefore holds what the output asks for.
-/

namespace SignetFederation.Round

/-- One call on a round. Nothing is known about the PSBT or about the signer. -/
inductive Call where
  | merge (p : Psbt)
  | apply (s : PsbtSigner)

/-- The round after a call, and the answer. -/
def call (r : Round) : Call → Round × Except Error RoundState
  | .merge p => r.merge p
  | .apply s => r.apply s

/-- The round after a row of calls, whatever each of them answers. -/
def run (r : Round) (calls : List Call) : Round := calls.foldl (fun r c => (r.call c).1) r

/-! ## One call -/

/-- A signer that answers with an error leaves the round alone, any other answer is merged. -/
theorem call_cases (r : Round) (c : Call) :
    (∃ p, r.call c = r.merge p) ∨ ∃ why, r.call c = (r, .error why) := by
  cases c with
  | merge p => exact .inl ⟨p, rfl⟩
  | apply s =>
    change (∃ p, r.apply s = r.merge p) ∨ ∃ why, r.apply s = (r, .error why)
    unfold apply
    cases r.failure with
    | some reason => exact .inr ⟨_, rfl⟩
    | none =>
      cases s.sign r.psbt with
      | error why => exact .inr ⟨why, rfl⟩
      | ok p => exact .inl ⟨p, rfl⟩

theorem call_extends (r : Round) (c : Call) : Extends r (r.call c).1 := by
  rcases call_cases r c with ⟨p, h⟩ | ⟨why, h⟩
  · rw [h]
    exact merge_extends r p
  · rw [h]
    exact .refl r

/-- A call that answers with a state answers with that of an active round. -/
theorem state_of_call_ok {r : Round} {c : Call} {state : RoundState}
    (h : (r.call c).2 = .ok state) : state = (r.call c).1.state ∧ (r.call c).1.failure = none := by
  rcases call_cases r c with ⟨p, hc⟩ | ⟨why, hc⟩
  · rw [hc] at h ⊢
    exact state_of_merge_ok h
  · rw [hc] at h
    cases h

theorem run_append (r : Round) (calls later : List Call) :
    r.run (calls ++ later) = (r.run calls).run later := List.foldl_append

theorem run_extends (r : Round) (calls : List Call) : Extends r (r.run calls) := by
  induction calls generalizing r with
  | nil => exact .refl r
  | cons c calls ih => exact (call_extends r c).trans (ih _)

/-! ## Keys that have signed -/

/-- The leaf keys whose slots are filled. -/
def heldKeys (r : Round) : List XOnlyKey :=
  ((r.quorum.signers.zip r.script).filter fun e => e.2.isSome).map Prod.fst

theorem length_heldKeys (r : Round) : r.heldKeys.length = r.scriptCount := by
  have hsnd : (r.quorum.signers.zip r.script).map Prod.snd = r.script :=
    List.map_snd_zip (Nat.le_of_eq r.length_script)
  unfold heldKeys scriptCount
  rw [List.length_map, ← List.countP_eq_length_filter]
  conv => rhs; rw [← hsnd]
  rw [List.countP_map]
  rfl

theorem nodup_heldKeys (r : Round) : r.heldKeys.Nodup := by
  have hfst : (r.quorum.signers.zip r.script).map Prod.fst = r.quorum.signers :=
    List.map_fst_zip (Nat.le_of_eq r.length_script.symm)
  have hsub : r.heldKeys.Sublist r.quorum.signers := by
    rw [← hfst]
    exact List.filter_sublist.map _
  exact hsub.nodup r.quorum.nodup

theorem mem_heldKeys_iff {r : Round} {key : XOnlyKey} :
    key ∈ r.heldKeys ↔
      ∃ n s, r.quorum.signers[n]? = some key ∧ r.signature? (.script n) = some s := by
  unfold heldKeys
  rw [List.mem_map]
  constructor
  · rintro ⟨⟨_, slot⟩, hmem, rfl⟩
    obtain ⟨hmem, hsome⟩ := List.mem_filter.1 hmem
    obtain ⟨n, hn⟩ := List.mem_iff_getElem?.1 hmem
    obtain ⟨hkey, hslot⟩ := List.getElem?_zip_eq_some.1 hn
    obtain ⟨s, rfl⟩ := Option.isSome_iff_exists.1 hsome
    exact ⟨n, s, hkey, by rw [signature?, hslot]; rfl⟩
  · rintro ⟨n, s, hkey, hs⟩
    have hslot : r.script[n]? = some (some s) := Option.join_eq_some_iff.1 hs
    have hn : (r.quorum.signers.zip r.script)[n]? = some (key, some s) :=
      List.getElem?_zip_eq_some.2 ⟨hkey, hslot⟩
    exact ⟨(key, some s), List.mem_filter.2 ⟨List.mem_of_getElem? hn, rfl⟩, rfl⟩

/-- Going on never lowers the number of filled slots. -/
theorem Extends.scriptCount_le {r r' : Round} (h : Extends r r') :
    r.scriptCount ≤ r'.scriptCount := by
  rw [← length_heldKeys, ← length_heldKeys]
  refine (r.nodup_heldKeys.subperm fun key hkey => ?_).length_le
  obtain ⟨n, s, hn, hs⟩ := mem_heldKeys_iff.1 hkey
  exact mem_heldKeys_iff.2 ⟨n, s, by rw [h.quorum]; exact hn, h.keeps _ s hs⟩

/-! ## States -/

theorem state_eq_complete_iff {r : Round} : r.state = .complete ↔
    r.failure = none ∧ (r.keyPath.isSome ∨ r.quorum.threshold ≤ r.scriptCount) := by
  unfold state isComplete
  cases r.failure with
  | some reason => simp
  | none =>
    simp only [Option.isNone_none, Bool.true_and, Bool.or_eq_true, decide_eq_true_eq, true_and]
    split <;> simp_all

theorem state_eq_collecting {r : Round} {n m : Nat} (h : r.state = .collecting n m) :
    n < m ∧ m = r.quorum.threshold := by
  unfold state isComplete at h
  cases hf : r.failure with
  | some reason =>
    rw [hf] at h
    cases h
  | none =>
    rw [hf] at h
    simp only [Option.isNone_none, Bool.true_and, Bool.or_eq_true, decide_eq_true_eq] at h
    split at h
    · cases h
    · next hno =>
      obtain ⟨hkey, hcount⟩ := not_or.1 hno
      cases h
      refine ⟨?_, rfl⟩
      simp only [signatureCount, Bool.eq_false_iff.2 hkey, Bool.toNat_false]
      omega

/-- A complete round stays complete as long as it does not fail. -/
theorem Extends.complete {r r' : Round} (h : Extends r r') (hactive : r'.failure = none)
    (hr : r.state = .complete) : r'.state = .complete := by
  refine state_eq_complete_iff.2 ⟨hactive, ?_⟩
  rcases (state_eq_complete_iff.1 hr).2 with hkey | hcount
  · obtain ⟨s, hs⟩ := Option.isSome_iff_exists.1 hkey
    have hs' : r'.keyPath = some s := h.keeps .keyPath s hs
    exact .inl (by rw [hs']; rfl)
  · right
    rw [h.quorum]
    exact Nat.le_trans hcount h.scriptCount_le

/-! ## The invariant -/

/-- What holds of a round in every later form of the one that was started. -/
structure Invariant (first r : Round) : Prop where
  quorum : r.quorum = first.quorum
  messages : r.quorum.sighashes r.psbt = .ok r.hashes
  slots : r.script.length = r.quorum.signers.length
  inStep : r.InStep
  good : ∀ slot s, r.signature? slot = some s → Good r.quorum r.hashes slot s
  rest : withoutSignatures r.psbt = withoutSignatures first.psbt

/-- What the output asks for: a good signature for the key path, or good ones by as many distinct
signers as the threshold says. -/
def Satisfied (r : Round) : Prop :=
  (∃ s, r.signature? .keyPath = some s ∧ Good r.quorum r.hashes .keyPath s) ∨
    ∃ keys : List XOnlyKey, keys.Nodup ∧ r.quorum.threshold ≤ keys.length ∧
      ∀ key ∈ keys, ∃ n s, r.quorum.signers[n]? = some key ∧
        r.signature? (.script n) = some s ∧ Good r.quorum r.hashes (.script n) s

theorem Started.invariant {q : Quorum} {p : Psbt} {i : Psbt.Input} {r : Round}
    (h : Started q p i r) : Invariant r r where
  quorum := rfl
  messages := by rw [h.quorum]; exact h.hashes
  slots := r.length_script
  inStep := h.inStep
  good := h.sound
  rest := rfl

/-- Every call preserves the invariant. -/
theorem Invariant.call {first r : Round} (h : Invariant first r) (c : Call) :
    Invariant first (r.call c).1 := by
  have hext := call_extends r c
  refine ⟨hext.quorum.trans h.quorum, ?_, (r.call c).1.length_script, hext.inStep h.inStep,
    hext.sound h.good, hext.rest.trans h.rest⟩
  rw [hext.quorum, hext.hashes]
  exact Quorum.sighashes_congr hext.rest h.messages

theorem Invariant.run {first r : Round} (h : Invariant first r) (calls : List Call) :
    Invariant first (r.run calls) := by
  induction calls generalizing r with
  | nil => exact h
  | cons c calls ih => exact ih (h.call c)

theorem Invariant.satisfied {first r : Round} (h : Invariant first r)
    (hcomplete : r.state = .complete) : r.Satisfied := by
  rcases (state_eq_complete_iff.1 hcomplete).2 with hkey | hcount
  · obtain ⟨s, hs⟩ := Option.isSome_iff_exists.1 hkey
    exact .inl ⟨s, hs, h.good .keyPath s hs⟩
  · refine .inr ⟨r.heldKeys, r.nodup_heldKeys, by rw [length_heldKeys]; exact hcount, ?_⟩
    intro key hkey
    obtain ⟨n, s, hn, hs⟩ := mem_heldKeys_iff.1 hkey
    exact ⟨n, s, hn, hs, h.good _ s hs⟩

/-- **A round over a whole run.** After any calls on a started round the invariant holds; a
signature that is held is held after all later calls; a call that answers with a state answers with
that of the round it leaves and does not undo completion; a complete round holds what the output
asks for, and one that still collects has fewer signatures than the threshold. -/
theorem run_invariant {q : Quorum} {p : Psbt} {first : Round} (hstart : start q p = .ok first)
    (calls : List Call) :
    first.quorum = q ∧ Invariant first (first.run calls) ∧
      (∀ later slot s, (first.run calls).signature? slot = some s →
        (first.run (calls ++ later)).signature? slot = some s) ∧
      (∀ c state, ((first.run calls).call c).2 = .ok state →
        state = ((first.run calls).call c).1.state ∧
          ((first.run calls).state = .complete → state = .complete)) ∧
      ((first.run calls).state = .complete → (first.run calls).Satisfied) ∧
      ∀ n m, (first.run calls).state = .collecting n m → n < m ∧ m = q.threshold := by
  obtain ⟨i, h⟩ := started_of_start hstart
  have hinv := h.invariant.run calls
  refine ⟨h.quorum, hinv, fun later slot s hs => ?_, fun c state hc => ?_, hinv.satisfied,
    fun n m hstate => ?_⟩
  · rw [run_append]
    exact (run_extends _ later).keeps slot s hs
  · obtain ⟨rfl, hactive⟩ := state_of_call_ok hc
    exact ⟨rfl, (call_extends _ c).complete hactive⟩
  · obtain ⟨hlt, hm⟩ := state_eq_collecting hstate
    rw [hinv.quorum, h.quorum] at hm
    exact ⟨hlt, hm⟩

/-- The sample round after a PSBT with one signature and a signer that refuses. -/
theorem run_invariant_sample :
    ∃ first, start .sample samplePsbt = .ok first ∧
      first.state = .collecting 0 1 ∧ (0 < 1 ∧ 1 = Quorum.sample.threshold) ∧
      (first.run [.merge signedSamplePsbt,
        .apply ⟨.script 1, fun _ => .error .untweakable⟩]).state = .complete ∧
      (first.run [.merge signedSamplePsbt,
        .apply ⟨.script 1, fun _ => .error .untweakable⟩]).Satisfied := by
  obtain ⟨first, hstart⟩ := start_samplePsbt
  have hrun : (start .sample samplePsbt).toOption.map (fun r => (r.state,
      (r.run [.merge signedSamplePsbt, .apply ⟨.script 1, fun _ => .error .untweakable⟩]).state)) =
      some (.collecting 0 1, .complete) := by
    decide +kernel
  rw [hstart] at hrun
  obtain ⟨hfirst, hlast⟩ := Prod.mk.inj (Option.some.inj hrun)
  obtain ⟨_, _, _, _, _, hcollecting⟩ := run_invariant hstart []
  obtain ⟨_, _, _, _, hsatisfied, _⟩ := run_invariant hstart
    [.merge signedSamplePsbt, .apply ⟨.script 1, fun _ => .error .untweakable⟩]
  exact ⟨first, hstart, hfirst, hcollecting 0 1 hfirst, hlast, hsatisfied hlast⟩

end SignetFederation.Round
