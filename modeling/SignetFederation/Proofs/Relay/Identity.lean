import SignetFederation.Proofs.Service.Exchange
import SignetFederation.Proofs.Service.Resigning

/-!
# Which messages are the same

What is hashed of a message is its nonce and, where they count, its short ids in ascending order and
each once. Such a row depends on nothing but which ids there are (`distinctIds_eq_iff`). It is hashed
without a count, but every number takes eight bytes, so no two rows give the same bytes
(`MessageKey.bytes_inj`). No function into 32 bytes tells all byte strings apart; what is asked of the
hash is that it tells apart the two that are compared.

Main statement: `dedupKey_identifies`.
-/

namespace SignetFederation

/-! ## Short ids as a set -/

theorem pairwise_eraseRepsBy_loop {a : UInt64} {as acc : List UInt64}
    (h : (a :: as).Pairwise (· ≤ ·)) (hacc : (a :: acc).Pairwise (· > ·)) :
    (List.eraseRepsBy.loop (· == ·) a as acc).Pairwise (· < ·) := by
  -- what was taken so far lies in `acc` in reverse, below the number that waits
  induction as generalizing a acc with
  | nil => exact List.pairwise_reverse.2 hacc
  | cons b as ih =>
    obtain ⟨hle, has⟩ := List.pairwise_cons.1 h
    unfold List.eraseRepsBy.loop
    split
    · exact ih (h.sublist (List.Sublist.cons_cons a (List.sublist_cons_self b as))) hacc
    · next hne =>
      have hlt : a < b := by
        refine UInt64.lt_of_le_of_ne (hle b List.mem_cons_self) fun heq => ?_
        rw [heq, beq_self_eq_true] at hne
        cases hne
      refine ih has (List.pairwise_cons.2 ⟨fun x hx => ?_, hacc⟩)
      rcases List.mem_cons.1 hx with rfl | hx
      · exact hlt
      · exact UInt64.lt_trans ((List.pairwise_cons.1 hacc).1 x hx) hlt

theorem pairwise_distinctIds (ids : List UInt64) : (distinctIds ids).Pairwise (· < ·) := by
  have hsorted : (ids.mergeSort fun a b => a ≤ b).Pairwise (· ≤ ·) := by
    refine (List.pairwise_mergeSort ?_ ?_ ids).imp fun h => of_decide_eq_true h
    · intro a b c hab hbc
      exact decide_eq_true (UInt64.le_trans (of_decide_eq_true hab) (of_decide_eq_true hbc))
    · intro a b
      rw [Bool.or_eq_true, decide_eq_true_iff, decide_eq_true_iff]
      exact UInt64.le_total a b
  unfold distinctIds List.eraseReps
  generalize ids.mergeSort (fun a b => a ≤ b) = sorted at hsorted ⊢
  cases sorted with
  | nil => exact .nil
  | cons a as => exact pairwise_eraseRepsBy_loop hsorted (List.pairwise_singleton _ a)

/-- There is one ascending row of some numbers, whatever the list that they come from. -/
theorem distinctIds_eq_of_pairwise {ids row : List UInt64} (hrow : row.Pairwise (· < ·))
    (h : ∀ id, id ∈ row ↔ id ∈ ids) : distinctIds ids = row := by
  have hnodup : ∀ {row : List UInt64}, row.Pairwise (· < ·) → row.Nodup :=
    fun hrow => hrow.imp UInt64.ne_of_lt
  have hperm : (distinctIds ids).Perm row :=
    (List.perm_ext_iff_of_nodup (hnodup (pairwise_distinctIds ids)) (hnodup hrow)).2 fun id => by
      rw [mem_distinctIds, h]
  exact hperm.eq_of_pairwise (fun a b _ _ hab hba => absurd (UInt64.lt_trans hab hba)
    (UInt64.lt_irrefl a)) (pairwise_distinctIds ids) hrow

/-- Two lists have the same row of distinct ids exactly if they hold the same ids. -/
theorem distinctIds_eq_iff {ids ids' : List UInt64} :
    distinctIds ids = distinctIds ids' ↔ ∀ id, id ∈ ids ↔ id ∈ ids' := by
  constructor
  · intro h id
    rw [← mem_distinctIds, h, mem_distinctIds]
  · intro h
    exact distinctIds_eq_of_pairwise (pairwise_distinctIds ids') fun id => by
      rw [mem_distinctIds, h]

theorem DedupKey.keyOf_eq_iff (rule : DedupKey) {m m' : SignetPsbtMessage} :
    rule.keyOf m = rule.keyOf m' ↔ m.nonce = m'.nonce ∧
      (rule = .nonceAndSigners → ∀ id, id ∈ m.signers ↔ id ∈ m'.signers) := by
  cases rule with
  | nonce => simp [keyOf]
  | nonceAndSigners => simp [keyOf, distinctIds_eq_iff]

/-! ## What is hashed -/

theorem le_toNat_inj {x y : UInt64} (h : Bytes.le 8 x.toNat = Bytes.le 8 y.toNat) : x = y := by
  have hread := congrArg Bytes.ofLE h
  rw [Bytes.ofLE_le 8 _ x.toNat_lt, Bytes.ofLE_le 8 _ y.toNat_lt] at hread
  exact UInt64.toNat_inj.1 hread

/-- Numbers of eight bytes each are read back one by one, so their bytes tell how many there are. -/
theorem flatMap_le_inj {ids ids' : List UInt64}
    (h : (ids.flatMap fun id => Bytes.le 8 id.toNat) = ids'.flatMap fun id => Bytes.le 8 id.toNat) :
    ids = ids' := by
  induction ids generalizing ids' with
  | nil =>
    cases ids' with
    | nil => rfl
    | cons id' ids' => simp [Bytes.le] at h
  | cons id ids ih =>
    cases ids' with
    | nil => simp [Bytes.le] at h
    | cons id' ids' =>
      simp only [List.flatMap_cons] at h
      obtain ⟨hfirst, hrest⟩ := List.append_inj h (by simp)
      rw [le_toNat_inj hfirst, ih hrest]

theorem MessageKey.bytes_inj {k k' : MessageKey} : k.bytes = k'.bytes ↔ k = k' := by
  refine ⟨fun h => ?_, congrArg bytes⟩
  obtain ⟨nonce, signers⟩ := k
  obtain ⟨nonce', signers'⟩ := k'
  obtain ⟨hnonce, hsigners⟩ := List.append_inj h (by simp)
  obtain rfl : nonce = nonce' := le_toNat_inj hnonce
  obtain rfl : signers = signers' := flatMap_le_inj hsigners
  rfl

/-! ## Keys as they are compared -/

namespace RelayEngine

variable {e : RelayEngine} {m m' : SignetPsbtMessage}

/-- Hashes are equal where the keys are that stand in the window for them. -/
theorem dedupKey_eq_iff_keyOf
    (hash : e.dedupKey m = e.dedupKey m' →
      (e.policy.dedup.keyOf m).bytes = (e.policy.dedup.keyOf m').bytes) :
    e.dedupKey m = e.dedupKey m' ↔ e.policy.dedup.keyOf m = e.policy.dedup.keyOf m' :=
  ⟨fun h => MessageKey.bytes_inj.1 (hash h), fun h => by rw [dedupKey, dedupKey, h]⟩

/-- **Which messages are the same.** Let the hash tell apart what is hashed of two messages, if that
differs. Then they have one key exactly if they have one nonce and, where the signers count, name
the same ones, in whatever order and however often; PSBTs and blocks do not matter. So where they
count, a message that names one more than the message it answers never has its key, and a service
that was not named never answers with a message of the same key. -/
theorem dedupKey_identifies (hash : e.dedupKey m = e.dedupKey m' →
      (e.policy.dedup.keyOf m).bytes = (e.policy.dedup.keyOf m').bytes) :
    (e.dedupKey m = e.dedupKey m' ↔ m.nonce = m'.nonce ∧
      (e.policy.dedup = .nonceAndSigners → ∀ id, id ∈ m.signers ↔ id ∈ m'.signers)) ∧
    (e.policy.dedup = .nonceAndSigners →
      (∀ (q : Quorum) (slot : Slot) (id : UInt64) (p : Psbt) (ids : List UInt64),
        q.shortIdOf m.nonce slot = some id → id ∉ m.signers → id ∈ ids →
        m' = m.resigned p ids → e.dedupKey m' ≠ e.dedupKey m) ∧
      ∀ (l : LocalSigner) (steps : List Service.SessionStep) (sign : Bool) (after : Sessions),
        Service.process (Service.runSessions l.quorum (some l) steps) (some l) ⟨m, sign⟩ =
          (after, .ok (some m')) →
        l.shortId m.nonce ∉ m.signers → e.dedupKey m' ≠ e.dedupKey m) := by
  have hsame := (dedupKey_eq_iff_keyOf hash).trans e.policy.dedup.keyOf_eq_iff
  have hnew : e.policy.dedup = .nonceAndSigners → ∀ id, id ∉ m.signers → id ∈ m'.signers →
      e.dedupKey m' ≠ e.dedupKey m :=
    fun hrule id hmissing hnamed heq => hmissing (((hsame.1 heq.symm).2 hrule id).2 hnamed)
  refine ⟨hsame, fun hrule => ⟨?_, fun l steps sign after hprocess hmissing => ?_⟩⟩
  · rintro q slot id p ids _ hmissing hid rfl
    exact hnew hrule id hmissing hid
  · obtain ⟨r, i, _, _, _, hresigned⟩ := Service.resigned_of_process rfl
      (Service.sound_runSessions l.quorum (some l) steps) hprocess
    have hown := hresigned.own_mem
    rw [hresigned.nonce] at hown
    exact hnew hrule _ hmissing hown

/-- An engine for which the signers of a message count. -/
def sampleCounting : RelayEngine :=
  .make { RelayPolicy.default with dedup := .nonceAndSigners }
    (signetMagic Quorum.sample.challenge) none none

/-- Where signers count, a message with two of them, its copy with them the other way round and
repeated, and what a third signer makes of it. -/
theorem dedupKey_identifies_sample :
    let m : SignetPsbtMessage := ⟨7, [1], [2], [5, 3]⟩
    let id := Service.sampleSigner.shortId 7
    sampleCounting.dedupKey m = sampleCounting.dedupKey ⟨7, [], [9, 9], [3, 5, 3]⟩ ∧
      sampleCounting.dedupKey (m.resigned Round.samplePsbt [3, 5, id]) ≠
        sampleCounting.dedupKey m := by
  intro m id
  have hids : distinctIds m.signers = [3, 5] :=
    distinctIds_eq_of_pairwise (by decide) (by grind)
  have hcopy : distinctIds [3, 5, 3] = [3, 5] :=
    distinctIds_eq_of_pairwise (by decide) (by grind)
  have hmore : distinctIds [3, 5, id] = [3, 5, id] :=
    distinctIds_eq_of_pairwise (by decide +kernel) fun _ => Iff.rfl
  have hdiffers : sampleCounting.dedupKey m ≠
      sampleCounting.dedupKey (m.resigned Round.samplePsbt [3, 5, id]) := by
    change blake3 (MessageKey.bytes ⟨7, distinctIds m.signers⟩) ≠
      blake3 (MessageKey.bytes ⟨7, distinctIds [3, 5, id]⟩)
    rw [hids, hmore]
    decide +kernel
  refine ⟨(dedupKey_identifies fun _ => ?_).1.2 ⟨rfl, fun _ id => ?_⟩, ?_⟩
  · change MessageKey.bytes ⟨7, distinctIds m.signers⟩ = MessageKey.bytes ⟨7, distinctIds [3, 5, 3]⟩
    rw [hids, hcopy]
  · change id ∈ [5, 3] ↔ id ∈ [3, 5, 3]
    grind
  · exact ((dedupKey_identifies fun heq => absurd heq hdiffers).2 rfl).1 .sample (.script 0) id
      Round.samplePsbt [3, 5, id] (by decide +kernel) (by decide +kernel) (by simp) rfl

end RelayEngine

end SignetFederation
