import SignetFederation.Command.Tasks
import SignetFederation.Proofs.Service.Gathering
import SignetFederation.Proofs.Signing.Workflows

/-!
# All ways to sign agree

Signers sign a PSBT one after another; or they fill their slots in a round for it, in any order; or
each of them signs a copy, and the tool combines the copies, in any order. None of this fails, and
all of it ends with one round (`workflows_agree`), which holds the signatures of these signers and
nothing else that the prepared PSBT did not hold (`Round.HoldsOnly`).
-/

namespace SignetFederation

/-! ## The tool's way -/

namespace Command.Signer

open Round (settle settle_eq_ok_iff gather)

/-- The tool merges the PSBTs that it reads. -/
theorem mergeAll_eq_ok {look : Lookup} {words : List String} {ps : List Psbt} {r r' : Round}
    (hread : words.mapM (readPsbt look) = .ok ps)
    (hmerge : ps.foldlM (fun r p => settle (r.merge p)) r = .ok r') :
    mergeAll look r words = .ok r' := by
  induction words generalizing ps r with
  | nil =>
    cases hread
    cases hmerge
    rfl
  | cons word words ih =>
    rw [List.mapM_cons] at hread
    obtain ⟨p, hp, hread⟩ := bind_eq_ok_iff.1 hread
    obtain ⟨rest, hrest, hread⟩ := bind_eq_ok_iff.1 hread
    cases hread
    obtain ⟨r₁, hr₁, hmerge⟩ := bind_eq_ok_iff.1 hmerge
    obtain ⟨state, hr₁⟩ := settle_eq_ok_iff.1 hr₁
    unfold mergeAll
    refine bind_eq_ok_iff.2 ⟨p, hp, ?_⟩
    rw [hr₁]
    exact ih hrest hmerge

/-- The tool gathers the PSBTs that it reads. -/
theorem combine_eq_ok {look : Lookup} {d : QuorumDescriptor} {words : List String}
    {ps : List Psbt} {r : Round} (hread : words.mapM (readPsbt look) = .ok ps)
    (hgather : gather d.quorum ps = .ok r) : combine look d words = .ok r.psbt := by
  cases words with
  | nil =>
    cases hread
    cases hgather
  | cons word words =>
    rw [List.mapM_cons] at hread
    obtain ⟨p, hp, hread⟩ := bind_eq_ok_iff.1 hread
    obtain ⟨rest, hrest, hread⟩ := bind_eq_ok_iff.1 hread
    cases hread
    obtain ⟨r₁, hstart, hmerge⟩ := bind_eq_ok_iff.1 hgather
    exact bind_eq_ok_iff.2 ⟨p, hp, bind_eq_ok_iff.2 ⟨r₁, mapError_eq_ok_iff.2 hstart,
      bind_eq_ok_iff.2 ⟨r, mergeAll_eq_ok hrest hmerge, rfl⟩⟩⟩

end Command.Signer

/-! ## All ways agree -/

/-- **All ways to sign agree.** A PSBT without signatures starts a round, and there are some signers
of the quorum, any of them maybe more than once, whose signatures over the round's messages verify.
Then all ways lead to one round, in any order: its PSBT is what the signers make who sign one after
another, it is what becomes of the first round when they fill their slots, and it is what a round or
the tool gathers from the copies that they sign apart from each other. It holds the signatures of
these signers and no others. -/
theorem workflows_agree {q : Quorum} {p : Psbt} {first : Round}
    (hstart : Round.start q p = .ok first)
    (hbare : ∀ i ∈ p.inputs, i.tapKeySignature = none ∧ i.tapScriptSignatures = ∅)
    {ls : List LocalSigner} (hne : ls ≠ []) (hquorum : ∀ l ∈ ls, l.quorum = q)
    (hverify : ∀ l ∈ ls, ∀ key, l.signingKey = .ok key →
      Schnorr.verify key.xOnly (first.hashes.forSlot l.slot)
        (Schnorr.sign key (first.hashes.forSlot l.slot)) = true) :
    ∃ r, Round.HoldsOnly first ls r ∧
      (∀ ls', ls'.Perm ls → signAll p ls' = .ok r.psbt ∧ first.applyAll ls' = .ok r) ∧
      ∃ ps, ls.mapM (fun l => l.sign p) = .ok ps ∧
        ∀ ps', ps'.Perm ps → Round.gather q ps' = .ok r ∧
          ∀ look d words, QuorumDescriptor.quorum d = q →
            words.mapM (Command.Signer.readPsbt look) = .ok ps' →
            Command.Signer.combine look d words = .ok r.psbt := by
  obtain ⟨panel, hsub, hpanel, hls⟩ := Round.exists_panel hstart hbare hquorum hverify
  obtain ⟨hupdate, _⟩ := Round.update_of_start_bare hstart hbare
  have hprepared := (Round.consistent_of_start hstart).prepared
  obtain ⟨_, hstarted⟩ := Round.started_of_start hstart
  obtain rfl := hstarted.quorum
  obtain ⟨r, _, _, hr, hsome⟩ := hpanel.exists_applyAll hls
  -- each way leads to an honest round, and the slots say that it is this one
  have hsame : ∀ r', Round.Honest first panel r' →
      (∀ slot, (r'.signature? slot).isSome = true ↔ ∃ l ∈ ls, l.slot = slot) → r' = r :=
    fun r' hr' hsome' => hr'.eq_of_slots hpanel hr fun slot =>
      Bool.eq_iff_iff.2 ((hsome' slot).trans (hsome slot).symm)
  refine ⟨r, hr.holdsOnly hpanel hsub hls hsome, fun ls' hperm => ?_, ?_⟩
  · have hls' : ∀ l ∈ ls', Round.Seated first panel l := fun l hl => hls l (hperm.mem_iff.1 hl)
    have hne' : ls' ≠ [] := fun h => hne (by rwa [h, List.nil_perm] at hperm)
    obtain ⟨r', happly, hall, hr', hsome'⟩ := hpanel.exists_applyAll hls'
    obtain rfl := hsame r' hr' fun slot => by simp only [hsome', hperm.mem_iff]
    refine ⟨?_, happly⟩
    rwa [signAll_of_update hupdate hprepared hne' fun l hl => (hls' l hl).quorum]
  · have hsign : ∀ l ∈ ls, l.sign p = l.sign first.psbt := fun l hl =>
      LocalSigner.sign_of_update (by rwa [hquorum l hl]) (by rwa [hquorum l hl])
    obtain ⟨ps, hps, hlength, hmem⟩ := exists_mapM_eq_ok (f := fun l => LocalSigner.sign l p)
      fun l hl => by
        obtain ⟨r', hcopy, _⟩ := hpanel.exists_copy (hls l hl)
        exact ⟨r'.psbt, (hsign l hl).trans hcopy⟩
    refine ⟨ps, hps, fun ps' hperm => ?_⟩
    have hne' : ps' ≠ [] := by
      rintro rfl
      exact hne (List.length_eq_zero_iff.1 (hlength.symm.trans hperm.length_eq.symm))
    have hmem' : ∀ p', p' ∈ ps' ↔ ∃ l ∈ ls, l.sign first.psbt = .ok p' := by
      intro p'
      rw [hperm.mem_iff, hmem]
      exact exists_congr fun l => and_congr_right fun hl => by rw [hsign l hl]
    obtain ⟨r', hgather, hr', hsome'⟩ := hpanel.exists_gather_copies hls hne' hmem'
    obtain rfl := hsame r' hr' hsome'
    exact ⟨hgather, fun look d words hd hread =>
      Command.Signer.combine_eq_ok hread (by rwa [hd])⟩

open Service (sampleSigner)

/-- For the PSBT of the sample block: the signer of the first leaf key, then that of the key path,
and the first one again. -/
theorem workflows_agree_sample : ∃ first r, Round.start .sample samplePetition = .ok first ∧
    Round.HoldsOnly first [sampleSigner, sampleKeyPath, sampleSigner] r ∧ r.state = .complete ∧
    signAll samplePetition [sampleSigner, sampleKeyPath, sampleSigner] = .ok r.psbt ∧
    first.applyAll [sampleSigner, sampleSigner, sampleKeyPath] = .ok r ∧
    ∃ ps, [sampleSigner, sampleKeyPath, sampleSigner].mapM (fun l => l.sign samplePetition) =
        .ok ps ∧
      Round.gather .sample ps.reverse = .ok r := by
  obtain ⟨first, hstart, _, hhashes, _⟩ := signatories_sample.panel
  have hpair : ∀ l ∈ [sampleSigner, sampleKeyPath, sampleSigner],
      l ∈ [sampleSigner, sampleKeyPath] := by
    intro l hl
    simpa [or_comm, or_left_comm] using hl
  obtain ⟨r, hholds, hrow, ps, hps, hgather⟩ := workflows_agree hstart
    (List.forall_mem_singleton.2 ⟨rfl, rfl⟩)
    (List.cons_ne_nil sampleSigner [sampleKeyPath, sampleSigner])
    (fun l hl => signatories_sample.members l (hpair l hl))
    (fun l hl => signatories_sample.verifies first.hashes hhashes l (hpair l hl))
  refine ⟨first, r, hstart, hholds, ?_, (hrow _ (.refl _)).1, (hrow _ ?_).2, ps, hps,
    (hgather _ ps.reverse_perm).1⟩
  · rw [hholds.state]
    exact if_pos (.inl (by simp [sampleKeyPath]))
  · exact .cons _ (.swap ..)

end SignetFederation
