import SignetFederation.Proofs.Signet.Embedding
import SignetFederation.Proofs.Service.Processing
import SignetFederation.Proofs.Signing.Honesty

/-!
# What a service signs

A message that a service sends out comes from a session whose transaction is that of the message's
block, but the session spends the output that the PSBT that started it names. The script of this
output has to be the challenge; nobody looks at its amount, which the messages of the signatures
cover. So what a service sends is good for the block if the amount is zero, as it is in the block's
own PSBT, and need not be otherwise: `emitted_for_other_amount` is a service that signs for an
output of another amount and sends a signature that the block's spend does not accept.

Main statement: `emitted_signatures`.
-/

namespace SignetFederation

/-! ## The messages of a block -/

/-- The messages that signatures for a block sign: those of the transaction that spends the virtual
output. -/
def Block.spendHashes (b : Block) (q : Quorum) : Except Error Sighashes := do
  let spent := (← b.toSpend q.challenge).outputs.take 1
  let t ← b.toSign q.challenge
  return ⟨Taproot.sighash t spent 0 none, Taproot.sighash t spent 0 (some q.leafHash)⟩

/-- The virtual output has no value and is locked by the challenge. -/
theorem Block.spendHashes_of_toSign {b : Block} {q : Quorum} {t : Transaction}
    (h : b.toSign q.challenge = .ok t) :
    b.spendHashes q = .ok ⟨Taproot.sighash t [⟨0, q.challenge⟩] 0 none,
      Taproot.sighash t [⟨0, q.challenge⟩] 0 (some q.leafHash)⟩ := by
  obtain ⟨spend, hspend, _⟩ := bind_eq_ok_iff.1 h
  obtain ⟨data, _, hdata⟩ := bind_eq_ok_iff.1 hspend
  have houtputs : spend.outputs.take 1 = [⟨0, q.challenge⟩] := by
    rw [pure_eq_ok_iff.1 hdata]
    rfl
  unfold Block.spendHashes
  rw [hspend, h]
  change Except.ok _ = _
  rw [houtputs]

namespace Service

/-! ## Runs -/

/-- What a service does with its sessions: it handles a delivery, or ends them all. -/
inductive SessionStep where
  | process (d : Delivery)
  | surrender

/-- The sessions after a step, whatever comes of a delivery. -/
def stepSessions (signer : Option LocalSigner) (sessions : Sessions) : SessionStep → Sessions
  | .process d => (process sessions signer d).1
  | .surrender => sessions.finishAll

/-- The sessions after some steps, from none. -/
def runSessions (q : Quorum) (signer : Option LocalSigner) (steps : List SessionStep) : Sessions :=
  steps.foldl (stepSessions signer) (.empty q)

theorem sound_runSessions (q : Quorum) (signer : Option LocalSigner) (steps : List SessionStep) :
    (runSessions q signer steps).Sound q := by
  unfold runSessions
  have hempty := Sessions.sound_empty q
  generalize Sessions.empty q = sessions at hempty ⊢
  induction steps generalizing sessions with
  | nil => exact hempty
  | cons step steps ih =>
    refine ih _ ?_
    cases step with
    | process d => exact sound_process hempty signer d
    | surrender => exact hempty.finishAll

/-- **Where the signatures that a service sends are good.** Let a service with a signer handle any
deliveries, and let a delivery after them be answered with a message. The message carries the
delivery's block and the PSBT of the delivery's session, which is for the transaction that spends
the block's virtual output; if that reads back from its bytes, it is what the message gives. All
signatures in it are good for the session's messages, and the signer's own is made over these. The
session's messages are those of the output that the PSBT says it spends. It is locked by the
challenge; if it has no value, the session's messages are those of the block's spend. -/
theorem emitted_signatures {q : Quorum} {l : LocalSigner} (hl : l.quorum = q)
    (steps : List SessionStep) {d : Delivery} {m : SignetPsbtMessage} {after : Sessions}
    (hm : process (runSessions q (some l) steps) (some l) d = (after, .ok (some m))) :
    m.blockTemplate = d.message.blockTemplate ∧
      ∃ (b : Block) (r : Round) (i : Psbt.Input) (spent : TxOut) (s : TapSignature),
        m.readBlock = .ok b ∧ after.get? d.message.nonce = some r ∧ m.psbt = r.psbt.encode ∧
        (r.psbt.ReadsBack → m.readPsbt = .ok r.psbt) ∧
        b.toSign q.challenge = .ok r.psbt.unsigned ∧
        r.psbt.inputs = [i] ∧ ¬ Round.Faulty q r.hashes i ∧
        l.Signs r.hashes s ∧ Round.Brings q i l.slot s ∧
        i.spentOutput = some spent ∧ spent.script = q.challenge ∧
        r.hashes = ⟨Taproot.sighash r.psbt.unsigned [spent] 0 none,
          Taproot.sighash r.psbt.unsigned [spent] 0 (some q.leafHash)⟩ ∧
        (spent.value = 0 → b.spendHashes q = .ok r.hashes) := by
  obtain ⟨p, _, r, s, hp, hsigner, _, hr, rfl, hcons, _, hunsigned, hs, hheld, rfl⟩ :=
    exists_round_of_process (sound_runSessions q (some l) steps) (fun _ h => by cases h; exact hl) hm
  cases hsigner
  obtain ⟨_, b, hb, ht⟩ := committedPsbt_eq_ok_iff.1 hp
  obtain ⟨i, spent, hi, hspent, hscript, honly, hclean⟩ := hcons.exists_input
  rw [← hunsigned] at ht
  have hhashes := hcons.messages
  rw [Quorum.sighashes_of_onlyInput honly] at hhashes
  refine ⟨rfl, b, r, i, spent, s, hb, hr, rfl, SignetPsbtMessage.readPsbt_of_readsBack rfl, ht, hi,
    hclean, hs, (hcons.inStep.brings_iff hi).2 hheld, hspent, hscript,
    (Except.ok.inj hhashes).symm, fun hzero => ?_⟩
  obtain ⟨value, script⟩ := spent
  simp only at hzero hscript
  subst hzero hscript
  rw [Block.spendHashes_of_toSign ht]
  exact hhashes

/-- A signature that fits fills the signer's slot, if that is free. -/
theorem signRound_of_free (q : Quorum) (nonce : UInt64) {l : LocalSigner} {r : Round}
    (hr : r.Consistent) (hq : l.quorum = r.quorum) (hactive : r.failure = none) {s : TapSignature}
    (hs : l.Signs r.hashes s) (hgood : Round.Good r.quorum r.hashes l.slot s)
    (hfree : r.signature? l.slot = none) :
    signRound q l nonce r = (r.fill s l.slot, .ok ((r.fill s l.slot).psbt,
      (r.fill s l.slot).signedSlots.filterMap (q.shortIdOf nonce))) := by
  obtain ⟨r', hsigned, hext, hactive', hslots⟩ := signRound_of_good q nonce hr hq hactive hs hgood
    fun s' hs' => by cases hfree.symm.trans hs'
  obtain ⟨key, hkey⟩ := hgood.keyFor
  -- what its slots hold says which round this is
  have hfilled : r' = r.fill s l.slot := by
    refine hext.eq_of_signature? hr.inStep (.fill hfree hgood) ?_ fun slot s' => ?_
    · rw [Round.fill_failure, hactive', hactive]
    · rw [hslots, Round.signature?_fill r s l.slot hkey]
      by_cases hslot : slot = l.slot
      · simp [hslot, hfree, eq_comm]
      · simp [hslot]
  rw [hsigned, hfilled]

/-- The first signer of the sample quorum. -/
def sampleSigner : LocalSigner where
  quorum := .sample
  slot := .script 0
  secret := ⟨2, by decide, by decide⟩
  occupies := by decide +kernel

/-- The transaction that spends the sample block's virtual output. -/
def sampleSpend : Transaction :=
  ⟨0, [⟨⟨⟨Bytes.be 32 0xcfaf93037ef35bec8bd9c6f24b94e2872e1ca45d7d72e76a73083f907d8940e0,
    by simp⟩, 0⟩, [], 0, []⟩], [⟨0, [Script.opReturn]⟩], 0⟩

/-- The PSBT of this transaction that claims some value for the output. -/
def sampleClaim (value : UInt64) : Psbt :=
  { Psbt.ofTransaction sampleSpend with
    inputs := [{ Psbt.Input.blank with spentOutput := some ⟨value, Quorum.sample.challenge⟩ }] }

/-- A delivery that asks to sign for the sample block in such a PSBT. -/
def sampleDelivery (value : UInt64) : Delivery := ⟨.make 7 (sampleClaim value) .sample [], true⟩

theorem toSign_sample : Block.sample.toSign Quorum.sample.challenge = .ok sampleSpend := by
  decide +kernel

/-- The first signer signs a claim, whatever its value, if its signature verifies. -/
theorem exists_emitted_sample (value : UInt64) (digest : Digest) (s : TapSignature)
    (hread : (sampleClaim value).ReadsBack)
    (hstart : (Round.start .sample (sampleClaim value)).toOption.map (fun r =>
      (r.hashes.script, r.signature? (.script 0), r.psbt.inputs.map Psbt.Input.spentOutput)) =
        some (digest, none, [some ⟨value, Quorum.sample.challenge⟩]))
    (hs : s = ⟨Schnorr.sign sampleSigner.secret digest, .all⟩)
    (hverify : Schnorr.verify sampleSigner.publicKey digest s.signature = true)
    (hreads : (Round.start .sample (sampleClaim value)).toOption.all (fun r =>
      decide (r.fill s (.script 0)).psbt.ReadsBack) = true) :
    ∃ after r i m, process (runSessions .sample (some sampleSigner) []) (some sampleSigner)
        (sampleDelivery value) = (after, .ok (some m)) ∧
      m.blockTemplate = Block.sample.encode ∧ after.get? 7 = some r ∧ m.psbt = r.psbt.encode ∧
      m.readPsbt = .ok r.psbt ∧ r.psbt.inputs = [i] ∧
      i.spentOutput = some ⟨value, Quorum.sample.challenge⟩ ∧
      Round.Brings .sample i (.script 0) s ∧ Round.Good .sample r.hashes (.script 0) s := by
  have hp : committedPsbt .sample (sampleDelivery value).message = .ok (sampleClaim value) :=
    committedPsbt_of_encoded (b := .sample) rfl rfl hread (by decide +kernel) toSign_sample
  cases hfirst : Round.start .sample (sampleClaim value) with
  | error why =>
    rw [hfirst] at hstart
    cases hstart
  | ok r =>
    rw [hfirst] at hstart hreads
    obtain ⟨hdigest, hrest⟩ := Prod.mk.inj (Option.some.inj hstart)
    obtain ⟨hfree, hspent⟩ := Prod.mk.inj hrest
    obtain ⟨_, hstarted⟩ := Round.started_of_start hfirst
    have hq : r.quorum = sampleSigner.quorum := hstarted.quorum
    have hcons := Round.consistent_of_start hfirst
    have hsigns : sampleSigner.Signs r.hashes s := ⟨_, rfl, by rw [hs, ← hdigest]; rfl⟩
    have hgood : Round.Good .sample r.hashes (.script 0) s := by
      refine ⟨by rw [hs], sampleSigner.publicKey, sampleSigner.occupies, ?_⟩
      rw [← hdigest] at hverify
      exact hverify
    have hgood' : Round.Good r.quorum r.hashes (.script 0) s := by rwa [hq]
    have hsigned := signRound_of_free .sample 7 hcons hq.symm hstarted.active hsigns hgood' hfree
    have hext : Round.Extends r (r.fill s sampleSigner.slot) := .fill hfree hgood'
    obtain ⟨key, hkey⟩ := hgood'.keyFor
    simp only [Except.toOption, Option.all_some, decide_eq_true_eq] at hreads
    obtain ⟨i, _, hi, _⟩ := (hcons.extends hext).exists_input
    have hbrings := ((hcons.extends hext).inStep.brings_iff hi).2
      ((Round.signature?_fill r s (.script 0) hkey _).trans (if_pos rfl))
    rw [hext.quorum, hstarted.quorum] at hbrings
    have hproc : process (.empty .sample) (some sampleSigner) (sampleDelivery value) = _ :=
      process_signed hp (Sessions.start_of_none rfl hfirst) rfl Sessions.get?_withSession_self hsigned
    have hkeeps : ∀ p : Psbt, (Round.withoutSignatures p).inputs.map Psbt.Input.spentOutput =
        p.inputs.map Psbt.Input.spentOutput := fun p => by
      cases hp : p.inputs <;> simp [Round.withoutSignatures, hp]
    rw [← hkeeps, ← hext.rest, hkeeps, hi] at hspent
    exact ⟨_, _, i, _, hproc, rfl, Sessions.get?_withSession_self, rfl,
      SignetPsbtMessage.readPsbt_of_readsBack rfl hreads, hi, (List.cons.inj hspent).1, hbrings,
      by rw [hext.hashes]; exact hgood⟩

/-- What the leaf signatures for the sample block sign. -/
def sampleDigest : Digest := ⟨Bytes.be 32
  0x49755c376add239099b979e90ff7a0087620e8845855027c586a78c0f1f0d94d, by simp⟩

/-- The first signer's signature for the sample block. -/
def sampleLeafSignature : TapSignature :=
  ⟨⟨Bytes.be 64 (0xcd12ee3688f2f2b99c12cad83e174663e2d6d7e28a2c2875a763078d35cabeb1 * 2 ^ 256 +
    0x1137030e157bbc3f2a64b062914973768d1fd1e7765f67c3489e788af3972cd4), by simp⟩, .all⟩

/-- The sample block comes in a PSBT with its own amount, and is signed. -/
theorem exists_emitted_block :
    ∃ after r i m, process (runSessions .sample (some sampleSigner) []) (some sampleSigner)
        (sampleDelivery 0) = (after, .ok (some m)) ∧
      m.blockTemplate = Block.sample.encode ∧ after.get? 7 = some r ∧ m.psbt = r.psbt.encode ∧
      m.readPsbt = .ok r.psbt ∧ r.psbt.inputs = [i] ∧
      i.spentOutput = some ⟨0, Quorum.sample.challenge⟩ ∧
      Round.Brings .sample i (.script 0) sampleLeafSignature ∧
      Round.Good .sample r.hashes (.script 0) sampleLeafSignature :=
  exists_emitted_sample 0 sampleDigest sampleLeafSignature (by decide +kernel) (by decide +kernel)
    (by decide +kernel) (by decide +kernel) (by decide +kernel)

/-- The sample block in a PSBT with its own amount: what is sent reads back and is good for its
spend. -/
theorem emitted_signatures_sample :
    ∃ after r i m, process (runSessions .sample (some sampleSigner) []) (some sampleSigner)
        (sampleDelivery 0) = (after, .ok (some m)) ∧
      after.get? 7 = some r ∧ m.psbt = r.psbt.encode ∧ m.readPsbt = .ok r.psbt ∧
      r.psbt.inputs = [i] ∧ ¬ Round.Faulty .sample r.hashes i ∧
      ∃ b, m.readBlock = .ok b ∧ b.spendHashes .sample = .ok r.hashes := by
  obtain ⟨after, r, i, m, hproc, _, hr, _, hread, hi, hout, _⟩ := exists_emitted_block
  obtain ⟨_, b, r', i', spent, _, hb, hr', hpsbt, _, _, hi', hclean, _, _, hspent, _, _, hzero⟩ :=
    emitted_signatures (q := .sample) (l := sampleSigner) rfl [] hproc
  cases hr.symm.trans hr'
  cases hi.symm.trans hi'
  cases hout.symm.trans hspent
  exact ⟨after, r, i, m, hproc, hr, hpsbt, hread, hi, hclean, b, hb, hzero rfl⟩

/-- **A service signs for outputs that are not the block's.** The sample block comes in a PSBT that
claims another amount, and the service sends a signature that is good for the claim and that the
spend of the block refuses. -/
theorem emitted_for_other_amount :
    ∃ (after : Sessions) (r : Round) (i : Psbt.Input) (m : SignetPsbtMessage) (s : TapSignature)
        (hashes : Sighashes), process (runSessions .sample (some sampleSigner) [])
        (some sampleSigner) (sampleDelivery 1) = (after, .ok (some m)) ∧
      m.blockTemplate = Block.sample.encode ∧ after.get? 7 = some r ∧ m.psbt = r.psbt.encode ∧
      m.readPsbt = .ok r.psbt ∧ r.psbt.inputs = [i] ∧ Round.Brings .sample i (.script 0) s ∧
      Round.Good .sample r.hashes (.script 0) s ∧
      Block.sample.spendHashes .sample = .ok hashes ∧ ¬ Round.Good .sample hashes (.script 0) s := by
  obtain ⟨after, r, i, m, hproc, hblock, hr, hpsbt, hread, hi, _, hbrings, hgood⟩ :=
    exists_emitted_sample 1
      ⟨Bytes.be 32 0x3c94bcf37599e42b8a773bf6cf15916ff2754e91d31fb3dfa227d40c753896e0, by simp⟩
      ⟨⟨Bytes.be 32 0x843b52205364a045d3f892e36e3832753b06cabbeffbdf714e0ee629d3d4d41e ++
        Bytes.be 32 0xe41c4f1730874548c1dca637612cde505f65f972307fed99f502e52f97670a61,
        by simp⟩, .all⟩
      (by decide +kernel) (by decide +kernel) (by decide +kernel) (by decide +kernel)
      (by decide +kernel)
  refine ⟨after, r, i, m, _, _, hproc, hblock, hr, hpsbt, hread, hi, hbrings, hgood,
    Block.spendHashes_of_toSign toSign_sample, ?_⟩
  rintro ⟨_, key, hkey, hverify⟩
  have hkey' : Quorum.sample.signers[0]? = some sampleSigner.publicKey := sampleSigner.occupies
  cases hkey'.symm.trans hkey
  have hdigest : Taproot.sighash sampleSpend [⟨0, Quorum.sample.challenge⟩] 0
      (some Quorum.sample.leafHash) = sampleDigest := by
    decide +kernel
  change Schnorr.verify sampleSigner.publicKey (Taproot.sighash _ _ _ _) _ = true at hverify
  rw [hdigest] at hverify
  revert hverify
  decide +kernel

end Service

end SignetFederation
