import SignetFederation.Proofs.Signing.Sessions
import SignetFederation.Service.Node

/-!
# Handling one delivery

A delivery is answered with an error unless its PSBT signs its block, the session of its nonce takes
the PSBT and, if the signer is asked, the signer's signature fits. A service thereby keeps sound
sessions (`sound_process`), and what it sends out comes from an active session of the delivery's
nonce (`exists_round_of_process`). In turn, `process_unsigned` and `process_signed` say what a
delivery leads to when nothing is wrong with it.
-/

namespace SignetFederation

/-- A PSBT is what its bytes read back as. -/
def Psbt.ReadsBack (p : Psbt) : Prop := Psbt.decode? p.encode = some p

instance (p : Psbt) : Decidable p.ReadsBack := inferInstanceAs (Decidable (_ = _))

theorem SignetPsbtMessage.readPsbt_of_readsBack {m : SignetPsbtMessage} {p : Psbt}
    (hm : m.psbt = p.encode) (hp : p.ReadsBack) : m.readPsbt = .ok p := by
  unfold readPsbt
  rw [hm, show Psbt.decode? p.encode = some p from hp]

namespace Service

theorem committedPsbt_eq_ok_iff {q : Quorum} {m : SignetPsbtMessage} {p : Psbt} :
    committedPsbt q m = .ok p ↔ m.readPsbt = .ok p ∧
      ∃ b, m.readBlock = .ok b ∧ b.toSign q.challenge = .ok p.unsigned := by
  simp only [committedPsbt, Block.signetPsbt, throw_bind, bind_eq_ok_iff, mapError_eq_ok_iff, pure_eq_ok_iff,
    ite_error_eq_ok_iff, ne_eq, not_not]
  constructor
  · rintro ⟨p', hp', b, hb, expected, ⟨spend, hspend, t, ht, rfl⟩, hunsigned, rfl⟩
    refine ⟨hp', b, hb, ?_⟩
    rw [hunsigned]
    exact ht
  · rintro ⟨hp, b, hb, ht⟩
    obtain ⟨spend, hspend, _⟩ := bind_eq_ok_iff.1 ht
    exact ⟨p, hp, b, hb, _, ⟨spend, hspend, _, ht, rfl⟩, rfl, rfl⟩

/-- A PSBT and a block that read back from a message, and belong together. -/
theorem committedPsbt_of_encoded {q : Quorum} {m : SignetPsbtMessage} {p : Psbt} {b : Block}
    (hpsbt : m.psbt = p.encode) (hblock : m.blockTemplate = b.encode)
    (hp : p.ReadsBack) (hb : Block.ofBytes? b.encode = .ok b)
    (ht : b.toSign q.challenge = .ok p.unsigned) : committedPsbt q m = .ok p := by
  refine committedPsbt_eq_ok_iff.2 ⟨SignetPsbtMessage.readPsbt_of_readsBack hpsbt hp, b, ?_, ht⟩
  unfold SignetPsbtMessage.readBlock
  rw [hblock, hb]

/-! ## One delivery -/

theorem signRound_extends (q : Quorum) (l : LocalSigner) (nonce : UInt64) (r : Round) :
    Round.Extends r (signRound q l nonce r).1 := by
  have hext : Round.Extends r (r.apply l.toPsbtSigner).1 :=
    Round.call_extends r (.apply l.toPsbtSigner)
  have hfst : (signRound q l nonce r).1 = (r.apply l.toPsbtSigner).1 := by
    unfold signRound
    split <;> (next h => rw [h])
  rw [hfst]
  exact hext

/-- A signature that fits is put into the signer's slot; the answer names all who signed. -/
theorem signRound_of_good (q : Quorum) (nonce : UInt64) {l : LocalSigner} {r : Round}
    (hr : r.Consistent) (hq : l.quorum = r.quorum) (hactive : r.failure = none) {s : TapSignature}
    (hs : l.Signs r.hashes s) (hgood : Round.Good r.quorum r.hashes l.slot s)
    (hfree : ∀ s', r.signature? l.slot = some s' → s' = s) :
    ∃ r', signRound q l nonce r =
        (r', .ok (r'.psbt, r'.signedSlots.filterMap (q.shortIdOf nonce))) ∧
      Round.Extends r r' ∧ r'.failure = none ∧
      ∀ slot s', r'.signature? slot = some s' ↔
        r.signature? slot = some s' ∨ (slot = l.slot ∧ s' = s) := by
  obtain ⟨state, hok⟩ := (hr.apply_ok_iff hq).2 ⟨hactive, s, hs, hgood, hfree⟩
  have hext : Round.Extends r (r.apply l.toPsbtSigner).1 :=
    Round.call_extends r (.apply l.toPsbtSigner)
  have hafter := (Round.state_of_call_ok (c := .apply l.toPsbtSigner) hok).2
  refine ⟨(r.apply l.toPsbtSigner).1, ?_, hext, hafter, hr.signature?_apply hq hok hs⟩
  unfold signRound
  split
  · next heq =>
    rw [heq] at hok
    cases hok
  · next heq => rw [heq]

/-- A round that was signed holds the signer's signature; the answer names all who signed. -/
theorem signRound_eq_ok {q : Quorum} {l : LocalSigner} {nonce : UInt64} {r : Round}
    (hr : r.Consistent) (hq : l.quorum = r.quorum) {p : Psbt} {ids : List UInt64}
    (h : (signRound q l nonce r).2 = .ok (p, ids)) :
    (signRound q l nonce r).1.failure = none ∧ p = (signRound q l nonce r).1.psbt ∧
      ids = (signRound q l nonce r).1.signedSlots.filterMap (q.shortIdOf nonce) ∧
      ∃ s, l.Signs r.hashes s ∧ (signRound q l nonce r).1.signature? l.slot = some s := by
  cases happly : r.apply l.toPsbtSigner with
  | mk r' answer =>
    cases answer with
    | error why =>
      unfold signRound at h
      rw [happly] at h
      cases h
    | ok state =>
      have hsign : signRound q l nonce r =
          (r', .ok (r'.psbt, r'.signedSlots.filterMap (q.shortIdOf nonce))) := by
        unfold signRound
        rw [happly]
      have hok : (r.apply l.toPsbtSigner).2 = .ok state := by rw [happly]
      have hactive := (Round.state_of_call_ok (c := .apply l.toPsbtSigner) hok).2
      obtain ⟨_, s, hs, _⟩ := (hr.apply_ok_iff hq).1 ⟨state, hok⟩
      have hheld := (hr.signature?_apply hq hok hs l.slot s).2 (.inr ⟨rfl, rfl⟩)
      change (r.apply l.toPsbtSigner).1.failure = none at hactive
      rw [happly] at hactive hheld
      rw [hsign] at h ⊢
      cases h
      exact ⟨hactive, rfl, rfl, s, hs, hheld⟩

variable {q : Quorum} {sessions : Sessions}

/-- A delivery leaves sound sessions. -/
theorem sound_process (h : sessions.Sound q) (signer : Option LocalSigner) (d : Delivery) :
    (process sessions signer d).1.Sound q := by
  unfold process
  simp only
  split
  · exact h
  · next p hp =>
    have hstarted := h.start d.message.nonce p
    split
    · next why heq =>
      rw [heq] at hstarted
      exact hstarted
    · next started state heq =>
      rw [heq] at hstarted
      split
      · next l _ =>
        have hsigned := hstarted.withRound d.message.nonce
          (signRound_extends started.quorum l d.message.nonce)
        split <;>
          (next heq' =>
            rw [heq'] at hsigned
            exact hsigned)
      · exact hstarted

/-- A delivery that nobody signs is only merged into its session. -/
theorem process_unsigned {signer : Option LocalSigner} {d : Delivery} {p : Psbt}
    {started : Sessions} {state : RoundState} (hp : committedPsbt sessions.quorum d.message = .ok p)
    (hstart : sessions.start d.message.nonce p = (started, .ok state))
    (hno : ∀ l, signer = some l → d.sign = false) :
    process sessions signer d = (started, .ok none) := by
  unfold process
  simp only [hp, hstart]
  cases signer with
  | none => rfl
  | some l => rw [hno l rfl]

/-- A delivery that is signed leaves the signed round and is answered with its PSBT. -/
theorem process_signed {l : LocalSigner} {d : Delivery} {p : Psbt} {started : Sessions}
    {state : RoundState} {r r' : Round} {ids : List UInt64}
    (hp : committedPsbt sessions.quorum d.message = .ok p)
    (hstart : sessions.start d.message.nonce p = (started, .ok state)) (hsign : d.sign = true)
    (hr : started.get? d.message.nonce = some r)
    (hsigned : signRound started.quorum l d.message.nonce r = (r', .ok (r'.psbt, ids))) :
    process sessions (some l) d = (started.withSession d.message.nonce r',
      .ok (some (d.message.resigned r'.psbt ids))) := by
  unfold process
  simp only [hp, hstart, hsign, Sessions.withRound_of_some hr, hsigned]

/-- Where a message that is sent out comes from: an active session of the delivery's nonce, for the
transaction that the delivery's PSBT and its block agree on, which holds the signer's own signature
over the session's messages. -/
theorem exists_round_of_process (h : sessions.Sound q) {signer : Option LocalSigner}
    (hsigner : ∀ l, signer = some l → l.quorum = q) {d : Delivery} {m : SignetPsbtMessage}
    {after : Sessions} (hm : process sessions signer d = (after, .ok (some m))) :
    ∃ p l r s, committedPsbt q d.message = .ok p ∧ signer = some l ∧ d.sign = true ∧
      after.get? d.message.nonce = some r ∧ r.quorum = q ∧ r.Consistent ∧ r.failure = none ∧
      r.psbt.unsigned = p.unsigned ∧ l.Signs r.hashes s ∧ r.signature? l.slot = some s ∧
      m = d.message.resigned r.psbt (r.signedSlots.filterMap (q.shortIdOf d.message.nonce)) := by
  unfold process at hm
  simp only [h.quorum] at hm
  split at hm
  · cases hm
  · next p hp =>
    have hsound := h.start d.message.nonce p
    split at hm
    · cases hm
    · next started state heq =>
      have hok : (sessions.start d.message.nonce p).2 = .ok state := by rw [heq]
      obtain ⟨r, hr, _, hunsigned⟩ := h.exists_round_of_start d.message.nonce hok
      rw [heq] at hsound hr
      split at hm
      · next l hsign =>
        obtain ⟨hq, hcons⟩ := hsound.rounds _ r hr
        have hl := hsigner l rfl
        have hquorum : started.quorum = q := hsound.quorum
        rw [Sessions.withRound_of_some hr, hquorum] at hm
        cases hsigned : (signRound q l d.message.nonce r).2 with
        | error why =>
          rw [hsigned] at hm
          cases hm
        | ok answer =>
          obtain ⟨psbt, ids⟩ := answer
          have hext := signRound_extends q l d.message.nonce r
          obtain ⟨hactive, rfl, rfl, s, hs, hheld⟩ :=
            signRound_eq_ok hcons (hl.trans hq.symm) hsigned
          rw [hsigned] at hm
          cases hm
          refine ⟨p, l, _, s, hp, rfl, hsign, Sessions.get?_withSession_self,
            hext.quorum.trans hq, hcons.extends hext, hactive, hext.unsigned.trans hunsigned,
            ?_, hheld, rfl⟩
          rw [hext.hashes]
          exact hs
      · cases hm

end Service

end SignetFederation
