import SignetFederation.Proofs.Relay.Decisions
import SignetFederation.Proofs.Service.Gathering

/-!
# Messages that a service signs

Whatever a service is sent, a message that it signs and sends on is at one with itself (`Resigned`):
it names the block of the delivery and carries a PSBT for the transaction that spends the block's
virtual output, and its short ids are those of the slots that the PSBT has signatures for. So every
relay of the quorum knows its signers, and the service's own relay does not ask to sign it again.
As long as the sessions are not all ended, a session is never replaced (`Sessions.Continues`), so two
messages for one nonce are for one transaction, and the later one has all signatures of the earlier.

Main statement: `resigned_never_equivocates`.
-/

namespace SignetFederation

/-! ## Sessions that go on -/

namespace Sessions

variable {s s' : Sessions} {nonce : UInt64} {r : Round}

/-- All sessions are still there, with later forms of their rounds. -/
def Continues (s s' : Sessions) : Prop :=
  ∀ nonce r, s.get? nonce = some r → ∃ r', s'.get? nonce = some r' ∧ Round.Extends r r'

namespace Continues

theorem refl (s : Sessions) : s.Continues s := fun _ r hr => ⟨r, hr, .refl r⟩

theorem trans {s'' : Sessions} (h : s.Continues s') (h' : s'.Continues s'') : s.Continues s'' := by
  intro nonce r hr
  obtain ⟨r₁, hr₁, hext⟩ := h nonce r hr
  obtain ⟨r₂, hr₂, hext'⟩ := h' nonce r₁ hr₁
  exact ⟨r₂, hr₂, hext.trans hext'⟩

/-- A round is put in the place of one that it continues, or of none. -/
theorem withSession (h : ∀ r', s.get? nonce = some r' → Round.Extends r' r) :
    s.Continues (s.withSession nonce r) := by
  intro nonce' r' hr'
  rw [get?_withSession]
  split
  · next heq => exact ⟨r, rfl, h r' (heq ▸ hr')⟩
  · exact ⟨r', hr', .refl r'⟩

theorem start (s : Sessions) (nonce : UInt64) (p : Psbt) : s.Continues (s.start nonce p).1 := by
  rcases start_cases s nonce p with ⟨_, heq⟩ | ⟨r, hr, heq⟩ | ⟨r, hnone, _, heq⟩ <;> rw [heq]
  · exact refl s
  · refine withSession fun r' hr' => ?_
    rw [hr] at hr'
    cases hr'
    exact Round.merge_extends r p
  · refine withSession fun r' hr' => ?_
    rw [hnone] at hr'
    cases hr'

theorem withRound {α : Type} {step : Round → Round × α} (s : Sessions) (nonce : UInt64)
    (hstep : ∀ r, Round.Extends r (step r).1) : s.Continues (s.withRound nonce step).1 := by
  cases hr : s.get? nonce with
  | none =>
    unfold Sessions.withRound
    rw [hr]
    exact refl s
  | some r =>
    rw [withRound_of_some hr]
    refine withSession fun r' hr' => ?_
    rw [hr] at hr'
    cases hr'
    exact hstep r

end Continues

end Sessions

namespace Service

variable {q : Quorum} {l : LocalSigner} {d : Delivery} {m : SignetPsbtMessage} {r : Round}
  {i : Psbt.Input} {sessions : Sessions}

/-- A delivery merges a PSBT into a session and has the session's round signed, or leaves out the
second or both. -/
theorem continues_process (sessions : Sessions) (signer : Option LocalSigner) (d : Delivery) :
    sessions.Continues (process sessions signer d).1 := by
  unfold process
  simp only
  split
  · exact .refl sessions
  · next p _ =>
    have hstarted := Sessions.Continues.start sessions d.message.nonce p
    split
    · next heq =>
      rw [heq] at hstarted
      exact hstarted
    · next started state heq =>
      rw [heq] at hstarted
      split
      · next l _ =>
        have hsigned := hstarted.trans (.withRound started d.message.nonce
          (signRound_extends started.quorum l d.message.nonce))
        split <;>
          (next heq' =>
            rw [heq'] at hsigned
            exact hsigned)
      · exact hstarted

theorem runSessions_process (steps between : List SessionStep) (d : Delivery) :
    runSessions q (some l) (steps ++ .process d :: between) =
      between.foldl (stepSessions (some l))
        (process (runSessions q (some l) steps) (some l) d).1 := by
  unfold runSessions
  rw [List.foldl_append, List.foldl_cons]
  rfl

/-- Sessions go on as long as they are not all ended. -/
theorem continues_steps (signer : Option LocalSigner) {steps : List SessionStep}
    (h : .surrender ∉ steps) (sessions : Sessions) :
    sessions.Continues (steps.foldl (stepSessions signer) sessions) := by
  induction steps generalizing sessions with
  | nil => exact .refl sessions
  | cons step steps ih =>
    obtain ⟨hstep, hsteps⟩ := not_or.1 (List.mem_cons.not.1 h)
    cases step with
    | process d => exact (continues_process sessions signer d).trans (ih hsteps _)
    | surrender => exact absurd rfl hstep

/-! ## What a signed message says -/

/-- A message that carries a session's PSBT, and gives that PSBT if it reads back from its bytes: it
is for the block of the delivery, all of the PSBT's signatures are good ones of the quorum's slots,
and the short ids are those of the slots that have one, in key order. -/
structure Resigned (l : LocalSigner) (d : Delivery) (m : SignetPsbtMessage) (r : Round)
    (i : Psbt.Input) : Prop where
  nonce : m.nonce = d.message.nonce
  block : m.blockTemplate = d.message.blockTemplate
  psbt : m.psbt = r.psbt.encode
  reads : r.psbt.ReadsBack → m.readPsbt = .ok r.psbt
  commits : ∃ b, m.readBlock = .ok b ∧ b.toSign l.quorum.challenge = .ok r.psbt.unsigned
  inputs : r.psbt.inputs = [i]
  clean : ¬ Round.Faulty l.quorum r.hashes i
  signers : ∃ slots : List Slot, slots.Pairwise (fun a b => a.keyIndex < b.keyIndex) ∧
    (∀ slot, slot ∈ slots ↔ ∃ s, Round.Brings l.quorum i slot s) ∧ l.slot ∈ slots ∧
    m.signers.map some = slots.map (l.quorum.shortIdOf m.nonce)

/-- Slots with keys all have short ids. -/
theorem map_some_filterMap_shortIdOf {slots : List Slot} {nonce : UInt64}
    (h : ∀ slot ∈ slots, (q.keyFor slot).isSome = true) :
    (slots.filterMap (q.shortIdOf nonce)).map some = slots.map (q.shortIdOf nonce) := by
  rw [List.map_filterMap_some_eq_filter_map_isSome, List.filter_eq_self]
  intro id hid
  obtain ⟨slot, hslot, rfl⟩ := List.mem_map.1 hid
  exact (Option.isSome_map ..).trans (h slot hslot)

/-- What a signed message comes from, and that it says what that holds. -/
theorem resigned_of_process (hl : l.quorum = q) (h : sessions.Sound q) {after : Sessions}
    (hm : process sessions (some l) d = (after, .ok (some m))) :
    ∃ r i, after.get? d.message.nonce = some r ∧ r.quorum = q ∧ r.Consistent ∧
      Resigned l d m r i := by
  obtain ⟨p, _, r, s, hp, hsigner, _, hr, hq, hcons, _, hunsigned, _, hheld, rfl⟩ :=
    exists_round_of_process h (fun _ h => by cases h; exact hl) hm
  cases hsigner
  subst hl
  obtain ⟨_, b, hb, ht⟩ := committedPsbt_eq_ok_iff.1 hp
  obtain ⟨i, spent, hi, _, _, _, hclean⟩ := hcons.exists_input
  have hbrings : ∀ slot s, Round.Brings l.quorum i slot s ↔ r.signature? slot = some s := by
    intro slot s
    rw [← hq]
    exact hcons.inStep.brings_iff hi
  rw [hq] at hclean
  refine ⟨r, i, hr, hq, hcons, rfl, rfl, rfl, SignetPsbtMessage.readPsbt_of_readsBack rfl,
    ⟨b, hb, hunsigned ▸ ht⟩, hi, hclean, r.signedSlots, r.pairwise_signedSlots, fun slot => ?_,
    ?_, ?_⟩
  · rw [Round.mem_signedSlots_iff, Option.isSome_iff_exists]
    exact exists_congr fun s => (hbrings slot s).symm
  · rw [Round.mem_signedSlots_iff, hheld]
    rfl
  · refine map_some_filterMap_shortIdOf fun slot hslot => ?_
    obtain ⟨s, hs⟩ := Option.isSome_iff_exists.1 (Round.mem_signedSlots_iff.1 hslot)
    obtain ⟨key, hkey⟩ := (hcons.good slot s hs).keyFor
    rw [← hq, hkey]
    rfl

namespace Resigned

variable (h : Resigned l d m r i)

include h

/-- All short ids are of the quorum. -/
theorem not_strange : ¬ Strange (some l.quorum) m := by
  rintro ⟨_, ⟨⟩, id, hid, hstrange⟩
  obtain ⟨slots, _, _, _, hids⟩ := h.signers
  have hmem : some id ∈ slots.map (l.quorum.shortIdOf m.nonce) :=
    hids ▸ List.mem_map_of_mem hid
  obtain ⟨slot, _, hslot⟩ := List.mem_map.1 hmem
  obtain ⟨key, hkey, rfl⟩ := Option.map_eq_some_iff.1 hslot
  exact hstrange (List.mem_map_of_mem (Quorum.mem_keys_of_keyFor hkey))

/-- The service's own short id is among them. -/
theorem own_mem : shortId m.nonce l.publicKey ∈ m.signers := by
  obtain ⟨slots, _, _, hown, hids⟩ := h.signers
  have hmem : l.quorum.shortIdOf m.nonce l.slot ∈ m.signers.map some :=
    hids ▸ List.mem_map_of_mem hown
  have hid : l.quorum.shortIdOf m.nonce l.slot = some (shortId m.nonce l.publicKey) := by
    unfold Quorum.shortIdOf
    rw [l.occupies]
    rfl
  rw [hid] at hmem
  obtain ⟨id, hid, heq⟩ := List.mem_map.1 hmem
  cases heq
  exact hid

/-- No relay of the quorum finds an unknown signer in it. -/
theorem decision_ne_unknownSigner {e e' : RelayEngine} {c : RelayCall} {answer : RelayAnswer}
    (he : e.quorum = some l.quorum) (hm : c.act.message? e.magic = some m)
    (hcall : e.call c = .ok (e', answer)) :
    answer.decision? ≠ some (.drop .unknownSigner) := by
  obtain ⟨sender, peers, decision, hhandle, hanswer⟩ := RelayEngine.exists_handle_of_call hm hcall
  rw [hanswer]
  rcases RelayEngine.handle_cases hhandle with ⟨hstrange, _⟩ | ⟨_, rfl | rfl⟩
  · exact absurd (he ▸ hstrange) h.not_strange
  · nofun
  · nofun

/-- The signer's own relay does not ask to sign it. -/
theorem sign_eq_false {e e' : RelayEngine} {c : RelayCall} {answer : RelayAnswer}
    {forwardTo : List PeerId} {sign : Bool} (he : e.localKey = some l.publicKey)
    (hm : c.act.message? e.magic = some m) (hcall : e.call c = .ok (e', answer))
    (haccept : answer.decision? = some (.accept forwardTo sign)) : sign = false := by
  obtain ⟨sender, peers, decision, hhandle, hanswer⟩ := RelayEngine.exists_handle_of_call hm hcall
  cases hanswer.symm.trans haccept
  obtain ⟨_, ⟨⟩⟩ | ⟨_, hdrop | heq⟩ := RelayEngine.handle_cases hhandle
  · cases hdrop
  cases heq
  unfold RelayEngine.wantsSignature
  rw [he]
  simpa using h.own_mem

end Resigned

/-- **What a service signs is at one with itself, and with what it signed before.** Let a service
with a signer handle any deliveries and end its sessions any number of times, and let a delivery
after that be answered with a message. It carries the PSBT of the delivery's session, the delivery's
nonce and its block, whose spend the PSBT is for, and it names exactly those who signed
(`Resigned`). No relay of the quorum, whatever it has seen, drops it for an unknown signer, and the
signer's own relay never asks to sign it. If the sessions are not ended until a later delivery with
this nonce is answered, that message is for the same transaction and carries all signatures of the
first one. -/
theorem resigned_never_equivocates (hl : l.quorum = q) (steps : List SessionStep)
    {after : Sessions}
    (hm : process (runSessions q (some l) steps) (some l) d = (after, .ok (some m))) :
    ∃ r i, after.get? d.message.nonce = some r ∧ Resigned l d m r i ∧
      (∀ (e e' : RelayEngine) (c : RelayCall) (answer : RelayAnswer), e.quorum = some q →
        c.act.message? e.magic = some m → e.call c = .ok (e', answer) →
        answer.decision? ≠ some (.drop .unknownSigner)) ∧
      (∀ (e e' : RelayEngine) (c : RelayCall) (answer : RelayAnswer) (forwardTo : List PeerId)
        (sign : Bool), e.localKey = some l.publicKey → c.act.message? e.magic = some m →
        e.call c = .ok (e', answer) → answer.decision? = some (.accept forwardTo sign) →
        sign = false) ∧
      ∀ (between : List SessionStep) (d' : Delivery) (m' : SignetPsbtMessage) (after' : Sessions),
        .surrender ∉ between → d'.message.nonce = d.message.nonce →
        process (runSessions q (some l) (steps ++ .process d :: between)) (some l) d' =
          (after', .ok (some m')) →
        ∃ r' i', after'.get? d'.message.nonce = some r' ∧ Resigned l d' m' r' i' ∧
          r'.psbt.unsigned = r.psbt.unsigned ∧
          ∀ slot s, Round.Brings q i slot s → Round.Brings q i' slot s := by
  obtain ⟨r, i, hr, hq, hcons, hresigned⟩ :=
    resigned_of_process hl (sound_runSessions q (some l) steps) hm
  refine ⟨r, i, hr, hresigned, ?_, ?_, ?_⟩
  · intro e e' c answer he hc hcall
    exact hresigned.decision_ne_unknownSigner (hl ▸ he) hc hcall
  · intro e e' c answer forwardTo sign he hc hcall haccept
    exact hresigned.sign_eq_false he hc hcall haccept
  · intro between d' m' after' hbetween hnonce hm'
    obtain ⟨r', i', hr', hq', hcons', hresigned'⟩ :=
      resigned_of_process hl (sound_runSessions q (some l) (steps ++ .process d :: between)) hm'
    -- The session of the first message is still there, in a later form.
    have hrun : runSessions q (some l) (steps ++ .process d :: between) =
        between.foldl (stepSessions (some l)) after := by
      rw [runSessions_process, hm]
    have hcont := (continues_steps (some l) hbetween after).trans
      (continues_process _ (some l) d')
    rw [← hrun, hm'] at hcont
    obtain ⟨r₁, hr₁, hext⟩ := hcont _ r hr
    rw [hnonce] at hr'
    cases hr'.symm.trans hr₁
    refine ⟨r', i', hnonce ▸ hr', hresigned', hext.unsigned, fun slot s hs => ?_⟩
    have hheld : r.signature? slot = some s :=
      (hcons.inStep.brings_iff hresigned.inputs).1 (hq.symm ▸ hs)
    exact hq' ▸ (hcons'.inStep.brings_iff hresigned'.inputs).2 (hext.keeps slot s hheld)

/-- A signer signs a request, and after that what another signer has made of the same request: its
session first lacks the other's signature and then has it, and what it sends reads back. -/
theorem exists_process_twice {request : SignetPsbtMessage} {first : Round} {l l' : LocalSigner}
    (h : Campaign request first [l, l']) (hempty : sessions.Sound first.quorum)
    (hnone : sessions.get? request.nonce = none) :
    ∃ after r m d' after' r' m' s,
      process sessions (some l) ⟨request, true⟩ = (after, .ok (some m)) ∧
      after.get? request.nonce = some r ∧ r.psbt.ReadsBack ∧ r.signature? l'.slot = none ∧
      d'.message.nonce = request.nonce ∧ process after (some l) d' = (after', .ok (some m')) ∧
      after'.get? request.nonce = some r' ∧ r'.psbt.ReadsBack ∧ l'.Signs first.hashes s ∧
      r'.signature? l'.slot = some s := by
  -- the first delivery is a matter of the first signer alone
  have halone := h.sublist (List.singleton_sublist.2 (List.mem_cons_self (a := l)))
  have hmem' : l' ∈ [l, l'] := List.mem_cons_of_mem l (List.mem_singleton_self l')
  obtain ⟨after, r, _, hproc, hd⟩ := exists_process halone hempty
    (fun _ hr => by cases hnone.symm.trans hr)
    (fun l hl => List.mem_singleton.2 (Option.some.inj hl).symm) (d := ⟨request, true⟩) .request
  obtain ⟨m, rfl⟩ := hd.exists_answer rfl rfl
  have hlacks : r.signature? l'.slot = none := by
    refine Option.eq_none_iff_forall_ne_some.2 fun s hs => ?_
    obtain ⟨l₁, hl₁, hslot, _⟩ := hd.honest.made l'.slot s hs
    obtain rfl := List.mem_singleton.1 hl₁
    have hslots := h.slots
    simp [hslot] at hslots
  -- the second one brings what the other signer has made of the request
  obtain ⟨s, hs, hgood⟩ := h.able l' hmem'
  obtain ⟨hfilled, _⟩ := h.honest_first.fill h.toPanel hmem' (h.signature?_first _) hs
  have hheld : (first.fill s l'.slot).signature? l'.slot = some s :=
    (Round.signature?_fill first s l'.slot (h.keyFor_slot hmem') _).trans (if_pos rfl)
  obtain ⟨after', r', _, hproc', hd'⟩ := exists_process h hd.sound
    (fun r₁ hr₁ => Option.some.inj (hd.session.symm.trans hr₁) ▸ hd.honest.mono (by simp))
    (fun l₁ (hl₁ : some l = some l₁) => Option.some.inj hl₁ ▸ List.mem_cons_self)
    (d := ⟨_, true⟩) (.signed hfilled hheld)
  obtain ⟨m', rfl⟩ := hd'.exists_answer rfl rfl
  exact ⟨after, r, m, _, after', r', m', s, hproc, hd.session, halone.reads r hd.honest, hlacks, rfl,
    hproc', hd'.session, h.reads r' hd'.honest, hs, hd'.keeps _ _ (.inr hheld)⟩

/-- The sample block is asked for, and signed by the first signer of the sample quorum. Then comes
what the key path's signer has made of the request. The second message has both signatures. -/
theorem resigned_never_equivocates_sample :
    ∃ after after' r r' i i' m m' d' s,
      process (runSessions .sample (some sampleSigner) []) (some sampleSigner)
        ⟨sampleRequest, true⟩ = (after, .ok (some m)) ∧
      process (runSessions .sample (some sampleSigner) [.process ⟨sampleRequest, true⟩])
        (some sampleSigner) d' = (after', .ok (some m')) ∧
      Resigned sampleSigner ⟨sampleRequest, true⟩ m r i ∧ m.readPsbt = .ok r.psbt ∧
      Resigned sampleSigner d' m' r' i' ∧ m'.readPsbt = .ok r'.psbt ∧
      r'.psbt.unsigned = r.psbt.unsigned ∧
      (∀ slot s, Round.Brings .sample i slot s → Round.Brings .sample i' slot s) ∧
      (∀ s, ¬ Round.Brings .sample i .keyPath s) ∧ Round.Brings .sample i' .keyPath s := by
  obtain ⟨first, hquorum, _, hcampaign⟩ : ∃ first : Round, first.quorum = .sample ∧ _ ∧
    Campaign sampleRequest first [sampleSigner, sampleKeyPath] := petition_sample.campaign
  have hempty : (runSessions .sample (some sampleSigner) []).Sound first.quorum := by
    rw [hquorum]
    exact sound_runSessions .sample (some sampleSigner) []
  obtain ⟨after, r, m, d', after', r', m', s, hproc, hr, hreads, hlacks, hnonce, hproc', hr', hreads',
    _, hheld⟩ := exists_process_twice hcampaign hempty rfl
  have hafter := sound_process hempty (some sampleSigner) ⟨sampleRequest, true⟩
  rw [hproc] at hafter
  have hafter' := sound_process hafter (some sampleSigner) d'
  rw [hproc'] at hafter'
  have hrun : runSessions .sample (some sampleSigner) [.process ⟨sampleRequest, true⟩] = after := by
    have hstep := runSessions_process (q := .sample) (l := sampleSigner) [] [] ⟨sampleRequest, true⟩
    rw [List.nil_append, hproc] at hstep
    exact hstep
  rw [← hrun] at hproc'
  obtain ⟨_, i, hr₁, hresigned, _, _, hlater⟩ :=
    resigned_never_equivocates (q := .sample) (l := sampleSigner) rfl [] hproc
  obtain rfl := Option.some.inj (hr.symm.trans hr₁)
  obtain ⟨_, i', hr₁', hresigned', hsame, hgrows⟩ := hlater [] d' m' after' (by simp) hnonce hproc'
  rw [hnonce] at hr₁'
  obtain rfl := Option.some.inj (hr'.symm.trans hr₁')
  obtain ⟨hq, hcons⟩ := hafter.rounds _ r hr
  obtain ⟨hq', hcons'⟩ := hafter'.rounds _ r' hr'
  refine ⟨after, after', r, r', i, i', m, m', d', s, hproc, hproc', hresigned,
    hresigned.reads hreads, hresigned', hresigned'.reads hreads', hsame, hgrows, fun s' hs' => ?_, ?_⟩
  · rw [← hquorum, ← hq, hcons.inStep.brings_iff hresigned.inputs] at hs'
    cases hlacks.symm.trans hs'
  · rw [← hquorum, ← hq', hcons'.inStep.brings_iff hresigned'.inputs]
    exact hheld

end Service

end SignetFederation
