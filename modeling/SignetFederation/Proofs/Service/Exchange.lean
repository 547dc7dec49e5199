import Mathlib.Data.List.Sublists
import SignetFederation.Proofs.Relay.Framing
import SignetFederation.Proofs.Relay.Recording
import SignetFederation.Proofs.Service.Processing
import SignetFederation.Proofs.Signing.Honesty

/-!
# What honest signers send each other

A request without short ids asks for signatures on a block; every other message is what a signer
makes of its round once it has signed. As long as PSBTs and block read back, and no two signers share
a short id, such a message is known by the signatures that it carries: messages with the same key are
one (`eq_of_keyOf`), so there are not more of them than sets of signers (`exists_messages`). Handling
one never fails and leaves a round that holds the message's signatures, what was there before, and,
if it was asked for, the signer's own (`exists_process`).
-/

namespace SignetFederation

/-! ## Keys of messages -/

theorem mem_eraseRepsBy_loop {a x : UInt64} {as acc : List UInt64} :
    x ∈ List.eraseRepsBy.loop (· == ·) a as acc ↔ x = a ∨ x ∈ as ∨ x ∈ acc := by
  induction as generalizing a acc with
  | nil => simp [List.eraseRepsBy.loop, or_comm]
  | cons b as ih =>
    unfold List.eraseRepsBy.loop
    split
    · next heq =>
      obtain rfl : a = b := by simpa using heq
      rw [ih, List.mem_cons]
      grind
    · rw [ih, List.mem_cons, List.mem_cons]
      grind

theorem mem_distinctIds {x : UInt64} {ids : List UInt64} : x ∈ distinctIds ids ↔ x ∈ ids := by
  have hsort : x ∈ (ids.mergeSort fun a b => a ≤ b) ↔ x ∈ ids := List.mem_mergeSort
  rw [← hsort]
  unfold distinctIds List.eraseReps
  cases ids.mergeSort fun a b => a ≤ b with
  | nil => rfl
  | cons a as =>
    unfold List.eraseRepsBy
    rw [mem_eraseRepsBy_loop, List.mem_cons]
    simp

namespace Service

/-- The messages about a request, each with the round whose signatures it carries: the request
itself, and what it is re-signed to. -/
inductive Sent (request : SignetPsbtMessage) (first : Round) (signers : List LocalSigner) :
    SignetPsbtMessage → Round → Prop
  | request : Sent request first signers request first
  | signed {r : Round} (hr : Round.Honest first signers r) {slot : Slot} {s : TapSignature}
      (hs : r.signature? slot = some s) : Sent request first signers
        (request.resigned r.psbt (r.signedSlots.filterMap (first.quorum.shortIdOf request.nonce))) r

/-- A request without short ids that starts a round for its block, and signers whose short ids
differ, while PSBTs and the block read back and no message is too long. -/
structure Campaign (request : SignetPsbtMessage) (first : Round) (signers : List LocalSigner) :
    Prop extends Round.Panel first signers where
  fresh : request.signers = []
  starts : ∃ p, committedPsbt first.quorum request = .ok p ∧
    Round.start first.quorum p = .ok first
  apart : ∀ l ∈ signers, ∀ l' ∈ signers, l.shortId request.nonce = l'.shortId request.nonce →
    l = l'
  reads : ∀ r, Round.Honest first signers r → r.psbt.ReadsBack
  fits : ∀ m r, Sent request first signers m r → m.encode.length ≤ SignetPsbtMessage.sizeLimit

variable {request m m' : SignetPsbtMessage} {first r r' : Round} {signers : List LocalSigner}

/-- With more signers there are more messages. -/
theorem Sent.mono {ls : List LocalSigner} (hm : Sent request first ls m r) (hsub : ls ⊆ signers) :
    Sent request first signers m r := by
  cases hm with
  | request => exact .request
  | signed hr hs => exact .signed (hr.mono hsub) hs

/-- A part of the signers may answer the request without the others. -/
theorem Campaign.sublist {ls : List LocalSigner} (h : Campaign request first signers)
    (hsub : ls.Sublist signers) : Campaign request first ls where
  unsigned := h.unsigned
  consistent := h.consistent
  members l hl := h.members l (hsub.subset hl)
  slots := h.slots.sublist (hsub.map LocalSigner.slot)
  able l hl := h.able l (hsub.subset hl)
  fresh := h.fresh
  starts := h.starts
  apart l hl l' hl' := h.apart l (hsub.subset hl) l' (hsub.subset hl')
  reads r hr := h.reads r (hr.mono hsub.subset)
  fits m r hm := h.fits m r (hm.mono hsub.subset)

namespace Sent

variable (h : Campaign request first signers)

theorem nonce (hm : Sent request first signers m r) : m.nonce = request.nonce := by
  cases hm <;> rfl

/-- All messages are about the request's block. -/
theorem resigned_eq (hm : Sent request first signers m r) (p : Psbt) (ids : List UInt64) :
    m.resigned p ids = request.resigned p ids := by
  cases hm <;> rfl

include h

theorem honest (hm : Sent request first signers m r) : Round.Honest first signers r := by
  cases hm with
  | request => exact h.honest_first
  | signed hr _ => exact hr

/-- A message names those who have signed. -/
theorem mem_signers_iff (hm : Sent request first signers m r) {id : UInt64} :
    id ∈ m.signers ↔ ∃ l ∈ signers, l.shortId request.nonce = id ∧
      (r.signature? l.slot).isSome = true := by
  cases hm with
  | request =>
    rw [h.fresh]
    simp [h.signature?_first]
  | signed hr hs =>
    simp only [SignetPsbtMessage.resigned, List.mem_filterMap, Round.mem_signedSlots_iff]
    constructor
    · rintro ⟨slot, hsome, hid⟩
      obtain ⟨s, hs⟩ := Option.isSome_iff_exists.1 hsome
      obtain ⟨l, hl, rfl, _⟩ := hr.made slot s hs
      refine ⟨l, hl, ?_, hsome⟩
      rw [Quorum.shortIdOf, ← h.members l hl, l.occupies] at hid
      exact Option.some.inj hid
    · rintro ⟨l, hl, rfl, hsome⟩
      refine ⟨l.slot, hsome, ?_⟩
      rw [Quorum.shortIdOf, ← h.members l hl, l.occupies]
      rfl

theorem shortId_mem_iff (hm : Sent request first signers m r) {l : LocalSigner} (hl : l ∈ signers) :
    l.shortId request.nonce ∈ m.signers ↔ (r.signature? l.slot).isSome = true := by
  rw [hm.mem_signers_iff h]
  constructor
  · rintro ⟨l', hl', hid, hsome⟩
    cases h.apart l' hl' l hl hid
    exact hsome
  · exact fun hsome => ⟨l, hl, rfl, hsome⟩

/-- Messages that name the same signers are one. -/
theorem eq_of_signers (hm : Sent request first signers m r) (hm' : Sent request first signers m' r')
    (hsigners : ∀ l ∈ signers, (r.signature? l.slot).isSome = (r'.signature? l.slot).isSome) :
    m = m' ∧ r = r' := by
  have hround : r = r' := by
    refine (hm.honest h).eq_of_slots h.toPanel (hm'.honest h) fun slot => ?_
    cases hs : r.signature? slot with
    | some s =>
      obtain ⟨l, hl, rfl, _⟩ := (hm.honest h).made slot s hs
      rw [← hs, hsigners l hl]
    | none =>
      cases hs' : r'.signature? slot with
      | none => rfl
      | some s' =>
        obtain ⟨l, hl, rfl, _⟩ := (hm'.honest h).made slot s' hs'
        have hsame := hsigners l hl
        rw [hs, hs'] at hsame
        exact hsame
  subst hround
  refine ⟨?_, rfl⟩
  cases hm with
  | request =>
    cases hm' with
    | request => rfl
    | signed _ hs =>
      rw [h.signature?_first] at hs
      cases hs
  | signed _ hs =>
    cases hm' with
    | request =>
      rw [h.signature?_first] at hs
      cases hs
    | signed => rfl

/-- Messages with the same key are one. -/
theorem eq_of_keyOf (hm : Sent request first signers m r) (hm' : Sent request first signers m' r')
    (hkey : DedupKey.nonceAndSigners.keyOf m = DedupKey.nonceAndSigners.keyOf m') :
    m = m' ∧ r = r' := by
  have hids : distinctIds m.signers = distinctIds m'.signers := congrArg MessageKey.signers hkey
  refine hm.eq_of_signers h hm' fun l hl => Bool.eq_iff_iff.2 ?_
  rw [← hm.shortId_mem_iff h hl, ← hm'.shortId_mem_iff h hl, ← mem_distinctIds, hids,
    mem_distinctIds]

theorem eq_of_toFrame {magic : Magic} (hm : Sent request first signers m r)
    (hm' : Sent request first signers m' r') (hframe : m.toFrame magic = m'.toFrame magic) :
    m = m' :=
  SignetPsbtMessage.toFrame_inj (h.fits m r hm) (h.fits m' r' hm') hframe

theorem ofFrame_toFrame (magic : Magic) (hm : Sent request first signers m r) :
    SignetPsbtMessage.ofFrame (m.toFrame magic) magic = .ok m :=
  SignetPsbtMessage.ofFrame_toFrame magic (h.fits m r hm)

theorem knowsSigners {e : RelayEngine} (he : e.quorum = some first.quorum)
    (hm : Sent request first signers m r) : e.knowsSigners m = true := by
  unfold RelayEngine.knowsSigners
  rw [he]
  refine List.all_eq_true.2 fun id hid => ?_
  obtain ⟨l, hl, rfl, _⟩ := (hm.mem_signers_iff h).1 hid
  have hkey : l.publicKey ∈ first.quorum.keys :=
    Quorum.mem_keys_of_keyFor (h.members l hl ▸ l.occupies)
  rw [hm.nonce]
  exact List.contains_iff_mem.2 (List.mem_map.2 ⟨l.publicKey, hkey, rfl⟩)

end Sent

/-- There are not more messages than sets of signers. -/
theorem Campaign.exists_messages (h : Campaign request first signers) :
    ∃ ms : List SignetPsbtMessage, ms.length ≤ 2 ^ signers.length ∧
      ∀ m r, Sent request first signers m r → m ∈ ms := by
  classical
  let chosen (ls : List LocalSigner) : Option SignetPsbtMessage :=
    if hex : ∃ m r, Sent request first signers m r ∧
      ∀ l ∈ signers, (r.signature? l.slot).isSome = true ↔ l ∈ ls then some hex.choose else none
  refine ⟨signers.sublists.filterMap chosen, ?_, fun m r hm => ?_⟩
  · rw [← List.length_sublists]
    exact List.length_filterMap_le _ _
  · refine List.mem_filterMap.2 ⟨signers.filter fun l => (r.signature? l.slot).isSome,
      List.mem_sublists.2 List.filter_sublist, ?_⟩
    have hex : ∃ m' r', Sent request first signers m' r' ∧ ∀ l ∈ signers,
        (r'.signature? l.slot).isSome = true ↔
          l ∈ signers.filter fun l => (r.signature? l.slot).isSome :=
      ⟨m, r, hm, fun l hl => by simp [List.mem_filter, hl]⟩
    obtain ⟨r', hm', hsigners⟩ := hex.choose_spec
    have hchosen : chosen (signers.filter fun l => (r.signature? l.slot).isSome) =
        some hex.choose := dif_pos hex
    rw [hchosen, (hm.eq_of_signers h hm' fun l hl => Bool.eq_iff_iff.2 ?_).1]
    rw [hsigners l hl, List.mem_filter]
    exact (and_iff_right hl).symm

/-! ## Handling a message -/

/-- What a message carries is committed to the request's block, and starts the round whose signatures
it carries. -/
theorem Sent.exists_committed (h : Campaign request first signers)
    (hm : Sent request first signers m r) :
    ∃ p, committedPsbt first.quorum m = .ok p ∧ Round.start first.quorum p = .ok r := by
  cases hm with
  | request => exact h.starts
  | signed hr hs =>
    obtain ⟨p, hp, hstart⟩ := h.starts
    obtain ⟨_, hstarted⟩ := Round.started_of_start hstart
    obtain ⟨_, b, hb, ht⟩ := committedPsbt_eq_ok_iff.1 hp
    refine ⟨r.psbt, committedPsbt_eq_ok_iff.2 ⟨?_, b, hb, ?_⟩, hr.start_eq h.toPanel⟩
    · exact SignetPsbtMessage.readPsbt_of_readsBack rfl (h.reads r hr)
    · rw [ht, hr.later.unsigned, hstarted.transaction]

/-- A session or another round holds a signature. -/
def Held (sessions : Sessions) (nonce : UInt64) (r : Round) (slot : Slot) (s : TapSignature) : Prop :=
  (∃ old, sessions.get? nonce = some old ∧ old.signature? slot = some s) ∨
    r.signature? slot = some s

/-- A session takes the PSBT of a message: it then holds the signatures that the message carries, and
those that were there. -/
theorem exists_start (h : Campaign request first signers) {sessions : Sessions}
    (hquorum : sessions.quorum = first.quorum) {nonce : UInt64}
    (hhonest : ∀ r', sessions.get? nonce = some r' → Round.Honest first signers r')
    (hr : Round.Honest first signers r) {p : Psbt} (hp : Round.start first.quorum p = .ok r) :
    ∃ r' state, sessions.start nonce p = (sessions.withSession nonce r', .ok state) ∧
      Round.Honest first signers r' ∧
      ∀ slot s, r'.signature? slot = some s ↔ Held sessions nonce r slot s := by
  cases hold : sessions.get? nonce with
  | none =>
    refine ⟨r, r.state, Sessions.start_of_none hold (hquorum ▸ hp), hr, fun slot s => ?_⟩
    simp [Held, hold]
  | some old =>
    obtain ⟨r', state, hmerge, hr', hslots⟩ := (hhonest old hold).exists_merge h.toPanel hr hp
    refine ⟨r', state, ?_, hr', fun slot s => by simpa [Held, hold] using hslots slot s⟩
    rw [Sessions.start_of_some hold, hmerge]

/-- A signer signs an honest round, whether it has signed it before or not. -/
theorem exists_signRound (h : Campaign request first signers) (hr : Round.Honest first signers r)
    {l : LocalSigner} (hl : l ∈ signers) (nonce : UInt64) : ∃ r',
      signRound first.quorum l nonce r =
        (r', .ok (r'.psbt, r'.signedSlots.filterMap (first.quorum.shortIdOf nonce))) ∧
      Round.Honest first signers r' ∧
      (∀ slot s, r.signature? slot = some s → r'.signature? slot = some s) ∧
      ∃ s, r'.signature? l.slot = some s := by
  obtain ⟨s, hs, hgood⟩ := h.able l hl
  -- whatever the slot holds was made by the signer itself
  have hfree : ∀ s', r.signature? l.slot = some s' → s' = s := by
    intro s' hs'
    obtain ⟨l', hl', hslot, hsigns⟩ := hr.made l.slot s' hs'
    cases h.eq_of_slot hl' hl hslot
    exact hsigns.unique hs
  obtain ⟨r', hsigned, hext, hactive, hslots⟩ : ∃ r', signRound first.quorum l nonce r =
      (r', .ok (r'.psbt, r'.signedSlots.filterMap (first.quorum.shortIdOf nonce))) ∧ _ :=
    signRound_of_good _ _ (hr.consistent h.toPanel) ((h.members l hl).trans hr.later.quorum.symm)
      hr.active (by rw [hr.later.hashes]; exact hs)
      (by rw [hr.later.quorum, hr.later.hashes]; exact hgood) hfree
  refine ⟨r', hsigned, hr.of_extends hext hactive fun slot s' hs' => ?_, hext.keeps,
    s, (hslots l.slot s).2 (.inr ⟨rfl, rfl⟩)⟩
  exact ((hslots slot s').1 hs').imp_right fun ⟨hslot, hsame⟩ =>
    ⟨l, hl, hslot.symm, hsame ▸ hs⟩

/-- What comes of a delivery whose message carries the signatures of a round: the session holds them
and what was there before. Either nobody is asked to sign and there are no others, or the signer has
signed, and the answer is the message of the session. -/
structure Handled (request : SignetPsbtMessage) (first : Round) (signers : List LocalSigner)
    (before : Sessions) (signer : Option LocalSigner) (d : Delivery) (r : Round) (after : Sessions)
    (r' : Round) (result : Option SignetPsbtMessage) : Prop where
  sound : after.Sound first.quorum
  session : after.get? request.nonce = some r'
  honest : Round.Honest first signers r'
  keeps : ∀ slot s, Held before request.nonce r slot s → r'.signature? slot = some s
  answer : (result = none ∧ (∀ l, signer = some l → d.sign = false) ∧
      ∀ slot s, r'.signature? slot = some s → Held before request.nonce r slot s) ∨
    ∃ l m, signer = some l ∧ result = some m ∧ Sent request first signers m r' ∧
      (r'.signature? l.slot).isSome = true

/-- **Handling a message of an honest signer does not fail.** -/
theorem exists_process (h : Campaign request first signers) {sessions : Sessions}
    (hsound : sessions.Sound first.quorum)
    (hhonest : ∀ r', sessions.get? request.nonce = some r' → Round.Honest first signers r')
    {signer : Option LocalSigner} (hsigner : ∀ l, signer = some l → l ∈ signers) {d : Delivery}
    (hm : Sent request first signers d.message r) :
    ∃ after r' result, process sessions signer d = (after, .ok result) ∧
      Handled request first signers sessions signer d r after r' result := by
  obtain ⟨p, hp, hstart⟩ := hm.exists_committed h
  obtain ⟨r', state, hstarted, hr', hslots⟩ :=
    exists_start h hsound.quorum hhonest (hm.honest h) hstart
  rw [← hsound.quorum] at hp
  rw [← hm.nonce] at hstarted
  have hprocessed := sound_process hsound signer d
  by_cases hno : ∀ l, signer = some l → d.sign = false
  · have hdone := process_unsigned hp hstarted hno
    rw [hdone] at hprocessed
    refine ⟨_, r', none, hdone, hprocessed, ?_, hr', fun slot s => (hslots slot s).2,
      .inl ⟨rfl, hno, fun slot s => (hslots slot s).1⟩⟩
    rw [hm.nonce]
    exact Sessions.get?_withSession_self
  · simp only [not_forall, Bool.not_eq_false] at hno
    obtain ⟨l, rfl, hsign⟩ := hno
    obtain ⟨r'', hsigned, hr'', hkeeps, s, hown⟩ :=
      exists_signRound h hr' (hsigner l rfl) d.message.nonce
    rw [← hsound.quorum] at hsigned
    have hdone := process_signed hp hstarted hsign Sessions.get?_withSession_self hsigned
    rw [hdone] at hprocessed
    refine ⟨_, r'', _, hdone, hprocessed, ?_, hr'', fun slot s' hs' => ?_,
      .inr ⟨l, _, rfl, rfl, ?_, Option.isSome_iff_exists.2 ⟨s, hown⟩⟩⟩
    · rw [hm.nonce]
      exact Sessions.get?_withSession_self
    · exact hkeeps slot s' ((hslots slot s').2 hs')
    · rw [hm.nonce, hm.resigned_eq, hsound.quorum]
      exact .signed hr'' hown

namespace Handled

variable {before after : Sessions} {signer : Option LocalSigner} {d : Delivery}
  {result : Option SignetPsbtMessage}
  (hd : Handled request first signers before signer d r after r' result)

include hd

/-- A signer that is asked to sign answers. -/
theorem exists_answer {l : LocalSigner} (hl : signer = some l) (hsign : d.sign = true) :
    ∃ m, result = some m := by
  rcases hd.answer with ⟨_, hno, _⟩ | ⟨_, m, _, hresult, _⟩
  · rw [hno l hl] at hsign
    cases hsign
  · exact ⟨m, hresult⟩

/-- The signer's own signature is in the session, if it is in the message where nobody is asked to
sign. -/
theorem own {l : LocalSigner} (hl : signer = some l)
    (hunsigned : d.sign = false → (r.signature? l.slot).isSome = true) :
    (r'.signature? l.slot).isSome = true := by
  rcases hd.answer with ⟨_, hno, _⟩ | ⟨l', _, hl', _, _, hsome⟩
  · obtain ⟨s, hs⟩ := Option.isSome_iff_exists.1 (hunsigned (hno l hl))
    exact Option.isSome_iff_exists.2 ⟨s, hd.keeps l.slot s (.inr hs)⟩
  · rw [hl] at hl'
    cases hl'
    exact hsome

/-- A signature in the session was there, or was in the message, or is in the answer. -/
theorem source {slot : Slot} (hsome : (r'.signature? slot).isSome = true) :
    (∃ old, before.get? request.nonce = some old ∧ (old.signature? slot).isSome = true) ∨
      (r.signature? slot).isSome = true ∨
      ∃ m, result = some m ∧ Sent request first signers m r' := by
  rcases hd.answer with ⟨_, _, honly⟩ | ⟨_, m, _, hresult, hsent, _⟩
  · obtain ⟨s, hs⟩ := Option.isSome_iff_exists.1 hsome
    rcases honly slot s hs with ⟨old, hold, hs⟩ | hs
    · exact .inl ⟨old, hold, Option.isSome_iff_exists.2 ⟨s, hs⟩⟩
    · exact .inr (.inl (Option.isSome_iff_exists.2 ⟨s, hs⟩))
  · exact .inr (.inr ⟨m, hresult, hsent⟩)

/-- The answer is the message of the session. -/
theorem sent {m : SignetPsbtMessage} (hm : result = some m) : Sent request first signers m r' := by
  rcases hd.answer with ⟨hnone, _⟩ | ⟨_, m', _, hresult, hsent, _⟩
  · rw [hnone] at hm
    cases hm
  · rw [hresult] at hm
    cases hm
    exact hsent

end Handled

end Service

end SignetFederation
