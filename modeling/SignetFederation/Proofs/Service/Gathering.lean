import SignetFederation.Proofs.Service.Completion
import SignetFederation.Proofs.Service.Emission
import SignetFederation.Proofs.Signing.Workflows

/-!
# No signature is lost

The services of a connected network hold signers of a quorum, and one of them is asked to sign a
block. Once nothing waits any more, all of them have seen what any of them has seen
(`Intact.sees_everywhere`). So the first message in which a signer has put its signature has brought
it to every session, and each session holds the signatures of all signers (`Intact.holds_all`).

Main statement: `no_signature_lost`.
-/

namespace SignetFederation

/-! ## The request -/

/-- A block to be signed in a PSBT, and signers of the quorum that are for different slots, whose
signatures over the block's messages verify. -/
structure Signatories (q : Quorum) (b : Block) (p : Psbt) (signers : List LocalSigner) : Prop where
  asks : b.signetPsbt q.challenge = .ok p
  members : ∀ l ∈ signers, l.quorum = q
  slots : (signers.map LocalSigner.slot).Nodup
  verifies : ∀ hashes, b.spendHashes q = .ok hashes → ∀ l ∈ signers, ∀ key,
    l.signingKey = .ok key →
      Schnorr.verify key.xOnly (hashes.forSlot l.slot)
        (Schnorr.sign key (hashes.forSlot l.slot)) = true

/-- Such a block and signers whose short ids for a nonce differ. Block and PSBTs read back from their
bytes, and no message is too long. -/
structure Petition (q : Quorum) (nonce : UInt64) (b : Block) (p : Psbt)
    (signers : List LocalSigner) : Prop extends Signatories q b p signers where
  apart : ∀ l ∈ signers, ∀ l' ∈ signers, l.shortId nonce = l'.shortId nonce → l = l'
  readsBlock : Block.ofBytes? b.encode = .ok b
  readsRequest : p.ReadsBack
  readsRounds : ∀ first, Round.start q p = .ok first → ∀ r, Round.Honest first signers r →
    r.psbt.ReadsBack
  fits : ∀ first, Round.start q p = .ok first → ∀ m r,
    Service.Sent (.make nonce p b []) first signers m r →
      m.encode.length ≤ SignetPsbtMessage.sizeLimit

section

variable {q : Quorum} {nonce : UInt64} {b : Block} {p : Psbt} {signers : List LocalSigner}

/-- Every signer makes a good signature. -/
theorem Signatories.exists_good (h : Signatories q b p signers) {hashes : Sighashes}
    (hhashes : b.spendHashes q = .ok hashes) {l : LocalSigner} (hl : l ∈ signers) :
    ∃ s, l.Signs hashes s ∧ Round.Good q hashes l.slot s := by
  have hgood := l.exists_good (h.verifies hashes hhashes l hl)
  rwa [h.members l hl] at hgood

/-- The PSBT starts a round whose messages are those of the block's spend. -/
theorem Signatories.panel (h : Signatories q b p signers) : ∃ first,
    Round.start q p = .ok first ∧ first.quorum = q ∧ b.spendHashes q = .ok first.hashes ∧
      Round.Panel first signers := by
  obtain ⟨hspend, first, hstart, rfl, hunsigned, hhashes⟩ := Round.start_signetPsbt h.asks
  have hblock : b.spendHashes first.quorum = .ok first.hashes := by
    rw [hhashes]
    exact Block.spendHashes_of_toSign hspend
  exact ⟨first, hstart, rfl, hblock, hunsigned, Round.consistent_of_start hstart, h.members,
    h.slots, fun l hl => h.exists_good hblock hl⟩

/-- A request with the block and the PSBT is one that the signers can answer. -/
theorem Petition.campaign (h : Petition q nonce b p signers) : ∃ first, first.quorum = q ∧
    b.spendHashes q = .ok first.hashes ∧
    Service.Campaign (.make nonce p b []) first signers := by
  obtain ⟨first, hstart, rfl, hblock, hpanel⟩ := h.panel
  have hspend := (Round.start_signetPsbt h.asks).1
  exact ⟨first, rfl, hblock, { hpanel with
    fresh := rfl
    starts := ⟨p, Service.committedPsbt_of_encoded rfl rfl h.readsRequest h.readsBlock hspend,
      hstart⟩
    apart := h.apart
    reads := h.readsRounds first hstart
    fits := h.fits first hstart }⟩

end

/-! ## Networks at rest -/

/-- Two stations are joined by a cable. -/
def Joined (cables : Cables) (i j : Nat) : Prop := ∃ a b, cables i a = some (j, b)

namespace Intact

variable {cables : Cables} {request : SignetPsbtMessage} {first : Round}
  {signers : List LocalSigner} {magic : Magic} {origin : Nat} {net : List Station}
  (hnet : Intact cables request first signers magic origin net)
  (hidle : ∀ x ∈ net, x.Idle)
  (hjoined : ∀ i j, i < net.length → j < net.length → Relation.ReflTransGen (Joined cables) i j)

include hnet hidle hjoined

/-- What one station has seen all stations have seen. -/
theorem sees_everywhere {m : SignetPsbtMessage} {r : Round}
    (hm : Service.Sent request first signers m r) {i : Nat} (hsees : SeesAt net i m) {x : Station}
    (hx : x ∈ net) : x.sees m = true := by
  obtain ⟨k, hk⟩ := List.mem_iff_getElem?.1 hx
  obtain ⟨y, hy, _⟩ := id hsees
  have hpath := hjoined i k (List.getElem?_eq_some_iff.1 hy).1 (List.getElem?_eq_some_iff.1 hk).1
  rw [← seesAt_iff hk]
  clear hk
  induction hpath with
  | refl => exact hsees
  | tail _ hcable ih =>
    obtain ⟨a, b, hcable⟩ := hcable
    refine (hnet.covered _ a _ b m r hcable hm ih).resolve_right ?_
    rintro ⟨z, hz, hwaits⟩
    rw [(hidle z (List.mem_of_getElem? hz)).frames a] at hwaits
    cases hwaits

/-- Every session holds what any message has brought. -/
theorem settled_everywhere {m : SignetPsbtMessage} {r : Round}
    (hm : Service.Sent request first signers m r) {i : Nat} (hsees : SeesAt net i m) {x : Station}
    (hx : x ∈ net) : x.Settled request.nonce r := by
  have hseen := hnet.sees_everywhere hidle hjoined hm hsees hx
  refine ((hnet.good x hx).merged m r hm hseen).resolve_left ?_
  rintro ⟨d, hd, _⟩
  rw [(hidle x hx).deliveries] at hd
  cases hd

/-- Every session holds the signatures of all signers. -/
theorem holds_all {x : Station} (hx : x ∈ net) : ∃ r, x.round? request.nonce = some r ∧
    Round.Honest first signers r ∧ ∀ l ∈ signers, (r.signature? l.slot).isSome = true := by
  obtain ⟨r, hr, _⟩ := hnet.settled_everywhere hidle hjoined .request hnet.begun hx
  refine ⟨r, hr, (hnet.good x hx).rounds r hr, fun l hl => ?_⟩
  obtain ⟨y, hy, hsigner⟩ := hnet.members l hl
  obtain ⟨own, hown, _, hsome⟩ := hnet.settled_everywhere hidle hjoined .request hnet.begun hy
  -- the signer has told of its signature, and what it has told is everywhere
  obtain ⟨m, told, hm, hcarries, hwhere⟩ :=
    (hnet.good y hy).told l own hsigner hown (hsome l hsigner)
  obtain ⟨k, hk⟩ := List.mem_iff_getElem?.1 hy
  have hsees : SeesAt net k m := by
    refine (seesAt_iff hk).2 (hwhere.resolve_right fun hwaits => ?_)
    rw [(hidle y hy).outbox] at hwaits
    cases hwaits
  obtain ⟨r', hr', hkeeps, _⟩ := hnet.settled_everywhere hidle hjoined hm hsees hx
  rw [hr] at hr'
  cases hr'
  obtain ⟨s, hs⟩ := Option.isSome_iff_exists.1 hcarries
  exact Option.isSome_iff_exists.2 ⟨s, hkeeps l.slot s hs⟩

end Intact

/-! ## The whole run -/

/-- What a run among honest signers comes to. -/
structure Gathered (cables : Cables) (magic : Magic) (q : Quorum) (nonce : UInt64)
    (hashes : Sighashes) (signers : List LocalSigner) (net₀ : List Station)
    (events : List GossipEvent) (net : List Station) : Prop where
  /-- No delivery fails. -/
  handles : ∀ i result, .handle i result ∈ events → ∃ answer, result = .ok answer
  /-- The run comes to an end. -/
  ends : events.length ≤ 2 ^ signers.length * (net₀.map fun x => 2 * x.degree + 2).sum
  /-- Until then a frame that waits can be received at the other end of its cable. -/
  receives : ∀ (i : Nat) (x : Station) a place queues frame, net[i]? = some x →
    x.queues.takeFrameAt a place = some (queues, frame) →
    ∃ j b y, cables i a = some (j, b) ∧ (net.set i (x.withQueues queues))[j]? = some y ∧
      ∀ now, (∀ m, SignetPsbtMessage.ofFrame frame magic = .ok m → y.engine.Retains m now) →
        ∃ y' d, y.receive (some b) frame now = .ok (y', d)
  /-- A message that a station is about to broadcast can be broadcast. -/
  sends : ∀ (i : Nat) (x : Station) (place : Nat) m now, net[i]? = some x →
    x.outbox[place]? = some m → x.engine.Retains m now → ∃ x', x.send place now = .ok (some x')
  /-- Once nothing waits, every session holds the signatures of all signers and no others. So it is
  complete exactly if one of them signs for the key path, or enough of them sign for the leaf. -/
  holds : (∀ x ∈ net, x.Idle) → ∀ x ∈ net, ∃ r, x.round? nonce = some r ∧ r.hashes = hashes ∧
    (∀ l ∈ signers, (r.signature? l.slot).isSome = true) ∧
    (∀ slot s, r.signature? slot = some s ↔ ∃ l ∈ signers, l.slot = slot ∧ l.Signs hashes s) ∧
    (r.state = .complete ↔ (∃ l ∈ signers, l.slot = .keyPath) ∨
      q.threshold ≤ (signers.filter fun l => l.slot ≠ .keyPath).length)

/-- **No signature is lost.** Services of a quorum flood messages over cables that connect them all,
tell them apart by nonce and signers, and forget none; some of them have signers, and one gets the
request to sign a block. In whatever order frames are received, deliveries are handled and answers are
broadcast: no delivery fails, the run comes to an end, and then every session holds the signatures of
all signers. -/
theorem no_signature_lost {q : Quorum} {nonce : UInt64} {b : Block} {p : Psbt}
    {signers : List LocalSigner} {cables : Cables} {magic : Magic} {origin : Nat}
    {net₀ net : List Station} {events : List GossipEvent} (h : Petition q nonce b p signers)
    (hnet₀ : Assembled cables magic q nonce signers net₀)
    (hjoined : ∀ i j, i < net₀.length → j < net₀.length →
      Relation.ReflTransGen (Joined cables) i j)
    (hrun : Gossip cables (.make nonce p b []) magic origin net₀ events net) :
    ∃ hashes, b.spendHashes q = .ok hashes ∧
      Gathered cables magic q nonce hashes signers net₀ events net := by
  obtain ⟨first, rfl, hhashes, hcampaign⟩ := h.campaign
  obtain ⟨ms, hms, hall⟩ := hcampaign.exists_messages
  obtain ⟨hnet, hhandles, hweight⟩ := Intact.of_gossip hcampaign hall hnet₀ hrun
  have hlength := hrun.length_eq
  refine ⟨first.hashes, hhashes, hhandles, ?_, fun i x a place queues frame hx htake => ?_,
    fun i x place m now hx hm hkeep => ?_, fun hidle x hx => ?_⟩
  · have hle := (hnet₀.weightOf_le ms).trans (Nat.mul_le_mul_right _ hms)
    omega
  · obtain ⟨j, b, y, hcable, hback, hy⟩ :=
      hnet.toStaffed.exists_far (hrun.ends hnet₀) hx htake
    refine ⟨j, b, y, hcable, hy, fun now hkeep => ?_⟩
    obtain ⟨y', d, hstep, _⟩ := hnet.receive hcampaign hall hx htake hcable hback hy hkeep
    exact ⟨y', d, hstep⟩
  · obtain ⟨x', hstep, _⟩ := hnet.send hcampaign ms hx hm hkeep
    exact ⟨x', hstep⟩
  · obtain ⟨r, hr, hhonest, hsigned⟩ := hnet.holds_all hidle (by rwa [hlength]) hx
    exact ⟨r, hr, hhonest.later.hashes, hsigned, hhonest.signature?_iff hcampaign.toPanel hsigned,
      hhonest.state_eq_complete_iff hcampaign.toPanel hsigned⟩

/-! ## Two services -/

open Service (sampleSigner sampleSpend sampleDigest toSign_sample)

/-- The signer of the sample quorum's key path. -/
def sampleKeyPath : LocalSigner where
  quorum := .sample
  slot := .keyPath
  secret := ⟨1, Nat.one_pos, by decide⟩
  occupies := by decide +kernel

/-- The secret key of the sample quorum's output. -/
def sampleOutputSecret : SecretKey :=
  ⟨0xc84b8dde4d7cdea2f0e36fb720fe5c7d84b15968b12f47b68db457f09fa2cb70, by decide, by decide⟩

/-- The PSBT that the sample quorum signs for the sample block. -/
def samplePetition : Psbt :=
  { Psbt.ofTransaction sampleSpend with
    inputs := [{ Psbt.Input.blank with
      previousTransaction := some <| virtualTransaction .null (0x00 :: Script.push
        (Bytes.le 4 1 ++ List.replicate 32 0 ++
          Bytes.be 32 0x231816cfef486f562eeebd243fb38934454c5a2e6daa3da0dda8f468acb38a03 ++
          Bytes.le 4 0)) Quorum.sample.challenge
      spentOutput := some ⟨0, Quorum.sample.challenge⟩ }] }

/-- What signatures for the sample block sign. -/
def sampleHashes : Sighashes :=
  ⟨⟨Bytes.be 32 0x83b43b5bbf9a75c8070ab5c1278a1b8e018bbc0e579184441b8f10388c7955f5, by simp⟩,
    sampleDigest⟩

/-- The signatures of both signers for the sample block. -/
def sampleSignature (l : LocalSigner) : TapSignature :=
  match l.slot with
  | .keyPath => ⟨⟨Bytes.be 32 0x32b41f77f71ebcf05a3d27e6155c19566058a25f75af568023c3e60174145437 ++
      Bytes.be 32 0xf792004b80db639135251c906bf69574ee5f8efcd325760ea0438f07ad6d9930, by simp⟩, .all⟩
  | .script _ => ⟨⟨Bytes.be 32 0xcd12ee3688f2f2b99c12cad83e174663e2d6d7e28a2c2875a763078d35cabeb1 ++
      Bytes.be 32 0x1137030e157bbc3f2a64b062914973768d1fd1e7765f67c3489e788af3972cd4, by simp⟩, .all⟩

/-- What there is to sign for the sample block, with which key for the key path, and the two
signatures. -/
theorem signed_sample : Block.sample.spendHashes .sample = .ok sampleHashes ∧
    sampleKeyPath.signingKey = .ok sampleOutputSecret ∧
    Schnorr.sign sampleOutputSecret sampleHashes.keyPath =
      (sampleSignature sampleKeyPath).signature ∧
    Schnorr.sign sampleSigner.secret sampleHashes.script =
      (sampleSignature sampleSigner).signature := by
  refine ⟨?_, ?_, ?_, ?_⟩
  all_goals decide +kernel

theorem spendHashes_sample : Block.sample.spendHashes .sample = .ok sampleHashes := signed_sample.1

theorem signatories_sample :
    Signatories .sample .sample samplePetition [sampleSigner, sampleKeyPath] where
  asks := by decide +kernel
  members l hl := by
    rcases List.mem_pair.1 hl with rfl | rfl <;> rfl
  slots := by decide
  verifies hashes hhashes l hl key hkey := by
    obtain ⟨hspend, hsigning, hkeyPath, hscript⟩ := signed_sample
    cases hspend.symm.trans hhashes
    rcases List.mem_pair.1 hl with rfl | rfl
    · cases hkey
      change Schnorr.verify _ sampleHashes.script (Schnorr.sign _ sampleHashes.script) = true
      rw [hscript]
      decide +kernel
    · cases hsigning.symm.trans hkey
      change Schnorr.verify _ sampleHashes.keyPath (Schnorr.sign _ sampleHashes.keyPath) = true
      rw [hkeyPath]
      decide +kernel

theorem signs_sample :
    ∀ l ∈ [sampleSigner, sampleKeyPath], l.Signs sampleHashes (sampleSignature l) := by
  obtain ⟨_, hsigning, hkeyPath, hscript⟩ := signed_sample
  intro l hl
  rcases List.mem_pair.1 hl with rfl | rfl
  · exact ⟨_, rfl, congrArg (TapSignature.mk · .all) hscript.symm⟩
  · exact ⟨_, hsigning, congrArg (TapSignature.mk · .all) hkeyPath.symm⟩

/-- The request to sign the sample block. -/
def sampleRequest : SignetPsbtMessage := .make 7 samplePetition .sample []

/-- The PSBT of a round reads back, and its message is not too long. -/
def sampleFits (r : Round) : Bool :=
  decide r.psbt.ReadsBack &&
    decide ((sampleRequest.resigned r.psbt
      (r.signedSlots.filterMap (Quorum.sample.shortIdOf 7))).encode.length ≤
        SignetPsbtMessage.sizeLimit)

theorem sampleFits_fillAll : (Round.start .sample samplePetition).toOption.map (fun first =>
    [sampleSigner, sampleKeyPath].sublists.all fun ls =>
      sampleFits (first.fillAll sampleSignature ls)) = some true := by
  decide +kernel

/-- Whatever the signers sign, what they send can be read. -/
theorem sampleFits_of_honest {first r : Round}
    (hfirst : Round.start .sample samplePetition = .ok first)
    (hr : Round.Honest first [sampleSigner, sampleKeyPath] r) : sampleFits r = true := by
  obtain ⟨first', hfirst', _, hhashes, hpanel⟩ := signatories_sample.panel
  cases hfirst.symm.trans hfirst'
  have hsame : first.hashes = sampleHashes := Except.ok.inj (hhashes.symm.trans spendHashes_sample)
  obtain ⟨ls, hls, rfl⟩ := hr.exists_sublist hpanel (hsame ▸ signs_sample)
  have hall := sampleFits_fillAll
  rw [hfirst] at hall
  exact List.all_eq_true.1 (Option.some.inj hall) ls (List.mem_sublists.2 hls)

theorem petition_sample :
    Petition .sample 7 .sample samplePetition [sampleSigner, sampleKeyPath] where
  toSignatories := signatories_sample
  apart l hl l' hl' hsame := by
    rcases List.mem_pair.1 hl with rfl | rfl <;> rcases List.mem_pair.1 hl' with rfl | rfl
    · rfl
    · exact absurd hsame (by decide +kernel)
    · exact absurd hsame (by decide +kernel)
    · rfl
  readsBlock := by decide +kernel
  readsRequest := by decide +kernel
  readsRounds first hfirst r hr := by
    have hfits := sampleFits_of_honest hfirst hr
    simp only [sampleFits, Bool.and_eq_true, decide_eq_true_eq] at hfits
    exact hfits.1
  fits first hfirst m r hm := by
    cases hm with
    | request => exact of_decide_eq_true (by decide +kernel)
    | signed hr hs =>
      have hfits := sampleFits_of_honest hfirst hr
      simp only [sampleFits, Bool.and_eq_true, decide_eq_true_eq] at hfits
      obtain ⟨_, hstarted⟩ := Round.started_of_start hfirst
      rw [hstarted.quorum]
      exact hfits.2

/-- The magic of the sample network. -/
def sampleMagic : Magic := ⟨[0x0a, 0x03, 0xcf, 0x40], rfl⟩

/-- A service with room for a thousand messages, which do not expire, and one peer. -/
def sampleStation (l : LocalSigner) : Station :=
  .fresh ⟨1000, none, .nonceAndSigners, true⟩ sampleMagic .sample (some l) 1

/-- Two such services. -/
def sampleStations : List Station := [sampleStation sampleSigner, sampleStation sampleKeyPath]

/-- A cable between the two. -/
def sampleCables : Cables := fun i a => if i < 2 ∧ a = 0 then some (1 - i, 0) else none

theorem joined_sample {i j : Nat} (hi : i < 2) (hj : j < 2) :
    Relation.ReflTransGen (Joined sampleCables) i j := by
  by_cases heq : i = j
  · exact heq ▸ .refl
  · refine .single ⟨0, 0, ?_⟩
    unfold sampleCables
    rw [if_pos ⟨hi, rfl⟩, show 1 - i = j by omega]

theorem assembled_sample : Assembled sampleCables sampleMagic .sample 7 [sampleSigner, sampleKeyPath]
    sampleStations := by
  have hstations : ∀ x ∈ sampleStations,
      ∃ l ∈ [sampleSigner, sampleKeyPath], x = sampleStation l := by
    intro x hx
    rcases List.mem_pair.1 hx with rfl | rfl
    · exact ⟨_, List.mem_cons_self .., rfl⟩
    · exact ⟨_, List.mem_cons_of_mem _ (List.mem_singleton_self _), rfl⟩
  refine ⟨fun x hx => ?_, fun l hl => ?_, fun x hx m _ => ?_, fun x hx => ?_, fun x hx => ?_,
    fun i x hx a => ?_, fun i a j b hcable => ?_⟩
  · obtain ⟨l, hl, rfl⟩ := hstations x hx
    exact Station.fit_fresh rfl rfl fun l' hl' => Option.some.inj hl' ▸ hl
  · refine ⟨sampleStation l, ?_, rfl⟩
    rcases List.mem_pair.1 hl with rfl | rfl
    · exact List.mem_cons_self ..
    · exact List.mem_cons_of_mem _ (List.mem_singleton_self _)
  · obtain ⟨l, _, rfl⟩ := hstations x hx
    exact Station.sees_fresh m
  · obtain ⟨l, _, rfl⟩ := hstations x hx
    exact Station.round?_fresh 7
  · obtain ⟨l, _, rfl⟩ := hstations x hx
    exact Station.idle_fresh
  · obtain ⟨l, _, rfl⟩ := hstations x (List.mem_of_getElem? hx)
    have hi : i < 2 := (List.getElem?_eq_some_iff.1 hx).1
    rw [sampleStation, Station.mem_registered_fresh, Nat.lt_one_iff]
    unfold sampleCables
    simp [hi]
  · unfold sampleCables at hcable ⊢
    split at hcable
    · next hi =>
      cases hcable
      refine ⟨show 1 - i < 2 by omega, ?_⟩
      rw [if_pos ⟨by omega, rfl⟩, hi.2, show 1 - (1 - i) = i by omega]
    · cases hcable

/-- The sample block comes to the first of the two services: the run comes to rest with complete
sessions in both. -/
theorem no_signature_lost_sample : ∃ events net hashes,
    Petition .sample 7 .sample samplePetition [sampleSigner, sampleKeyPath] ∧
      Assembled sampleCables sampleMagic .sample 7 [sampleSigner, sampleKeyPath] sampleStations ∧
      Gossip sampleCables sampleRequest sampleMagic 0 sampleStations events net ∧
      Block.sample.spendHashes .sample = .ok hashes ∧
      Gathered sampleCables sampleMagic .sample 7 hashes [sampleSigner, sampleKeyPath]
        sampleStations events net ∧ (∀ x ∈ net, x.Idle) ∧
      ∀ x ∈ net, ∃ r, x.round? 7 = some r ∧ r.state = .complete ∧
        ∀ l ∈ [sampleSigner, sampleKeyPath], r.signature? l.slot = some (sampleSignature l) := by
  obtain ⟨first, hquorum, hfirst, hcampaign⟩ := petition_sample.campaign
  obtain ⟨ms, hlength, hms⟩ := hcampaign.exists_messages
  have hassembled := assembled_sample
  rw [← hquorum] at hassembled
  have hroomy : ∀ x ∈ sampleStations, x.Roomy ms := by
    have hroom : ms.length ≤ 1000 := hlength.trans (by decide)
    intro x hx
    rcases List.mem_pair.1 hx with rfl | rfl <;> exact .fresh rfl hroom
  have hkeep := (hroomy (sampleStation sampleSigner) (List.mem_cons_self ..)).retains
    (hms sampleRequest first .request) 0
  have hx : sampleStations[0]? = some (sampleStation sampleSigner) := rfl
  obtain ⟨x, d, hstep, _⟩ := hassembled.inject hcampaign hms hx hkeep
  obtain ⟨events, net, hrun, hidle⟩ :=
    (Gossip.inject 0 hx hkeep hstep).exists_idle hcampaign hms hassembled hroomy
  obtain ⟨hashes, hhashes, hgathered⟩ := no_signature_lost petition_sample assembled_sample
    (fun _ _ => joined_sample) hrun
  refine ⟨_, net, hashes, petition_sample, assembled_sample, hrun, hhashes, hgathered, hidle,
    fun x hx => ?_⟩
  cases spendHashes_sample.symm.trans hhashes
  obtain ⟨r, hr, _, _, hsignatures, hcomplete⟩ := hgathered.holds hidle x hx
  refine ⟨r, hr, hcomplete.2 (.inl ⟨sampleKeyPath, by simp, rfl⟩), fun l hl => ?_⟩
  exact (hsignatures l.slot _).2 ⟨l, hl, rfl, signs_sample l hl⟩

end SignetFederation
