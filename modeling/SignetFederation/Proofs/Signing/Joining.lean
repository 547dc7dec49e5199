import SignetFederation.Proofs.Signing.Confluence
import SignetFederation.Proofs.Signing.Sessions

/-!
# The order in which PSBTs join a session

The first PSBT of a nonce opens the session, the later ones are merged into it. Only the first one is
asked for the output that it spends, for its internal key and for its control block, and its spent
output decides which messages all signatures have to sign. Apart from that the order does not
matter: PSBTs are all taken exactly if the first one opens a session and together they fit it
(`startAll_ok_iff`), and what they leave depends only on what they carry. So another order is taken
as well if its first PSBT opens a session for the same output, and it leaves the same session
(`startAll_confluent`).
-/

namespace SignetFederation

/-! ## What opens a session -/

namespace Round

variable {q : Quorum} {p : Psbt} {hashes hashes' : Sighashes} {t : Transaction} {ps ps' : List Psbt}

/-- A PSBT that the quorum accepts as the first one, and the messages that signatures then sign. -/
def Opens (q : Quorum) (p : Psbt) (hashes : Sighashes) : Prop :=
  ∃ base, q.update p = .ok base ∧ q.sighashes base = .ok hashes

/-- The messages follow from the transaction and the output that the PSBT spends. -/
theorem opens_of_update {base : Psbt} {i : Psbt.Input} {spent : TxOut}
    (hbase : q.update p = .ok base) (honly : p.onlyInput = .ok (i, spent)) :
    Opens q p ⟨Taproot.sighash p.unsigned [spent] 0 none,
      Taproot.sighash p.unsigned [spent] 0 (some q.leafHash)⟩ := by
  refine ⟨base, hbase, ?_⟩
  obtain ⟨i', spent', honly', _, _, _, rfl⟩ := Quorum.update_eq_ok_iff.1 hbase
  cases honly.symm.trans honly'
  obtain ⟨_, placed, hplaced, hspent⟩ := Psbt.onlyInput_eq_ok_iff.1 honly
  have hfilled : (q.fillInput i spent).spent? placed.previous.vout = some spent := by
    rw [Psbt.Input.spent?, Quorum.spentOutput_fillInput hspent]
  exact Quorum.sighashes_of_onlyInput
    (Psbt.onlyInput_eq_ok_iff.2 ⟨rfl, placed, hplaced, hfilled⟩)

theorem Opens.unique (h : Opens q p hashes) (h' : Opens q p hashes') : hashes = hashes' := by
  obtain ⟨base, hbase, hh⟩ := h
  obtain ⟨base', hbase', hh'⟩ := h'
  cases hbase.symm.trans hbase'
  exact Except.ok.inj (hh.symm.trans hh')

/-- A round starts exactly with a PSBT that opens one and is not faulty. -/
theorem start_ok_iff :
    (∃ r, start q p = .ok r ∧ r.hashes = hashes) ↔
      Opens q p hashes ∧ ∃ i, p.inputs = [i] ∧ ¬ Faulty q hashes i := by
  constructor
  · rintro ⟨r, hstart, rfl⟩
    obtain ⟨i, h⟩ := started_of_start hstart
    obtain ⟨base, hbase, hrest⟩ := h.prepared
    exact ⟨⟨base, hbase, Quorum.sighashes_congr hrest.symm h.hashes⟩, i, h.inputs, h.faultless⟩
  · rintro ⟨⟨base, hbase, hhashes⟩, i, hi, hclean⟩
    have hblank : ∀ slot, (unsigned q (withoutSignatures base) hashes).signature? slot = none :=
      signature?_unsigned q _ _
    have htransaction : p.unsigned = (unsigned q (withoutSignatures base) hashes).psbt.unsigned := by
      obtain ⟨_, _, _, _, _, _, rfl⟩ := Quorum.update_eq_ok_iff.1 hbase
      rfl
    -- nothing is held yet, so what the input brings cannot be at odds with anything
    have hsound : ∀ slot s, (unsigned q (withoutSignatures base) hashes).signature? slot = some s →
        Good q hashes slot s := by simp [hblank]
    have htaken : ((unsigned q (withoutSignatures base) hashes).takeAll (contributions q i)).2 =
        .ok () := by
      refine (takeAll_ok_iff hsound).2 ⟨forall_contributions_iff.2 hclean, fun slot s s' hs hs' => ?_⟩
      simp only [Holds, hblank, ok_mem_contributions_iff, reduceCtorEq, false_or] at hs hs'
      exact hs.unique hs'
    obtain ⟨state, hstate⟩ := (Consistent.exists_merge_ok_iff rfl htransaction hi).2 htaken
    have hext := merge_extends (unsigned q (withoutSignatures base) hashes) p
    refine ⟨((unsigned q (withoutSignatures base) hashes).merge p).1, ?_, hext.hashes⟩
    unfold start
    refine bind_eq_ok_iff.2 ⟨base, hbase, bind_eq_ok_iff.2 ⟨hashes, hhashes, ?_⟩⟩
    rw [← Prod.eta ((unsigned q (withoutSignatures base) hashes).merge p), hstate]
    rfl

/-! ## PSBTs that fit together -/

/-- PSBTs for one transaction that are not faulty and whose signatures are not at odds. -/
structure Fit (q : Quorum) (hashes : Sighashes) (t : Transaction) (ps : List Psbt) : Prop where
  clean : ∀ p ∈ ps, ∃ i, Concerns t p i ∧ ¬ Faulty q hashes i
  agree : ¬ Conflict q hashes t ps

theorem Offered.congr (h : ∀ p, p ∈ ps ↔ p ∈ ps') {slot : Slot} {s : TapSignature} :
    Offered q t ps slot s ↔ Offered q t ps' slot s := by
  simp only [Offered, h]

theorem Fit.congr (h : ∀ p, p ∈ ps ↔ p ∈ ps') (hfit : Fit q hashes t ps) : Fit q hashes t ps' where
  clean p hp := hfit.clean p ((h p).2 hp)
  agree hconflict := hfit.agree (by simpa only [Conflict, Offered.congr h] using hconflict)

theorem Fit.good (h : Fit q hashes t ps) {slot : Slot} {s : TapSignature}
    (hs : Offered q t ps slot s) : Good q hashes slot s := by
  obtain ⟨p, hp, i, hi, hb⟩ := hs
  obtain ⟨i', hi', hclean⟩ := h.clean p hp
  cases hi.2.symm.trans hi'.2
  exact not_not.1 fun hbad => hclean (.inr (.inr ⟨slot, s, hb, hbad⟩))

/-- PSBTs fit other messages as well exactly if their signatures are good for those. -/
theorem Fit.iff_good (h : Fit q hashes t ps) :
    Fit q hashes' t ps ↔ ∀ slot s, Offered q t ps slot s → Good q hashes' slot s := by
  refine ⟨fun h' slot s hs => h'.good hs, fun hgood => ⟨fun p hp => ?_, ?_⟩⟩
  · obtain ⟨i, hi, hclean⟩ := h.clean p hp
    refine ⟨i, hi, ?_⟩
    rintro (hscript | hforeign | ⟨slot, s, hb, hbad⟩)
    · exact hclean (.inl hscript)
    · exact hclean (.inr (.inl hforeign))
    · exact hbad (hgood slot s ⟨p, hp, i, hi, hb⟩)
  · rintro ⟨slot, s, s', hne, _, _, hs, hs'⟩
    exact h.agree ⟨slot, s, s', hne, h.good hs, h.good hs', hs, hs'⟩

/-- The state of an active round follows from its signatures. -/
theorem state_congr {r r' : Round} (hq : r.quorum = r'.quorum) (hr : r.failure = none)
    (hr' : r'.failure = none) (h : ∀ slot, r.signature? slot = r'.signature? slot) :
    r.state = r'.state := by
  have hkey : r.keyPath = r'.keyPath := h .keyPath
  have hheld : ∀ key, key ∈ r.heldKeys ↔ key ∈ r'.heldKeys := by
    intro key
    simp only [mem_heldKeys_iff, hq, h]
  have hcount : r.scriptCount = r'.scriptCount := by
    rw [← length_heldKeys, ← length_heldKeys]
    exact ((List.perm_ext_iff_of_nodup r.nodup_heldKeys r'.nodup_heldKeys).2 hheld).length_eq
  unfold state isComplete signatureCount
  rw [hr, hr', hkey, hcount, hq]

/-! ## PSBTs merged one after another -/

/-- A merge into an active round is taken exactly if the PSBT is for its transaction and the round
stays active. -/
theorem merge_taken_iff {r : Round} (hactive : r.failure = none) (p : Psbt) :
    (∃ state, (r.merge p).2 = .ok state) ↔
      (∃ i, Concerns r.psbt.unsigned p i) ∧ (r.merge p).1.failure = none := by
  constructor
  · rintro ⟨state, hstate⟩
    refine ⟨?_, (state_of_merge_ok hstate).2⟩
    unfold merge at hstate
    simp only [hactive] at hstate
    split at hstate
    · cases hstate
    · next hp =>
      split at hstate
      · cases hstate
      · next i rest hi => exact ⟨i, not_not.1 hp, by rw [hi]; rfl⟩
  · rintro ⟨⟨i, hp, hi⟩, hfailure⟩
    obtain ⟨rest, hinputs⟩ : ∃ rest, p.inputs = i :: rest :=
      ⟨_, (List.cons_head?_tail hi).symm⟩
    have hrow : r.contributed p = contributions r.quorum i := by
      rw [contributed, if_pos hp, hi]
      rfl
    rw [merge_fst hactive, hrow, takeAll_failure hactive] at hfailure
    exact (Consistent.exists_merge_ok_iff hactive hp hinputs).2 hfailure

end Round

namespace Sessions

open Round

variable {s final : Sessions} {nonce : UInt64}

/-- Starts PSBTs one after another, as long as each is taken. -/
def startAll (s : Sessions) (nonce : UInt64) : List Psbt → Except Error Sessions
  | [] => .ok s
  | p :: ps =>
    match s.start nonce p with
    | (s, .ok _) => startAll s nonce ps
    | (_, .error why) => .error why

theorem startAll_cons_eq_ok_iff {p : Psbt} {ps : List Psbt} :
    s.startAll nonce (p :: ps) = .ok final ↔
      (∃ state, (s.start nonce p).2 = .ok state) ∧
        (s.start nonce p).1.startAll nonce ps = .ok final := by
  rw [startAll]
  generalize s.start nonce p = started
  obtain ⟨s', answer⟩ := started
  cases answer <;> simp

/-- What is left of a session when PSBTs are merged into it. -/
theorem startAll_of_some {r : Round} {ps : List Psbt} (hr : s.get? nonce = some r)
    (hactive : r.failure = none) :
    ((∃ final, s.startAll nonce ps = .ok final) ↔
      (∀ p ∈ ps, ∃ i, Concerns r.psbt.unsigned p i) ∧ (r.mergeAll ps).failure = none) ∧
    ∀ final, s.startAll nonce ps = .ok final → final.get? nonce = some (r.mergeAll ps) ∧
      ∀ nonce' ≠ nonce, final.get? nonce' = s.get? nonce' := by
  induction ps generalizing s r with
  | nil =>
    refine ⟨⟨fun _ => ⟨by simp, hactive⟩, fun _ => ⟨s, rfl⟩⟩, ?_⟩
    rintro _ ⟨⟩
    exact ⟨hr, fun _ _ => rfl⟩
  | cons p ps ih =>
    have hext := merge_extends r p
    have hall : r.mergeAll (p :: ps) = (r.merge p).1.mergeAll ps := rfl
    simp only [startAll_cons_eq_ok_iff, start_of_some hr, exists_and_left, List.forall_mem_cons,
      merge_taken_iff hactive, hall]
    cases hfailure : (r.merge p).1.failure with
    | none =>
      obtain ⟨hiff, hend⟩ := ih (s := s.withSession nonce (r.merge p).1) get?_withSession_self hfailure
      refine ⟨?_, ?_⟩
      · rw [hiff, hext.unsigned, eq_self, and_true, and_assoc]
      · rintro final ⟨_, hfinal⟩
        obtain ⟨hself, hothers⟩ := hend final hfinal
        refine ⟨hself, fun nonce' hne => ?_⟩
        rw [hothers nonce' hne, get?_withSession, if_neg hne]
    | some reason =>
      rw [mergeAll_of_failed hfailure, hfailure]
      simp

/-! ## PSBTs that open a session -/

/-- What a new session holds after PSBTs that were all taken. -/
structure Gathered (s final : Sessions) (nonce : UInt64) (t : Transaction) (ps : List Psbt)
    (r : Round) : Prop where
  session : final.get? nonce = some r
  others : ∀ nonce' ≠ nonce, final.get? nonce' = s.get? nonce'
  quorum : r.quorum = s.quorum
  active : r.failure = none
  signatures : ∀ slot sig, r.signature? slot = some sig ↔ Offered s.quorum t ps slot sig

theorem startAll_eq_ok_iff_of_none {p : Psbt} {ps : List Psbt} (hnew : s.get? nonce = none) :
    s.startAll nonce (p :: ps) = .ok final ↔ ∃ r, Round.start s.quorum p = .ok r ∧
      (s.withSession nonce r).startAll nonce ps = .ok final := by
  rw [startAll_cons_eq_ok_iff]
  cases hstart : Round.start s.quorum p with
  | ok r => simp [start_of_none hnew hstart]
  | error why =>
    have herror : s.start nonce p = (s, .error why) := by
      unfold start
      rw [hnew]
      simp only [hstart]
    simp [herror]

/-- **PSBTs are all taken** exactly if the first one opens a session and all of them fit it. -/
theorem startAll_ok_iff {p : Psbt} {ps : List Psbt} (hnew : s.get? nonce = none) :
    (∃ final, s.startAll nonce (p :: ps) = .ok final) ↔
      ∃ hashes, Opens s.quorum p hashes ∧ Fit s.quorum hashes p.unsigned (p :: ps) := by
  simp only [startAll_eq_ok_iff_of_none hnew]
  constructor
  · rintro ⟨final, r, hstart, hfinal⟩
    obtain ⟨hopens, _⟩ := start_ok_iff.1 ⟨r, hstart, rfl⟩
    obtain ⟨i', h⟩ := started_of_start hstart
    obtain ⟨hconcern, hactive⟩ := (startAll_of_some get?_withSession_self h.active).1.1 ⟨final, hfinal⟩
    obtain ⟨hps, hagree⟩ := (h.not_failed_mergeAll_iff ps).1 (not_failed_iff.2 hactive)
    refine ⟨r.hashes, hopens, List.forall_mem_cons.2 ⟨⟨i', h.concerns, h.faultless⟩, ?_⟩, hagree⟩
    intro p' hp'
    obtain ⟨j, hj⟩ := hconcern p' hp'
    rw [h.transaction] at hj
    exact ⟨j, hj, hps p' hp' j hj⟩
  · rintro ⟨hashes, hopens, hfit⟩
    obtain ⟨i, hi, hclean⟩ := hfit.clean p List.mem_cons_self
    obtain ⟨base, hbase, _⟩ := id hopens
    obtain ⟨j, _, honly, _⟩ := Quorum.update_eq_ok_iff.1 hbase
    obtain ⟨hj, _⟩ := Psbt.onlyInput_eq_ok_iff.1 honly
    obtain rfl : j = i := Option.some.inj (by rw [← hi.2, hj]; rfl)
    obtain ⟨r, hstart, rfl⟩ := start_ok_iff.2 ⟨hopens, j, hj, hclean⟩
    obtain ⟨j', h⟩ := started_of_start hstart
    have hactive : (r.mergeAll ps).failure = none := by
      refine not_failed_iff.1 ((h.not_failed_mergeAll_iff ps).2 ⟨fun p' hp' k hk => ?_, hfit.agree⟩)
      obtain ⟨k', hk', hclean'⟩ := hfit.clean p' (List.mem_cons_of_mem p hp')
      cases hk.2.symm.trans hk'.2
      exact hclean'
    have hconcern : ∀ p' ∈ ps, ∃ k, Concerns r.psbt.unsigned p' k := by
      intro p' hp'
      obtain ⟨k, hk, _⟩ := hfit.clean p' (List.mem_cons_of_mem p hp')
      rw [h.transaction]
      exact ⟨k, hk⟩
    obtain ⟨final, hfinal⟩ :=
      (startAll_of_some get?_withSession_self h.active).1.2 ⟨hconcern, hactive⟩
    exact ⟨final, r, hstart, hfinal⟩

theorem exists_gathered {p : Psbt} {ps : List Psbt} (hnew : s.get? nonce = none)
    (hok : s.startAll nonce (p :: ps) = .ok final) :
    ∃ r, Gathered s final nonce p.unsigned (p :: ps) r := by
  obtain ⟨r, hstart, hfinal⟩ := (startAll_eq_ok_iff_of_none hnew).1 hok
  obtain ⟨i, h⟩ := started_of_start hstart
  have hr : (s.withSession nonce r).get? nonce = some r := get?_withSession_self
  obtain ⟨hself, hothers⟩ := (startAll_of_some hr h.active).2 final hfinal
  have hactive := ((startAll_of_some hr h.active).1.1 ⟨final, hfinal⟩).2
  refine ⟨r.mergeAll ps, hself, fun nonce' hne => ?_, (mergeAll_extends r ps).quorum.trans h.quorum,
    hactive, h.signature?_mergeAll (not_failed_iff.2 hactive)⟩
  rw [hothers nonce' hne, get?_withSession, if_neg hne]

/-! ## Two orders -/

/-- A PSBT opens a session for the output that another one spends. -/
def OpensLike (q : Quorum) (p p' : Psbt) : Prop :=
  ∃ base i i' spent, q.update p' = .ok base ∧ p.onlyInput = .ok (i, spent) ∧
    p'.onlyInput = .ok (i', spent)

/-- Two ends of a session that differ neither in its state nor in its signatures, and that left the
sessions of other nonces as they were. -/
structure SameEnd (s final final' : Sessions) (nonce : UInt64) : Prop where
  state : (final.get? nonce).map Round.state = (final'.get? nonce).map Round.state
  signatures : ∀ slot, (final.get? nonce).bind (fun r => r.signature? slot) =
    (final'.get? nonce).bind fun r => r.signature? slot
  others : ∀ nonce' ≠ nonce, final.get? nonce' = s.get? nonce' ∧ final'.get? nonce' = s.get? nonce'

theorem Gathered.sameEnd {final' : Sessions} {t : Transaction} {ps ps' : List Psbt} {r r' : Round}
    (h : Gathered s final nonce t ps r) (h' : Gathered s final' nonce t ps' r')
    (hsame : ∀ p, p ∈ ps ↔ p ∈ ps') : SameEnd s final final' nonce := by
  have hsignatures : ∀ slot, r.signature? slot = r'.signature? slot := fun slot =>
    Option.ext fun sig => by rw [h.signatures, h'.signatures, Offered.congr hsame]
  refine ⟨?_, fun slot => ?_, fun nonce' hne => ⟨h.others nonce' hne, h'.others nonce' hne⟩⟩
  · rw [h.session, h'.session, Option.map_some, Option.map_some,
      state_congr (h.quorum.trans h'.quorum.symm) h.active h'.active hsignatures]
  · rw [h.session, h'.session, Option.bind_some, Option.bind_some, hsignatures]

/-- **The order in which PSBTs join a session** matters only through the first one. When all are
taken in one order, they are taken in another exactly if the PSBT that comes first there opens a
session and the signatures of all are good for its messages; so it is if it opens a session for the
output that the first PSBT of the one order spends. In every order in which all are taken the session
ends with the same state and the same signatures, and other sessions stay as they were. -/
theorem startAll_confluent {ps ps' : List Psbt} (hnew : s.get? nonce = none) (hperm : ps.Perm ps')
    (hok : s.startAll nonce ps = .ok final) :
    ((∃ final', s.startAll nonce ps' = .ok final') ↔ ∀ p' ∈ ps'.head?, ∃ hashes,
      Opens s.quorum p' hashes ∧
        ∀ slot sig, Offered s.quorum p'.unsigned ps' slot sig → Good s.quorum hashes slot sig) ∧
    ((∀ p ∈ ps.head?, ∀ p' ∈ ps'.head?, OpensLike s.quorum p p') →
      ∃ final', s.startAll nonce ps' = .ok final') ∧
    ∀ final', s.startAll nonce ps' = .ok final' → SameEnd s final final' nonce := by
  cases ps with
  | nil =>
    obtain rfl := List.nil_perm.1 hperm
    cases hok
    refine ⟨⟨fun _ => by simp, fun _ => ⟨s, rfl⟩⟩, fun _ => ⟨s, rfl⟩, ?_⟩
    rintro _ ⟨⟩
    exact ⟨rfl, fun _ => rfl, fun _ _ => ⟨rfl, rfl⟩⟩
  | cons p rest =>
    obtain ⟨p', rest', rfl⟩ : ∃ p' rest', ps' = p' :: rest' :=
      List.exists_cons_of_ne_nil fun h => by
        rw [h] at hperm
        exact List.cons_ne_nil p rest hperm.eq_nil
    have hsame : ∀ a, a ∈ p :: rest ↔ a ∈ p' :: rest' := fun a => hperm.mem_iff
    obtain ⟨hashes, hopens, hfit⟩ := (startAll_ok_iff hnew).1 ⟨final, hok⟩
    obtain ⟨i, hi, _⟩ := hfit.clean p' ((hsame p').2 List.mem_cons_self)
    have htransaction : p'.unsigned = p.unsigned := hi.1
    have hfit' : Fit s.quorum hashes p'.unsigned (p' :: rest') := htransaction ▸ hfit.congr hsame
    have htaken : (∃ final', s.startAll nonce (p' :: rest') = .ok final') ↔ ∃ hashes',
        Opens s.quorum p' hashes' ∧ ∀ slot sig,
          Offered s.quorum p'.unsigned (p' :: rest') slot sig → Good s.quorum hashes' slot sig := by
      rw [startAll_ok_iff hnew]
      exact exists_congr fun hashes' => and_congr_right fun _ => hfit'.iff_good
    refine ⟨?_, fun hlike => ?_, fun final' hok' => ?_⟩
    · rw [htaken]
      simp
    · obtain ⟨base, j, j', spent, hbase, honly, honly'⟩ := hlike p rfl p' rfl
      obtain ⟨base₀, hbase₀, _⟩ := id hopens
      have hopens' := opens_of_update hbase honly'
      rw [htransaction, ← hopens.unique (opens_of_update hbase₀ honly)] at hopens'
      exact htaken.2 ⟨hashes, hopens', fun slot sig hsig => hfit'.good hsig⟩
    · obtain ⟨r, hr⟩ := exists_gathered hnew hok
      obtain ⟨r', hr'⟩ := exists_gathered hnew hok'
      rw [htransaction] at hr'
      exact hr.sameEnd hr' hsame

/-! ## Orders of sample PSBTs -/

/-- The sample PSBT without the output that it spends. -/
def bareSamplePsbt : Psbt := { samplePsbt with inputs := [Psbt.Input.blank] }

/-- The sample PSBT with another amount in the output that it spends. -/
def otherAmountPsbt : Psbt :=
  { samplePsbt with
    inputs := [{ Psbt.Input.blank with spentOutput := some ⟨1, Quorum.sample.challenge⟩ }] }

/-- Why PSBTs are not all taken. -/
def startAllFault (s : Sessions) (nonce : UInt64) (ps : List Psbt) : Option Error :=
  match s.startAll nonce ps with
  | .ok _ => none
  | .error why => some why

theorem startAllFault_eq_none_iff {ps : List Psbt} :
    s.startAllFault nonce ps = none ↔ ∃ final, s.startAll nonce ps = .ok final := by
  unfold startAllFault
  cases s.startAll nonce ps <;> simp

theorem startAll_confluent_sample : ∃ final final',
    (empty .sample).startAll 7 [samplePsbt, signedSamplePsbt] = .ok final ∧
      (empty .sample).startAll 7 [signedSamplePsbt, samplePsbt] = .ok final' ∧
      SameEnd (empty .sample) final final' 7 := by
  have hnew : (empty .sample).get? 7 = none := SortedMap.get?_empty 7
  obtain ⟨final, hfinal⟩ := startAllFault_eq_none_iff.1
    (show (empty .sample).startAllFault 7 [samplePsbt, signedSamplePsbt] = none by decide +kernel)
  obtain ⟨_, hlike, hend⟩ := startAll_confluent hnew (.swap signedSamplePsbt samplePsbt []) hfinal
  obtain ⟨base, hbase⟩ : ∃ base, (empty .sample).quorum.update signedSamplePsbt = .ok base :=
    ⟨_, rfl⟩
  obtain ⟨final', hfinal'⟩ := hlike <| by
    rintro _ ⟨⟩ _ ⟨⟩
    exact ⟨base, _, _, ⟨0, Quorum.sample.challenge⟩, hbase, rfl, rfl⟩
  exact ⟨final, final', hfinal, hfinal', hend final' hfinal'⟩

/-- A PSBT without its spent output is taken when it joins a session, but cannot open one; and one
with another amount makes the messages different ones when it comes first. -/
theorem startAll_order :
    (∃ final, (empty .sample).startAll 7 [samplePsbt, bareSamplePsbt] = .ok final) ∧
      (¬ ∃ final, (empty .sample).startAll 7 [bareSamplePsbt, samplePsbt] = .ok final) ∧
      (∃ final, (empty .sample).startAll 7 [samplePsbt, otherAmountPsbt, signedSamplePsbt] =
        .ok final) ∧
      ¬ ∃ final, (empty .sample).startAll 7 [otherAmountPsbt, samplePsbt, signedSamplePsbt] =
        .ok final := by
  simp only [← startAllFault_eq_none_iff]
  have hbare : (empty .sample).startAllFault 7 [bareSamplePsbt, samplePsbt] =
      some (.psbt .noSpentOutput) := by decide +kernel
  have hother : (empty .sample).startAllFault 7 [otherAmountPsbt, samplePsbt, signedSamplePsbt] =
      some (.invalidSignature (.script 0) .unverified) := by decide +kernel
  refine ⟨by decide +kernel, ?_, by decide +kernel, ?_⟩
  · rw [hbare]
    exact nofun
  · rw [hother]
    exact nofun

end Sessions

end SignetFederation
