import SignetFederation.Proofs.Signing.Confluence
import SignetFederation.Proofs.Signing.LocalSigner
import SignetFederation.Signet.Spend

/-!
# Rounds among honest signers

A round is started without signatures, and only signers of its quorum, each for a slot of its own,
add theirs. What such a round holds then says which round it is (`Honest.eq_of_slots`). A round that
is started with the PSBT of another one is that round (`Honest.start_eq`), and merging a PSBT never
fails and joins the signatures (`Honest.exists_merge`). When all have signed, who they are says
whether the round is complete (`Honest.state_eq_complete_iff`).
-/

namespace SignetFederation

namespace Round

/-! ## Starting a round -/

/-- A round starts if the PSBT can be prepared and merged into the round without signatures. -/
theorem start_of_merge {q : Quorum} {p base : Psbt} {hashes : Sighashes} {r : Round}
    {state : RoundState} (hbase : q.update p = .ok base)
    (hhashes : q.sighashes base = .ok hashes)
    (hmerge : (unsigned q (withoutSignatures base) hashes).merge p = (r, .ok state)) :
    start q p = .ok r := by
  unfold start
  refine bind_eq_ok_iff.2 ⟨base, hbase, bind_eq_ok_iff.2 ⟨hashes, hhashes, ?_⟩⟩
  rw [hmerge]
  rfl

/-- A PSBT whose input carries nothing changes nothing. -/
theorem merge_of_no_contributions {r : Round} {p : Psbt} {i : Psbt.Input} {rest : List Psbt.Input}
    (hactive : r.failure = none) (hp : p.unsigned = r.psbt.unsigned) (hi : p.inputs = i :: rest)
    (hnone : contributions r.quorum i = []) : r.merge p = (r, .ok r.state) := by
  have htake : r.takeAll (contributions r.quorum i) = (r, .ok ()) := by
    rw [hnone]
    rfl
  unfold merge
  rw [if_neg (not_not.2 hp), hi]
  simp only [hactive, htake]

/-! ## Panels and honest rounds -/

/-- Some signers of a quorum before a round without signatures: no two of them are for one slot, and
the signature that each of them makes over the round's messages is good. -/
structure Panel (first : Round) (signers : List LocalSigner) : Prop where
  unsigned : first = unsigned first.quorum (withoutSignatures first.psbt) first.hashes
  consistent : first.Consistent
  members : ∀ l ∈ signers, l.quorum = first.quorum
  slots : (signers.map LocalSigner.slot).Nodup
  able : ∀ l ∈ signers, ∃ s, l.Signs first.hashes s ∧ Good first.quorum first.hashes l.slot s

/-- A later form of a round that holds only what the signers signed. -/
structure Honest (first : Round) (signers : List LocalSigner) (r : Round) : Prop where
  later : Extends first r
  active : r.failure = none
  made : ∀ slot s, r.signature? slot = some s →
    ∃ l ∈ signers, l.slot = slot ∧ l.Signs first.hashes s

variable {first r r' : Round} {signers : List LocalSigner}

namespace Panel

variable (h : Panel first signers)

include h

theorem eq_of_slot {l l' : LocalSigner} (hl : l ∈ signers) (hl' : l' ∈ signers)
    (hslot : l.slot = l'.slot) : l = l' :=
  List.inj_on_of_nodup_map h.slots hl hl' hslot

theorem keyFor_slot {l : LocalSigner} (hl : l ∈ signers) :
    first.quorum.keyFor l.slot = some l.publicKey := h.members l hl ▸ l.occupies

theorem signature?_first (slot : Slot) : first.signature? slot = none := by
  rw [h.unsigned]
  exact signature?_unsigned _ _ _ slot

theorem active_first : first.failure = none := by
  rw [h.unsigned]
  rfl

theorem honest_first : Honest first signers first where
  later := .refl first
  active := h.active_first
  made slot s hs := by
    rw [h.signature?_first] at hs
    cases hs

end Panel

namespace Honest

theorem consistent (h : Panel first signers) (hr : Honest first signers r) : r.Consistent :=
  h.consistent.extends hr.later

/-- With more signers a round stays honest. -/
theorem mono {ls : List LocalSigner} (hr : Honest first ls r) (hsub : ls ⊆ signers) :
    Honest first signers r where
  later := hr.later
  active := hr.active
  made slot s hs := (hr.made slot s hs).imp fun _ h => ⟨hsub h.1, h.2⟩

/-- Honest rounds do not differ about a slot that both have filled. -/
theorem agree (h : Panel first signers) (hr : Honest first signers r)
    (hr' : Honest first signers r') {slot : Slot} {s s' : TapSignature}
    (hs : r.signature? slot = some s) (hs' : r'.signature? slot = some s') : s = s' := by
  obtain ⟨l, hl, rfl, hsigns⟩ := hr.made slot s hs
  obtain ⟨l', hl', hslot, hsigns'⟩ := hr'.made l.slot s' hs'
  cases h.eq_of_slot hl' hl hslot
  exact hsigns.unique hsigns'

/-- An honest round is known by the slots that it has filled. -/
theorem eq_of_slots (h : Panel first signers) (hr : Honest first signers r)
    (hr' : Honest first signers r')
    (hslots : ∀ slot, (r.signature? slot).isSome = (r'.signature? slot).isSome) : r = r' := by
  refine hr.later.eq_of_signature? h.consistent.inStep hr'.later
    (hr.active.trans hr'.active.symm) fun slot s => ?_
  have hslot := hslots slot
  cases hs : r.signature? slot with
  | none =>
    rw [hs] at hslot
    cases hs' : r'.signature? slot with
    | none => rfl
    | some s' =>
      rw [hs'] at hslot
      cases hslot
  | some s₁ =>
    rw [hs] at hslot
    cases hs' : r'.signature? slot with
    | none =>
      rw [hs'] at hslot
      cases hslot
    | some s₂ => rw [hr.agree h hr' hs hs']

/-- What an honest round becomes by signatures of honest signers is honest. -/
theorem of_extends (hr : Honest first signers r) (hext : Extends r r') (hactive : r'.failure = none)
    (hmade : ∀ slot s, r'.signature? slot = some s → r.signature? slot = some s ∨
      ∃ l ∈ signers, l.slot = slot ∧ l.Signs first.hashes s) : Honest first signers r' where
  later := hr.later.trans hext
  active := hactive
  made slot s hs := (hmade slot s hs).elim (hr.made slot s) id

end Honest

/-! ## Filling slots -/

/-- The round with the signatures of some signers. -/
def fillAll (signature : LocalSigner → TapSignature) (r : Round) (ls : List LocalSigner) : Round :=
  ls.foldl (fun r l => r.fill (signature l) l.slot) r

namespace Honest

variable {signature : LocalSigner → TapSignature}

/-- A signer fills its free slot. -/
theorem fill (h : Panel first signers) (hr : Honest first signers r) {l : LocalSigner}
    (hl : l ∈ signers) (hfree : r.signature? l.slot = none) {s : TapSignature}
    (hs : l.Signs first.hashes s) : Honest first signers (r.fill s l.slot) ∧
      ∀ slot, ((r.fill s l.slot).signature? slot).isSome = true ↔
        l.slot = slot ∨ (r.signature? slot).isSome = true := by
  obtain ⟨s', hs', hgood⟩ := h.able l hl
  cases hs.unique hs'
  rw [← hr.later.quorum, ← hr.later.hashes] at hgood
  obtain ⟨key, hkey⟩ := hgood.keyFor
  have hactive : (r.fill s l.slot).failure = none := by
    rw [fill_failure]
    exact hr.active
  refine ⟨hr.of_extends (.fill hfree hgood) hactive fun slot s' hs' => ?_, fun slot => ?_⟩
  · rw [signature?_fill r s l.slot hkey] at hs'
    split at hs'
    · next hslot =>
      cases hs'
      exact .inr ⟨l, hl, hslot.symm, hs⟩
    · exact .inl hs'
  · rw [signature?_fill r s l.slot hkey]
    by_cases hslot : slot = l.slot
    · simp [hslot]
    · simp [hslot, Ne.symm hslot]

theorem fillAll (h : Panel first signers) (hr : Honest first signers r)
    (hsigns : ∀ l ∈ signers, l.Signs first.hashes (signature l)) {ls : List LocalSigner}
    (hls : ∀ l ∈ ls, l ∈ signers) (hslots : (ls.map LocalSigner.slot).Nodup)
    (hfree : ∀ l ∈ ls, r.signature? l.slot = none) :
    Honest first signers (r.fillAll signature ls) ∧
      ∀ slot, ((r.fillAll signature ls).signature? slot).isSome = true ↔
        (∃ l ∈ ls, l.slot = slot) ∨ (r.signature? slot).isSome = true := by
  induction ls generalizing r with
  | nil => exact ⟨hr, fun slot => by simp [Round.fillAll]⟩
  | cons l ls ih =>
    obtain ⟨hnew, hnodup⟩ := List.nodup_cons.1 hslots
    obtain ⟨hfilled, hsome⟩ := hr.fill h (hls l (List.mem_cons_self ..))
      (hfree l (List.mem_cons_self ..)) (hsigns l (hls l (List.mem_cons_self ..)))
    obtain ⟨hall, hslot⟩ := ih hfilled (fun l' hl' => hls l' (List.mem_cons_of_mem l hl')) hnodup
      fun l' hl' => Option.not_isSome_iff_eq_none.1 fun hfull => by
        rcases (hsome l'.slot).1 hfull with heq | hbefore
        · exact hnew (heq ▸ List.mem_map_of_mem hl')
        · rw [hfree l' (List.mem_cons_of_mem l hl')] at hbefore
          cases hbefore
    refine ⟨hall, fun slot => (hslot slot).trans ?_⟩
    rw [hsome, List.exists_mem_cons_iff, ← or_assoc, or_comm (b := l.slot = slot)]

/-- An honest round is the first one with the signatures of some of the signers. -/
theorem exists_sublist (h : Panel first signers) (hr : Honest first signers r)
    (hsigns : ∀ l ∈ signers, l.Signs first.hashes (signature l)) :
    ∃ ls, ls.Sublist signers ∧ r = first.fillAll signature ls := by
  have hsub : (signers.filter fun l => (r.signature? l.slot).isSome).Sublist signers :=
    List.filter_sublist
  refine ⟨_, hsub, ?_⟩
  obtain ⟨hall, hslot⟩ := h.honest_first.fillAll h hsigns (fun _ hl => hsub.subset hl)
    (h.slots.sublist (hsub.map LocalSigner.slot)) fun l _ => h.signature?_first l.slot
  refine hr.eq_of_slots h hall fun slot => Bool.eq_iff_iff.2 ?_
  rw [hslot, h.signature?_first]
  simp only [Option.isSome_none, Bool.false_eq_true, or_false, List.mem_filter]
  constructor
  · intro hsome
    obtain ⟨s, hs⟩ := Option.isSome_iff_exists.1 hsome
    obtain ⟨l, hl, rfl, _⟩ := hr.made slot s hs
    exact ⟨l, ⟨hl, hsome⟩, rfl⟩
  · rintro ⟨l, ⟨_, hsome⟩, rfl⟩
    exact hsome

/-! ## Starting and merging -/

/-- A PSBT that starts an honest round merges into any other one: it adds what that round holds. -/
theorem exists_merge (h : Panel first signers) (hr : Honest first signers r)
    (hr' : Honest first signers r') {p : Psbt} (hp : start first.quorum p = .ok r') :
    ∃ r'' state, r.merge p = (r'', .ok state) ∧ Honest first signers r'' ∧
      ∀ slot s, r''.signature? slot = some s ↔
        r.signature? slot = some s ∨ r'.signature? slot = some s := by
  obtain ⟨i, hstarted⟩ := started_of_start hp
  have hcons := hr.consistent h
  have hbrings : ∀ slot s, Brings r.quorum i slot s ↔ r'.signature? slot = some s := by
    intro slot s
    rw [hr.later.quorum, hstarted.signatures]
  have hclean : ¬ Faulty r.quorum r.hashes i := by
    rw [hr.later.quorum, hr.later.hashes, ← hr'.later.hashes]
    exact hstarted.faultless
  have hunsigned : p.unsigned = r.psbt.unsigned :=
    hstarted.transaction.symm.trans (hr'.later.unsigned.trans hr.later.unsigned.symm)
  obtain ⟨state, hok⟩ := hcons.merge_ok_iff.2 ⟨hr.active, hunsigned, i, [], hstarted.inputs, hclean,
    fun slot s s' hs hs' => hr.agree h hr' hs ((hbrings slot s').1 hs')⟩
  have hslots : ∀ slot s, (r.merge p).1.signature? slot = some s ↔
      r.signature? slot = some s ∨ r'.signature? slot = some s := by
    intro slot s
    rw [hcons.signature?_merge hok hstarted.inputs, hbrings]
  refine ⟨(r.merge p).1, state, Prod.ext rfl hok, hr.of_extends (merge_extends r p)
    (state_of_merge_ok hok).2 fun slot s hs => ?_, hslots⟩
  exact ((hslots slot s).1 hs).imp_right (hr'.made slot s)

/-- A round that is started with the PSBT of an honest one is that round. -/
theorem start_eq (h : Panel first signers) (hr : Honest first signers r) :
    start first.quorum r.psbt = .ok r := by
  have hcons := hr.consistent h
  have hprepared := hcons.prepared
  have hmessages := hcons.messages
  rw [hr.later.quorum] at hprepared hmessages
  rw [hr.later.hashes] at hmessages
  obtain ⟨i, _, hi, _, _, _, hclean⟩ := hcons.exists_input
  -- the round begins like the first one, which differs from it in signatures only
  have hblank : unsigned first.quorum (withoutSignatures r.psbt) first.hashes = first := by
    rw [hr.later.rest]
    exact h.unsigned.symm
  have hbrings : ∀ slot s, Brings first.quorum i slot s ↔ r.signature? slot = some s := by
    intro slot s
    rw [← hr.later.quorum]
    exact hcons.inStep.brings_iff hi
  rw [hr.later.quorum, hr.later.hashes] at hclean
  obtain ⟨state, hok⟩ := h.consistent.merge_ok_iff.2 ⟨h.active_first, hr.later.unsigned, i, [], hi,
    hclean, fun slot s s' hs _ => by
      rw [h.signature?_first] at hs
      cases hs⟩
  have hmerged : (first.merge r.psbt).1 = r := by
    refine (merge_extends first r.psbt).eq_of_signature? h.consistent.inStep hr.later
      ((state_of_merge_ok hok).2.trans hr.active.symm) fun slot s => ?_
    rw [h.consistent.signature?_merge hok hi, hbrings, h.signature?_first]
    simp
  have hmerge : first.merge r.psbt = (r, .ok state) := Prod.ext hmerged hok
  rw [← hblank] at hmerge
  exact start_of_merge hprepared hmessages hmerge

end Honest

/-! ## Filled slots -/

theorem mem_filledFrom_iff {slots : List (Option TapSignature)} {index : Nat} {slot : Slot} :
    slot ∈ filledFrom index slots ↔
      ∃ n, slot = .script (index + n) ∧ (slots[n]?.join).isSome = true := by
  induction slots generalizing index with
  | nil => simp [filledFrom]
  | cons s rest ih =>
    have hrest : (∃ n, slot = .script (index + 1 + n) ∧ (rest[n]?.join).isSome = true) ↔
        ∃ n, slot = .script (index + (n + 1)) ∧ ((s :: rest)[n + 1]?.join).isSome = true := by
      simp only [List.getElem?_cons_succ, Nat.add_assoc, Nat.add_comm 1]
    cases s with
    | none =>
      rw [filledFrom, ih, hrest]
      constructor
      · rintro ⟨n, hn⟩
        exact ⟨n + 1, hn⟩
      · rintro ⟨_ | n, hslot, hsome⟩
        · cases hsome
        · exact ⟨n, hslot, hsome⟩
    | some s =>
      rw [filledFrom, List.mem_cons, ih, hrest]
      constructor
      · rintro (rfl | ⟨n, hn⟩)
        · exact ⟨0, rfl, rfl⟩
        · exact ⟨n + 1, hn⟩
      · rintro ⟨_ | n, hslot, hsome⟩
        · exact .inl hslot
        · exact .inr ⟨n, hslot, hsome⟩

theorem mem_signedSlots_iff {slot : Slot} :
    slot ∈ r.signedSlots ↔ (r.signature? slot).isSome = true := by
  unfold signedSlots
  rw [List.mem_append, mem_filledFrom_iff]
  cases slot with
  | keyPath => cases hkey : r.keyPath <;> simp [signature?, hkey]
  | script n => cases hkey : r.keyPath <;> simp [signature?]

/-- Filled slots are listed in key order. -/
theorem pairwise_filledFrom (index : Nat) (slots : List (Option TapSignature)) :
    (filledFrom index slots).Pairwise fun a b => a.keyIndex < b.keyIndex := by
  induction slots generalizing index with
  | nil => exact .nil
  | cons s rest ih =>
    cases s with
    | none => exact ih (index + 1)
    | some s =>
      refine List.pairwise_cons.2 ⟨fun slot hslot => ?_, ih (index + 1)⟩
      obtain ⟨n, rfl, _⟩ := mem_filledFrom_iff.1 hslot
      simp only [Slot.keyIndex]
      omega

theorem pairwise_signedSlots (r : Round) :
    r.signedSlots.Pairwise fun a b => a.keyIndex < b.keyIndex := by
  unfold signedSlots
  refine List.pairwise_append.2 ⟨?_, pairwise_filledFrom 0 r.script, fun a ha b hb => ?_⟩
  · split
    · exact List.pairwise_singleton _ _
    · exact .nil
  · obtain ⟨n, rfl, _⟩ := mem_filledFrom_iff.1 hb
    split at ha
    · cases List.mem_singleton.1 ha
      simp only [Slot.keyIndex]
      omega
    · cases ha

/-! ## Complete rounds -/

/-- When all signers have signed, the round holds their signatures and no others. -/
theorem Honest.signature?_iff (h : Panel first signers) (hr : Honest first signers r)
    (hall : ∀ l ∈ signers, (r.signature? l.slot).isSome = true) (slot : Slot) (s : TapSignature) :
    r.signature? slot = some s ↔ ∃ l ∈ signers, l.slot = slot ∧ l.Signs first.hashes s := by
  constructor
  · exact hr.made slot s
  · rintro ⟨l, hl, rfl, hsigns⟩
    obtain ⟨s', hs'⟩ := Option.isSome_iff_exists.1 (hall l hl)
    obtain ⟨l', hl', hslot, hsigns'⟩ := hr.made l.slot s' hs'
    cases h.eq_of_slot hl' hl hslot
    rwa [hsigns.unique hsigns']

theorem mem_scriptSigners_iff {l : LocalSigner} :
    l ∈ signers.filter (fun l => l.slot ≠ .keyPath) ↔ l ∈ signers ∧ ∃ n, l.slot = .script n := by
  rw [List.mem_filter]
  refine and_congr_right fun _ => ?_
  cases l.slot <;> simp

/-- The signers of the leaf have different keys. -/
theorem Panel.nodup_scriptKeys (h : Panel first signers) :
    ((signers.filter fun l => l.slot ≠ .keyPath).map LocalSigner.publicKey).Nodup := by
  refine List.Nodup.map_on (fun l hl l' hl' hsame => ?_) ((List.Nodup.of_map _ h.slots).filter _)
  obtain ⟨hl, n, hslot⟩ := mem_scriptSigners_iff.1 hl
  obtain ⟨hl', n', hslot'⟩ := mem_scriptSigners_iff.1 hl'
  have hkey := h.keyFor_slot hl
  have hkey' := h.keyFor_slot hl'
  rw [hslot, hsame] at hkey
  rw [hslot'] at hkey'
  exact h.eq_of_slot hl hl' (by rw [hslot, hslot', Quorum.signer_inj hkey hkey'])

/-- When all signers have signed, the script slots hold as many signatures as there are signers of the
leaf. -/
theorem Honest.scriptCount_eq (h : Panel first signers) (hr : Honest first signers r)
    (hall : ∀ l ∈ signers, (r.signature? l.slot).isSome = true) :
    r.scriptCount = (signers.filter fun l => l.slot ≠ .keyPath).length := by
  rw [← length_heldKeys, ← List.length_map LocalSigner.publicKey]
  refine ((List.perm_ext_iff_of_nodup r.nodup_heldKeys h.nodup_scriptKeys).2 fun key => ?_).length_eq
  rw [mem_heldKeys_iff, List.mem_map, hr.later.quorum]
  constructor
  · rintro ⟨n, s, hn, hs⟩
    obtain ⟨l, hl, hslot, _⟩ := hr.made _ s hs
    have hkey := h.keyFor_slot hl
    rw [hslot] at hkey
    exact ⟨l, mem_scriptSigners_iff.2 ⟨hl, n, hslot⟩, Option.some.inj (hkey.symm.trans hn)⟩
  · rintro ⟨l, hl, rfl⟩
    obtain ⟨hl, n, hslot⟩ := mem_scriptSigners_iff.1 hl
    have hkey := h.keyFor_slot hl
    have hsome := hall l hl
    rw [hslot] at hkey hsome
    obtain ⟨s, hs⟩ := Option.isSome_iff_exists.1 hsome
    exact ⟨n, s, hkey, hs⟩

/-- When all signers have signed, the round is complete exactly if one of them is the signer of the
key path, or as many as the threshold asks for are signers of the leaf. -/
theorem Honest.state_eq_complete_iff (h : Panel first signers) (hr : Honest first signers r)
    (hall : ∀ l ∈ signers, (r.signature? l.slot).isSome = true) :
    r.state = .complete ↔ (∃ l ∈ signers, l.slot = .keyPath) ∨
      first.quorum.threshold ≤ (signers.filter fun l => l.slot ≠ .keyPath).length := by
  have hkey : r.keyPath.isSome ↔ ∃ l ∈ signers, l.slot = .keyPath := by
    constructor
    · intro hsome
      obtain ⟨s, hs⟩ := Option.isSome_iff_exists.1 hsome
      obtain ⟨l, hl, hslot, _⟩ := hr.made .keyPath s hs
      exact ⟨l, hl, hslot⟩
    · rintro ⟨l, hl, hslot⟩
      have hsome := hall l hl
      rw [hslot] at hsome
      exact hsome
  rw [Round.state_eq_complete_iff, hkey, hr.scriptCount_eq h hall, hr.later.quorum]
  exact and_iff_right hr.active

/-! ## The round of a block -/

/-- A PSBT without signatures whose input is not faulty starts a round without signatures. -/
theorem start_of_no_contributions {q : Quorum} {p : Psbt} {i : Psbt.Input} {spent : TxOut}
    (honly : p.onlyInput = .ok (i, spent)) (hscript : spent.script = q.challenge)
    (hkey : i.tapInternalKey = none) (howns : q.ownsLeaves i = true)
    (hnone : contributions q i = []) : ∃ first, start q p = .ok first ∧ first.quorum = q ∧
      first = unsigned q (withoutSignatures first.psbt) first.hashes ∧
      first.hashes = ⟨Taproot.sighash p.unsigned [spent] 0 none,
        Taproot.sighash p.unsigned [spent] 0 (some q.leafHash)⟩ := by
  obtain ⟨hi, placed, hplaced, hspent⟩ := Psbt.onlyInput_eq_ok_iff.1 honly
  have hbase : q.update p = .ok { p with inputs := [q.fillInput i spent] } := by
    refine Quorum.update_eq_ok_iff.2 ⟨i, spent, honly, hscript, fun key hk => ?_, howns, rfl⟩
    rw [hkey] at hk
    cases hk
  have honly' : ({ p with inputs := [q.fillInput i spent] } : Psbt).onlyInput =
      .ok (q.fillInput i spent, spent) := by
    refine Psbt.onlyInput_eq_ok_iff.2 ⟨rfl, placed, hplaced, ?_⟩
    unfold Psbt.Input.spent?
    rw [Quorum.spentOutput_fillInput hspent]
  obtain ⟨hashes, hhashes, hspend⟩ : ∃ hashes,
      q.sighashes { p with inputs := [q.fillInput i spent] } = .ok hashes ∧ hashes = _ :=
    ⟨_, Quorum.sighashes_of_onlyInput honly', rfl⟩
  have hunsigned : p.unsigned = ({ p with inputs := [q.fillInput i spent] } : Psbt).unsigned := rfl
  -- only these facts about the prepared PSBT matter from here on
  change hashes = ⟨Taproot.sighash p.unsigned [spent] 0 none,
    Taproot.sighash p.unsigned [spent] 0 (some q.leafHash)⟩ at hspend
  generalize { p with inputs := [q.fillInput i spent] } = base at hbase hhashes hunsigned
  refine ⟨unsigned q (withoutSignatures base) hashes, start_of_merge hbase hhashes
    (merge_of_no_contributions rfl hunsigned hi hnone), rfl, ?_, hspend⟩
  change _ = unsigned q (withoutSignatures (withoutSignatures base)) hashes
  rw [show withoutSignatures (withoutSignatures base) = withoutSignatures base by
    simp [withoutSignatures, Function.comp_def]]

/-- The PSBT of a block starts a round without signatures. -/
theorem start_signetPsbt {q : Quorum} {b : Block} {p : Psbt}
    (hp : b.signetPsbt q.challenge = .ok p) : b.toSign q.challenge = .ok p.unsigned ∧
      ∃ first, start q p = .ok first ∧ first.quorum = q ∧
        first = unsigned q (withoutSignatures first.psbt) first.hashes ∧
        first.hashes = ⟨Taproot.sighash p.unsigned [⟨0, q.challenge⟩] 0 none,
          Taproot.sighash p.unsigned [⟨0, q.challenge⟩] 0 (some q.leafHash)⟩ := by
  simp only [Block.signetPsbt, Block.toSign, bind_eq_ok_iff, pure_eq_ok_iff] at hp
  obtain ⟨spend, hspend, t, ⟨spend', hspend', rfl⟩, rfl⟩ := hp
  obtain rfl : spend = spend' := by
    rw [hspend] at hspend'
    exact Except.ok.inj hspend'
  have hout : spend.outputs.head? = some ⟨0, q.challenge⟩ := by
    simp only [Block.toSpend, bind_eq_ok_iff, pure_eq_ok_iff] at hspend
    obtain ⟨_, _, rfl⟩ := hspend
    rfl
  refine ⟨?_, ?_⟩
  · simp only [Block.toSign, hspend]
    rfl
  · rw [hout]
    exact start_of_no_contributions rfl rfl rfl rfl rfl

end Round

end SignetFederation
