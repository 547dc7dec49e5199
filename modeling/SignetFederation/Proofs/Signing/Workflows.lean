import Mathlib.Data.Finset.Card
import SignetFederation.Proofs.Secp256k1.Keys
import SignetFederation.Proofs.Signing.Honesty

/-!
# Ways to gather signatures

Signers can sign a PSBT one after another (`signAll`), fill their slots in a round
(`Round.applyAll`), or each sign a copy, and a round takes the copies (`Round.gather`). Signers of
one slot make the same signature, whatever secrets they have for its key
(`LocalSigner.Signs.congr`), so it is enough that some signer of each slot is on the panel. Each of
the ways leads to an honest round (`Panel.exists_applyAll`, `Panel.exists_gather_copies`), and the
slots that are filled say which one it is and how far it has come (`state_eq_standing`).
-/

namespace SignetFederation

variable {l l' : LocalSigner} {hashes : Sighashes} {s : TapSignature}

/-! ## Signatures for a slot -/

namespace LocalSigner

theorem publicKey_congr (hq : l.quorum = l'.quorum) (hslot : l.slot = l'.slot) :
    l.publicKey = l'.publicKey := by
  have hkey := l.occupies
  rw [hq, hslot, l'.occupies] at hkey
  exact (Option.some.inj hkey).symm

theorem signingKey_of_script {n : Nat} (hs : l.slot = .script n) :
    l.signingKey = .ok l.secret := by
  unfold signingKey
  rw [hs]

theorem signingKey_of_keyPath (hs : l.slot = .keyPath) {key : SecretKey} :
    l.signingKey = .ok key ↔
      Taproot.outputSecret? l.secret l.quorum.merkleRoot = some key := by
  unfold signingKey
  rw [hs]
  cases Taproot.outputSecret? l.secret l.quorum.merkleRoot <;> simp

/-- Signers for one slot of a quorum make the same signature. -/
theorem Signs.congr (hq : l.quorum = l'.quorum) (hslot : l.slot = l'.slot)
    (h : l.Signs hashes s) : l'.Signs hashes s := by
  have hkey : l.secret.xOnly = l'.secret.xOnly := publicKey_congr hq hslot
  obtain ⟨key, hsigning, rfl⟩ := h
  cases hs : l.slot with
  | keyPath =>
    rw [signingKey_of_keyPath hs, Taproot.outputSecret?_congr hkey, hq] at hsigning
    exact ⟨key, (signingKey_of_keyPath (hslot ▸ hs)).2 hsigning, by rw [← hslot, hs]⟩
  | script n =>
    obtain rfl := Except.ok.inj ((signingKey_of_script hs).symm.trans hsigning)
    refine ⟨l'.secret, signingKey_of_script (hslot ▸ hs), ?_⟩
    rw [Schnorr.sign_congr hkey, ← hslot, hs]

/-- Every signer has a key to sign with, and signatures for its slot are verified under it. -/
theorem exists_signingKey (l : LocalSigner) : ∃ key, l.signingKey = .ok key ∧
    Round.verifyingKey? l.quorum l.slot = some key.xOnly := by
  have hoccupies := l.occupies
  cases hs : l.slot with
  | keyPath =>
    rw [hs] at hoccupies
    have houtput := l.quorum.output_eq
    rw [Option.some.inj hoccupies] at houtput
    obtain ⟨key, hkey, hxOnly⟩ := Taproot.exists_outputSecret houtput
    exact ⟨key, (signingKey_of_keyPath hs).2 hkey, congrArg some hxOnly.symm⟩
  | script n =>
    rw [hs] at hoccupies
    exact ⟨l.secret, signingKey_of_script hs, hoccupies⟩

/-- A signer whose signature verifies under its own key makes a good one. -/
theorem exists_good (hverify : ∀ key, l.signingKey = .ok key →
      Schnorr.verify key.xOnly (hashes.forSlot l.slot)
        (Schnorr.sign key (hashes.forSlot l.slot)) = true) :
    ∃ s, l.Signs hashes s ∧ Round.Good l.quorum hashes l.slot s := by
  obtain ⟨key, hsigning, hverifying⟩ := l.exists_signingKey
  exact ⟨_, ⟨key, hsigning, rfl⟩, rfl, key.xOnly, hverifying, hverify key hsigning⟩

/-- Some signers of a list are for all slots that the list is for, and for each of them once. -/
theorem exists_representatives (ls : List LocalSigner) : ∃ panel ⊆ ls,
    (panel.map slot).Nodup ∧ ∀ l ∈ ls, l.slot ∈ panel.map slot := by
  induction ls with
  | nil => exact ⟨[], List.Subset.refl [], List.nodup_nil, by simp⟩
  | cons l ls ih =>
    obtain ⟨panel, hsub, hnodup, hall⟩ := ih
    by_cases hl : l.slot ∈ panel.map slot
    · exact ⟨panel, List.subset_cons_of_subset l hsub, hnodup, List.forall_mem_cons.2 ⟨hl, hall⟩⟩
    · refine ⟨l :: panel, List.cons_subset_cons l hsub, List.nodup_cons.2 ⟨hl, hnodup⟩, ?_⟩
      refine List.forall_mem_cons.2 ⟨List.mem_cons_self .., fun l' hl' => ?_⟩
      exact List.mem_cons_of_mem _ (hall l' hl')

end LocalSigner

/-! ## Ways to sign -/

/-- How far a round of the quorum has come when some slots are filled. -/
def Quorum.standing (q : Quorum) (slots : Finset Slot) : RoundState :=
  if .keyPath ∈ slots ∨ q.threshold ≤ (slots.erase .keyPath).card then .complete
  else .collecting slots.card q.threshold

/-- Signs a PSBT with some signers one after another. -/
def signAll (p : Psbt) (ls : List LocalSigner) : Except Error Psbt :=
  ls.foldlM (fun p l => l.sign p) p

/-- A signer prepares what it signs, so it does not matter if that was done before. -/
theorem LocalSigner.sign_of_update {p base : Psbt} (hbase : l.quorum.update p = .ok base)
    (hprepared : l.quorum.update base = .ok base) : l.sign p = l.sign base := by
  simp only [LocalSigner.sign, hbase, hprepared]

theorem signAll_of_update {q : Quorum} {p base : Psbt} {ls : List LocalSigner}
    (hbase : q.update p = .ok base) (hprepared : q.update base = .ok base) (hne : ls ≠ [])
    (hls : ∀ l ∈ ls, l.quorum = q) : signAll p ls = signAll base ls := by
  cases ls with
  | nil => exact absurd rfl hne
  | cons l ls =>
    obtain rfl := hls l (List.mem_cons_self ..)
    simp only [signAll, List.foldlM_cons, LocalSigner.sign_of_update hbase hprepared]

/-- A signature that is there already changes nothing. -/
theorem Psbt.Input.withSignature_of_brings {q : Quorum} {i : Psbt.Input} {slot : Slot}
    {key : XOnlyKey} (hkey : q.keyFor slot = some key) (h : Round.Brings q i slot s) :
    i.withSignature q slot key s = i := by
  cases h with
  | keyPath h =>
    unfold withSignature
    rw [← h]
  | @script n key' _ hkey' h =>
    obtain rfl : key' = key := Option.some.inj (hkey'.symm.trans hkey)
    unfold withSignature
    simp only
    rw [SortedMap.insert_of_get? h]

namespace Round

variable {first r r' : Round} {signers ls : List LocalSigner}

/-- The round that a call leaves, if the call answers with a state. -/
def settle : Round × Except Error RoundState → Except Error Round
  | (r, .ok _) => .ok r
  | (_, .error why) => .error why

theorem settle_eq_ok_iff {answer : Round × Except Error RoundState} :
    settle answer = .ok r ↔ ∃ state, answer = (r, .ok state) := by
  obtain ⟨r', _ | _⟩ := answer
  · simp [settle]
  · simp [settle]

/-- Lets some signers fill their slots one after another, as long as none of them fails. -/
def applyAll (r : Round) (ls : List LocalSigner) : Except Error Round :=
  ls.foldlM (fun r l => settle (r.apply l.toPsbtSigner)) r

/-- Starts a round with the first PSBT and merges the others into it, as long as none of them
fails. -/
def gather (q : Quorum) : List Psbt → Except Error Round
  | [] => .error (.psbt .noInputs)
  | p :: ps => do ps.foldlM (fun r p => settle (r.merge p)) (← start q p)

/-! ## One signer -/

/-- A signer of the round's quorum whose slot has someone on the panel. -/
structure Seated (first : Round) (signers : List LocalSigner) (l : LocalSigner) : Prop where
  quorum : l.quorum = first.quorum
  slot : l.slot ∈ signers.map LocalSigner.slot

/-- A seated signer makes the signature that the one on the panel makes, a good one. -/
theorem Seated.exists_signs (hl : Seated first signers l) (h : Panel first signers) :
    ∃ l₀ ∈ signers, ∃ s, l₀.slot = l.slot ∧ l₀.Signs first.hashes s ∧ l.Signs first.hashes s ∧
      Good first.quorum first.hashes l.slot s := by
  obtain ⟨l₀, hl₀, hslot₀⟩ := List.mem_map.1 hl.slot
  obtain ⟨s, hs, hgood⟩ := h.able l₀ hl₀
  have hquorum : l₀.quorum = l.quorum := (h.members l₀ hl₀).trans hl.quorum.symm
  rw [hslot₀] at hgood
  exact ⟨l₀, hl₀, s, hslot₀, hs, hs.congr hquorum hslot₀, hgood⟩

namespace Honest

/-- What an honest round holds for a slot is what the panel's signer of the slot signs. -/
theorem eq_of_signs (h : Panel first signers) (hr : Honest first signers r) (hl : l ∈ signers)
    (hs : l.Signs first.hashes s) {s' : TapSignature} (hs' : r.signature? l.slot = some s') :
    s' = s := by
  obtain ⟨l', hl', hslot, hsigns⟩ := hr.made _ s' hs'
  cases h.eq_of_slot hl' hl hslot
  exact hsigns.unique hs

/-- A seated signer fills its slot. -/
theorem exists_apply (h : Panel first signers) (hr : Honest first signers r)
    (hl : Seated first signers l) :
    ∃ r', settle (r.apply l.toPsbtSigner) = .ok r' ∧ Honest first signers r' ∧
      ∀ slot, (r'.signature? slot).isSome = true ↔
        l.slot = slot ∨ (r.signature? slot).isSome = true := by
  obtain ⟨l₀, hl₀, s, hslot₀, hs₀, hs, hgood⟩ := hl.exists_signs h
  have hq : l.quorum = r.quorum := hl.quorum.trans hr.later.quorum.symm
  have hcons := hr.consistent h
  obtain ⟨state, hok⟩ := (hcons.apply_ok_iff hq).2 ⟨hr.active, s, by rwa [hr.later.hashes],
    by rwa [hr.later.quorum, hr.later.hashes],
    fun s' hs' => hr.eq_of_signs h hl₀ hs₀ (hslot₀ ▸ hs')⟩
  have hslots := hcons.signature?_apply hq hok (by rwa [hr.later.hashes])
  refine ⟨(r.apply l.toPsbtSigner).1, settle_eq_ok_iff.2 ⟨state, Prod.ext rfl hok⟩, ?_,
    fun slot => ?_⟩
  · refine hr.of_extends (call_extends r (.apply l.toPsbtSigner))
      (state_of_call_ok (c := .apply l.toPsbtSigner) hok).2 fun slot s' hs' => ?_
    refine ((hslots slot s').1 hs').imp_right ?_
    rintro ⟨rfl, rfl⟩
    exact ⟨l₀, hl₀, hslot₀, hs₀⟩
  · simp only [Option.isSome_iff_exists, hslots, exists_or, exists_and_left, exists_eq, and_true]
    rw [or_comm, eq_comm]

/-- A signer of the PSBT of one honest round makes the PSBT of the round that has its slot filled
too, whether or not the slot was free. -/
theorem sign_eq (h : Panel first signers) (hr : Honest first signers r)
    (hr' : Honest first signers r') (hl : Seated first signers l)
    (hsome : ∀ slot, (r'.signature? slot).isSome = true ↔
      l.slot = slot ∨ (r.signature? slot).isSome = true) : l.sign r.psbt = .ok r'.psbt := by
  obtain ⟨l₀, hl₀, s, hslot₀, hs₀, hs, _⟩ := hl.exists_signs h
  have hq : l.quorum = r.quorum := hl.quorum.trans hr.later.quorum.symm
  have hkey : r.quorum.keyFor l.slot = some l.publicKey := hq ▸ l.occupies
  have hcons := hr.consistent h
  rw [(LocalSigner.sign_eq_ok_iff (by rw [hq]; exact hcons.prepared)
    (by rw [hq]; exact hcons.messages)).2 ⟨s, by rwa [hr.later.hashes], rfl⟩, hq]
  cases hfree : r.signature? l.slot with
  | none =>
    obtain ⟨hfilled, hfilledSome⟩ := hr.fill h hl₀ (by rw [hslot₀, hfree]) hs₀
    rw [hslot₀] at hfilled hfilledSome
    rw [hr'.eq_of_slots h hfilled fun slot => Bool.eq_iff_iff.2
      ((hsome slot).trans (hfilledSome slot).symm), fill_psbt r s l.slot hkey]
  | some s' =>
    obtain rfl := hr.eq_of_signs h hl₀ hs₀ (hslot₀ ▸ hfree)
    have hfull : ∀ slot, l.slot = slot → (r.signature? slot).isSome = true := by
      rintro _ rfl
      rw [hfree]
      rfl
    rw [hr'.eq_of_slots h hr fun slot => Bool.eq_iff_iff.2
      ((hsome slot).trans (or_iff_right_of_imp (hfull slot)))]
    obtain ⟨i, _, hi, _⟩ := hcons.exists_input
    rw [hi, List.modifyHead_cons, Psbt.Input.withSignature_of_brings hkey
      ((hcons.inStep.brings_iff hi).2 hfree), ← hi]

end Honest

/-! ## Many signers -/

/-- Signers who sign one after another in a round, and those who sign its PSBT one after another,
come to the same. -/
theorem Honest.exists_applyAll (h : Panel first signers) (hr : Honest first signers r)
    (hls : ∀ l ∈ ls, Seated first signers l) :
    ∃ r', r.applyAll ls = .ok r' ∧ signAll r.psbt ls = .ok r'.psbt ∧ Honest first signers r' ∧
      ∀ slot, (r'.signature? slot).isSome = true ↔
        (∃ l ∈ ls, l.slot = slot) ∨ (r.signature? slot).isSome = true := by
  induction ls generalizing r with
  | nil => exact ⟨r, rfl, rfl, hr, fun slot => by simp⟩
  | cons l ls ih =>
    obtain ⟨hl, hrest⟩ := List.forall_mem_cons.1 hls
    obtain ⟨r₁, happly, hr₁, hsome⟩ := hr.exists_apply h hl
    have hsign : l.sign r.psbt = .ok r₁.psbt := hr.sign_eq h hr₁ hl hsome
    obtain ⟨r₂, happlyAll, hsignAll, hr₂, hsomeAll⟩ := ih hr₁ hrest
    refine ⟨r₂, ?_, ?_, hr₂, fun slot => (hsomeAll slot).trans ?_⟩
    · exact bind_eq_ok_iff.2 ⟨r₁, happly, happlyAll⟩
    · exact bind_eq_ok_iff.2 ⟨r₁.psbt, hsign, hsignAll⟩
    · rw [hsome, List.exists_mem_cons_iff, or_left_comm, or_assoc]

/-- The slots of signers who sign one after another from the start are filled. -/
theorem Panel.exists_applyAll (h : Panel first signers)
    (hls : ∀ l ∈ ls, Seated first signers l) :
    ∃ r, first.applyAll ls = .ok r ∧ signAll first.psbt ls = .ok r.psbt ∧ Honest first signers r ∧
      ∀ slot, (r.signature? slot).isSome = true ↔ ∃ l ∈ ls, l.slot = slot := by
  obtain ⟨r, happlyAll, hsignAll, hr, hsome⟩ := h.honest_first.exists_applyAll h hls
  refine ⟨r, happlyAll, hsignAll, hr, fun slot => ?_⟩
  rw [hsome, h.signature?_first]
  exact or_iff_left nofun

/-! ## Many PSBTs -/

/-- PSBTs that start honest rounds are merged one after another, and join what these hold. -/
theorem Honest.exists_mergeAll (h : Panel first signers) (hr : Honest first signers r)
    {ps : List Psbt}
    (hps : ∀ p ∈ ps, ∃ r', start first.quorum p = .ok r' ∧ Honest first signers r') :
    ∃ r', ps.foldlM (fun r p => settle (r.merge p)) r = .ok r' ∧ Honest first signers r' ∧
      ∀ slot s, r'.signature? slot = some s ↔ r.signature? slot = some s ∨
        ∃ p ∈ ps, ∃ r₁, start first.quorum p = .ok r₁ ∧ r₁.signature? slot = some s := by
  induction ps generalizing r with
  | nil => exact ⟨r, rfl, hr, fun slot s => by simp⟩
  | cons p ps ih =>
    obtain ⟨⟨r₁, hstart, hr₁⟩, hrest⟩ := List.forall_mem_cons.1 hps
    obtain ⟨r₂, state, hmerge, hr₂, hslots⟩ := hr.exists_merge h hr₁ hstart
    obtain ⟨r₃, hmergeAll, hr₃, hslotsAll⟩ := ih hr₂ hrest
    refine ⟨r₃, bind_eq_ok_iff.2 ⟨r₂, settle_eq_ok_iff.2 ⟨state, hmerge⟩, hmergeAll⟩, hr₃,
      fun slot s => ?_⟩
    rw [hslotsAll, hslots, List.exists_mem_cons_iff, hstart, or_assoc]
    simp only [Except.ok.injEq, exists_eq_left']

/-- PSBTs that start honest rounds can be gathered in any order. -/
theorem Panel.exists_gather (h : Panel first signers) {ps : List Psbt} (hne : ps ≠ [])
    (hps : ∀ p ∈ ps, ∃ r', start first.quorum p = .ok r' ∧ Honest first signers r') :
    ∃ r, gather first.quorum ps = .ok r ∧ Honest first signers r ∧
      ∀ slot s, r.signature? slot = some s ↔
        ∃ p ∈ ps, ∃ r₁, start first.quorum p = .ok r₁ ∧ r₁.signature? slot = some s := by
  cases ps with
  | nil => exact absurd rfl hne
  | cons p ps =>
    obtain ⟨⟨r₁, hstart, hr₁⟩, hrest⟩ := List.forall_mem_cons.1 hps
    obtain ⟨r, hmergeAll, hr, hslots⟩ := hr₁.exists_mergeAll h hrest
    refine ⟨r, bind_eq_ok_iff.2 ⟨r₁, hstart, hmergeAll⟩, hr, fun slot s => ?_⟩
    rw [hslots, List.exists_mem_cons_iff, hstart]
    simp only [Except.ok.injEq, exists_eq_left']

/-- A signer of a copy of the first PSBT makes one that starts the round with its slot filled. -/
theorem Panel.exists_copy (h : Panel first signers) (hl : Seated first signers l) :
    ∃ r, l.sign first.psbt = .ok r.psbt ∧ start first.quorum r.psbt = .ok r ∧
      Honest first signers r ∧ ∀ slot, (r.signature? slot).isSome = true ↔ l.slot = slot := by
  obtain ⟨r, _, hr, hsome⟩ := h.honest_first.exists_apply h hl
  refine ⟨r, h.honest_first.sign_eq h hr hl hsome, hr.start_eq h, hr, fun slot => ?_⟩
  rw [hsome, h.signature?_first]
  exact or_iff_left nofun

/-- Copies of the first PSBT that some signers have made are gathered, and the slots of these are
filled. -/
theorem Panel.exists_gather_copies (h : Panel first signers)
    (hls : ∀ l ∈ ls, Seated first signers l)
    {ps : List Psbt} (hne : ps ≠ []) (hps : ∀ p, p ∈ ps ↔ ∃ l ∈ ls, l.sign first.psbt = .ok p) :
    ∃ r, gather first.quorum ps = .ok r ∧ Honest first signers r ∧
      ∀ slot, (r.signature? slot).isSome = true ↔ ∃ l ∈ ls, l.slot = slot := by
  have hcopy : ∀ p ∈ ps, ∃ l ∈ ls, ∃ r, start first.quorum p = .ok r ∧ Honest first signers r ∧
      ∀ slot, (r.signature? slot).isSome = true ↔ l.slot = slot := by
    intro p hp
    obtain ⟨l, hl, hsign⟩ := (hps p).1 hp
    obtain ⟨r, hsign', hstart, hr, hsome⟩ := h.exists_copy (hls l hl)
    obtain rfl := Except.ok.inj (hsign'.symm.trans hsign)
    exact ⟨l, hl, r, hstart, hr, hsome⟩
  obtain ⟨r, hgather, hr, hslots⟩ := h.exists_gather hne fun p hp =>
    (hcopy p hp).elim fun _ ⟨_, r, hstart, hr, _⟩ => ⟨r, hstart, hr⟩
  refine ⟨r, hgather, hr, fun slot => ⟨fun hsome => ?_, ?_⟩⟩
  · obtain ⟨s, hs⟩ := Option.isSome_iff_exists.1 hsome
    obtain ⟨p, hp, r₁, hstart₁, hs₁⟩ := (hslots slot s).1 hs
    obtain ⟨l, hl, r₂, hstart₂, _, hsome₂⟩ := hcopy p hp
    obtain rfl := Except.ok.inj (hstart₁.symm.trans hstart₂)
    exact ⟨l, hl, (hsome₂ slot).1 (by rw [hs₁]; rfl)⟩
  · rintro ⟨l, hl, rfl⟩
    obtain ⟨r₁, hsign, hstart, _, hsome⟩ := h.exists_copy (hls l hl)
    obtain ⟨s, hs⟩ := Option.isSome_iff_exists.1 ((hsome l.slot).2 rfl)
    rw [(hslots l.slot s).2 ⟨_, (hps _).2 ⟨l, hl, hsign⟩, r₁, hstart, hs⟩]
    rfl

/-! ## How far a round has come -/

theorem length_filledFrom (index : Nat) (slots : List (Option TapSignature)) :
    (filledFrom index slots).length = slots.countP Option.isSome := by
  induction slots generalizing index with
  | nil => rfl
  | cons s slots ih =>
    cases s with
    | none => simp [filledFrom, ih]
    | some s => simp [filledFrom, ih]

/-- The state of a round that goes on, told from the slots that are filled. -/
theorem state_eq_standing (hactive : r.failure = none) {slots : Finset Slot}
    (hslots : ∀ slot, slot ∈ slots ↔ (r.signature? slot).isSome = true) :
    r.state = r.quorum.standing slots := by
  have hscript : slots.erase .keyPath = (filledFrom 0 r.script).toFinset := by
    ext slot
    rw [Finset.mem_erase, hslots, List.mem_toFinset, mem_filledFrom_iff]
    cases slot with
    | keyPath => simp
    | script n => simp [signature?]
  have hcount : (slots.erase .keyPath).card = r.scriptCount := by
    have hnodup : (filledFrom 0 r.script).Nodup :=
      (pairwise_filledFrom 0 r.script).imp fun hlt heq => (heq ▸ hlt).false
    rw [hscript, List.toFinset_card_of_nodup hnodup, length_filledFrom]
    rfl
  have hkey : .keyPath ∈ slots ↔ r.keyPath.isSome = true := hslots .keyPath
  simp only [Quorum.standing, state, isComplete, hactive, hcount, hkey, Option.isNone_none,
    Bool.true_and, Bool.or_eq_true, decide_eq_true_eq]
  by_cases hfull : r.keyPath.isSome = true
  · simp only [hfull, true_or, if_true]
  · have hcard : slots.card = r.signatureCount := by
      rw [signatureCount, Bool.eq_false_iff.2 hfull, Bool.toNat_false, Nat.add_zero, ← hcount,
        Finset.erase_eq_of_notMem (mt hkey.1 hfull)]
    rw [hcard]

/-! ## Starting without signatures -/

/-- An input without signatures, whose leaf scripts are the quorum's own, contributes nothing. -/
theorem contributions_of_bare {q : Quorum} {i : Psbt.Input} (howns : q.ownsLeaves i = true)
    (hkey : i.tapKeySignature = none) (hleaf : i.tapScriptSignatures = ∅) :
    contributions q i = [] := by
  have hscripts : (i.tapScripts.entries.all fun e => e.2.1 == q.script) = true := by
    refine List.all_eq_true.2 fun e he => ?_
    exact (Bool.and_eq_true_iff.1 (List.all_eq_true.1 howns e he)).1
  have hempty : (∅ : SortedMap LeafSigner TapSignature).entries = [] := rfl
  rw [contributions, if_pos hscripts, hkey, hleaf, hempty]
  rfl

/-- A PSBT without signatures starts the round without signatures for what it is prepared to. -/
theorem update_of_start_bare {q : Quorum} {p : Psbt} (hstart : start q p = .ok first)
    (hbare : ∀ i ∈ p.inputs, i.tapKeySignature = none ∧ i.tapScriptSignatures = ∅) :
    q.update p = .ok first.psbt ∧ withoutSignatures first.psbt = first.psbt ∧
      first = unsigned first.quorum first.psbt first.hashes := by
  obtain ⟨base, hashes, state, hbase, hhashes, hmerge⟩ := start_eq_ok hstart
  obtain ⟨i, spent, honly, _, _, howns, hfilled⟩ := Quorum.update_eq_ok_iff.1 hbase
  have hi := (Psbt.onlyInput_eq_ok_iff.1 honly).1
  obtain ⟨hkey, hleaf⟩ := hbare i (by rw [hi]; exact List.mem_singleton_self i)
  have hblank : withoutSignatures base = base := by
    simp [hfilled, withoutSignatures, Quorum.fillInput, hkey, hleaf]
  have hmerged : (unsigned q base hashes).merge p = _ := merge_of_no_contributions rfl
    (by rw [hfilled]; rfl) hi (contributions_of_bare howns hkey hleaf)
  rw [hblank, hmerged] at hmerge
  obtain rfl := (Prod.mk.inj hmerge).1
  exact ⟨hbase, hblank, rfl⟩

/-- Signers of the quorum whose signatures verify include a panel with someone for each of their
slots. -/
theorem exists_panel {q : Quorum} {p : Psbt} (hstart : start q p = .ok first)
    (hbare : ∀ i ∈ p.inputs, i.tapKeySignature = none ∧ i.tapScriptSignatures = ∅)
    (hquorum : ∀ l ∈ ls, l.quorum = q)
    (hverify : ∀ l ∈ ls, ∀ key, l.signingKey = .ok key →
      Schnorr.verify key.xOnly (first.hashes.forSlot l.slot)
        (Schnorr.sign key (first.hashes.forSlot l.slot)) = true) :
    ∃ panel ⊆ ls, Panel first panel ∧ ∀ l ∈ ls, Seated first panel l := by
  obtain ⟨panel, hsub, hnodup, hslots⟩ := LocalSigner.exists_representatives ls
  obtain ⟨_, hblank, hfirst⟩ := update_of_start_bare hstart hbare
  obtain ⟨_, hstarted⟩ := started_of_start hstart
  have hmembers : ∀ l ∈ ls, l.quorum = first.quorum :=
    fun l hl => (hquorum l hl).trans hstarted.quorum.symm
  refine ⟨panel, hsub, ⟨by rw [hblank]; exact hfirst, consistent_of_start hstart,
    fun l hl => hmembers l (hsub hl), hnodup, fun l hl => ?_⟩,
    fun l hl => ⟨hmembers l hl, hslots l hl⟩⟩
  rw [← hmembers l (hsub hl)]
  exact l.exists_good (hverify l (hsub hl))

/-! ## What the round holds -/

/-- What a round without signatures becomes by some signers: their slots and no others are filled,
the PSBT carries their signatures and no others, the rest of it is as before, and the state is the
one for these slots. -/
structure HoldsOnly (first : Round) (ls : List LocalSigner) (r : Round) : Prop where
  slots : ∀ slot, (r.signature? slot).isSome = true ↔ ∃ l ∈ ls, l.slot = slot
  input : ∃ i, r.psbt.inputs = [i] ∧
    (∀ s, i.tapKeySignature = some s ↔
      ∃ l ∈ ls, l.slot = .keyPath ∧ l.Signs first.hashes s) ∧
    ∀ e s, i.tapScriptSignatures.get? e = some s ↔ e.leaf = first.quorum.leafHash ∧
      ∃ l ∈ ls, (∃ n, l.slot = .script n) ∧ l.publicKey = e.key ∧ l.Signs first.hashes s
  rest : withoutSignatures r.psbt = withoutSignatures first.psbt
  state : r.state = first.quorum.standing (ls.map LocalSigner.slot).toFinset

section HoldsOnly

variable (h : Panel first signers) (hsub : signers ⊆ ls)
  (hls : ∀ l ∈ ls, Seated first signers l) (hr : Honest first signers r)
  (hslots : ∀ slot, (r.signature? slot).isSome = true ↔ ∃ l ∈ ls, l.slot = slot)

include h hsub hls hr hslots

/-- A round with the slots of some signers filled holds what these sign. -/
theorem Honest.signature?_eq_some_iff (slot : Slot) (s : TapSignature) :
    r.signature? slot = some s ↔ ∃ l ∈ ls, l.slot = slot ∧ l.Signs first.hashes s := by
  rw [hr.signature?_iff h fun l hl => (hslots l.slot).2 ⟨l, hsub hl, rfl⟩]
  constructor
  · rintro ⟨l, hl, hslot, hsigns⟩
    exact ⟨l, hsub hl, hslot, hsigns⟩
  · rintro ⟨l, hl, rfl, hsigns⟩
    obtain ⟨l₀, hl₀, s₀, hslot₀, hs₀, hsigns₀, _⟩ := (hls l hl).exists_signs h
    obtain rfl := hsigns.unique hsigns₀
    exact ⟨l₀, hl₀, hslot₀, hs₀⟩

theorem Honest.holdsOnly : HoldsOnly first ls r := by
  have hheld := hr.signature?_eq_some_iff h hsub hls hslots
  have hcons := hr.consistent h
  refine ⟨hslots, ?_, hr.later.rest, ?_⟩
  · obtain ⟨i, _, hi, _⟩ := hcons.exists_input
    obtain ⟨_, _, hi', hkeyPath, hscript⟩ := hcons.inStep
    obtain ⟨rfl, _⟩ := List.cons.inj (hi.symm.trans hi')
    refine ⟨i, hi, fun s => ?_, fun e s => ?_⟩
    · rw [hkeyPath]
      exact hheld .keyPath s
    · rw [hscript, hr.later.quorum]
      simp only [hheld]
      refine and_congr_right fun _ => ⟨?_, ?_⟩
      · rintro ⟨n, hn, l, hl, hslot, hsigns⟩
        refine ⟨l, hl, ⟨n, hslot⟩, ?_, hsigns⟩
        have hkey := l.occupies
        rw [(hls l hl).quorum, hslot] at hkey
        exact Option.some.inj (hkey.symm.trans hn)
      · rintro ⟨l, hl, ⟨n, hslot⟩, hpublic, hsigns⟩
        refine ⟨n, ?_, l, hl, hslot, hsigns⟩
        have hkey := l.occupies
        rw [(hls l hl).quorum, hslot] at hkey
        exact hpublic ▸ hkey
  · rw [← hr.later.quorum]
    refine state_eq_standing hr.active fun slot => ?_
    rw [List.mem_toFinset, List.mem_map, hslots]

end HoldsOnly

end Round

end SignetFederation
