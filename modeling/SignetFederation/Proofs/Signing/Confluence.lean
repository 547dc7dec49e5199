import SignetFederation.Proofs.Signing.Merging

/-!
# The order of merges does not matter

PSBTs that reach a round one after another act as one row of contributions (`mergeAll_eq_takeAll`),
and whether a row is taken, and what it leaves, depends only on what is in it. So the round after
any number of merges has a description that knows no order: it stays active exactly if no PSBT for
its transaction is faulty and no two good signatures are at odds
(`Started.not_failed_mergeAll_iff`), and then it holds what the PSBTs carry
(`Started.signature?_mergeAll`). `mergeAll_confluent` puts this together.
-/

namespace SignetFederation.Round

/-- The round after merging PSBTs one after another, whatever each merge answers. -/
def mergeAll (r : Round) (ps : List Psbt) : Round := ps.foldl (fun r p => (r.merge p).1) r

/-- The round has come to an end without a solution. -/
def Failed (r : Round) : Prop := ∃ reason, r.state = .failed reason

theorem not_failed_iff {r : Round} : ¬ r.Failed ↔ r.failure = none := by
  unfold Failed state
  cases hf : r.failure with
  | none =>
    simp only [iff_true]
    rintro ⟨reason, h⟩
    split at h <;> cases h
  | some reason => simp

/-- A failed round stays as it is. -/
theorem mergeAll_of_failed {r : Round} {reason : String} (h : r.failure = some reason)
    (ps : List Psbt) : r.mergeAll ps = r := by
  induction ps with
  | nil => rfl
  | cons p ps ih =>
    rw [mergeAll, List.foldl_cons, merge_of_failed h]
    exact ih

theorem mergeAll_extends (r : Round) (ps : List Psbt) : Extends r (r.mergeAll ps) := by
  induction ps generalizing r with
  | nil => exact .refl r
  | cons p ps ih => exact (merge_extends r p).trans (ih _)

/-- What a PSBT contributes does not change while a round goes on. -/
theorem Extends.contributed {r r' : Round} (h : Extends r r') : r'.contributed = r.contributed := by
  funext p
  rw [Round.contributed, Round.contributed, h.unsigned, h.quorum]

/-- Merging PSBTs one after another takes all their contributions as one row. -/
theorem mergeAll_eq_takeAll {r : Round} (h : r.failure = none) (ps : List Psbt) :
    r.mergeAll ps = (r.takeAll (ps.flatMap r.contributed)).1 := by
  induction ps generalizing r with
  | nil => rfl
  | cons p ps ih =>
    have hmerge := merge_fst h p
    have hext := takeAll_extends r (r.contributed p)
    have hfail := takeAll_failure h (r.contributed p)
    rw [List.flatMap_cons, takeAll_append]
    change (r.merge p).1.mergeAll ps = _
    rw [hmerge]
    generalize r.takeAll (r.contributed p) = taken at hext hfail ⊢
    obtain ⟨r', answer⟩ := taken
    cases answer with
    | ok u => rw [ih (hfail.2 rfl), hext.contributed]
    | error why =>
      cases hr' : r'.failure with
      | none => cases hfail.1 hr'
      | some reason => exact mergeAll_of_failed hr' ps

/-! ## Rounds with the same signatures -/

/-- PSBTs that differ at most in the signatures of their first inputs, and not in those, are one. -/
theorem eq_of_withoutSignatures {p p' : Psbt} {i j : Psbt.Input} {rest rest' : List Psbt.Input}
    (h : withoutSignatures p = withoutSignatures p') (hi : p.inputs = i :: rest)
    (hj : p'.inputs = j :: rest') (hkey : i.tapKeySignature = j.tapKeySignature)
    (hleaf : i.tapScriptSignatures = j.tapScriptSignatures) : p = p' := by
  cases p
  cases p'
  cases i
  cases j
  simp only [withoutSignatures] at h hi hj hkey hleaf
  subst hi hj hkey hleaf
  simp only [List.modifyHead_cons, Psbt.mk.injEq, List.cons.injEq, Psbt.Input.mk.injEq,
    true_and] at h ⊢
  exact h

/-- Two later forms of a round are the same round if their slots hold the same signatures: the
PSBTs are in step with the slots. -/
theorem Extends.eq_of_signature? {r a b : Round} (hr : r.InStep) (ha : Extends r a)
    (hb : Extends r b) (hfailure : a.failure = b.failure)
    (hslots : ∀ slot s, a.signature? slot = some s ↔ b.signature? slot = some s) : a = b := by
  have hq : a.quorum = b.quorum := ha.quorum.trans hb.quorum.symm
  have hh : a.hashes = b.hashes := ha.hashes.trans hb.hashes.symm
  have hkey : a.keyPath = b.keyPath := Option.ext fun s => hslots .keyPath s
  have hscript : a.script = b.script := by
    refine List.ext_getElem? fun n => ?_
    have hn := fun s => hslots (.script n) s
    have hlen : a.script.length = b.script.length := by
      rw [a.length_script, b.length_script, hq]
    by_cases hlt : n < a.script.length
    · have hlt' : n < b.script.length := by omega
      simp only [signature?, List.getElem?_eq_getElem hlt, List.getElem?_eq_getElem hlt',
        Option.join_some] at hn ⊢
      exact congrArg some (Option.ext hn)
    · rw [List.getElem?_eq_none (by omega), List.getElem?_eq_none (by omega)]
  obtain ⟨i, rest, hi, hik, his⟩ := ha.inStep hr
  obtain ⟨j, rest', hj, hjk, hjs⟩ := hb.inStep hr
  have hleaf : i.tapScriptSignatures = j.tapScriptSignatures := by
    refine SortedMap.ext_get? fun e => Option.ext fun s => ?_
    rw [his, hjs, hq]
    simp only [hslots]
  have hpsbt : a.psbt = b.psbt :=
    eq_of_withoutSignatures (ha.rest.trans hb.rest.symm) hi hj (hik.trans (hkey.trans hjk.symm))
      hleaf
  cases a
  cases b
  simp only at hq hh hkey hscript hpsbt hfailure
  subst hq hh hkey hscript hpsbt hfailure
  rfl

/-! ## A description without order -/

/-- A PSBT is for a transaction, and this is its first input. -/
def Concerns (t : Transaction) (p : Psbt) (i : Psbt.Input) : Prop :=
  p.unsigned = t ∧ p.inputs.head? = some i

/-- Some PSBT for a transaction carries a signature for a slot. -/
def Offered (q : Quorum) (t : Transaction) (ps : List Psbt) (slot : Slot) (s : TapSignature) :
    Prop :=
  ∃ p ∈ ps, ∃ i, Concerns t p i ∧ Brings q i slot s

/-- Among the PSBTs for a transaction are two different good signatures for one slot. -/
def Conflict (q : Quorum) (hashes : Sighashes) (t : Transaction) (ps : List Psbt) : Prop :=
  ∃ slot s s', s ≠ s' ∧ Good q hashes slot s ∧ Good q hashes slot s' ∧
    Offered q t ps slot s ∧ Offered q t ps slot s'

theorem mem_contributed_iff {r : Round} {p : Psbt} {c : Except Error (Slot × TapSignature)} :
    c ∈ r.contributed p ↔ ∃ i, Concerns r.psbt.unsigned p i ∧ c ∈ contributions r.quorum i := by
  unfold contributed Concerns
  by_cases hp : p.unsigned = r.psbt.unsigned
  · cases hi : p.inputs.head? <;> simp [hp]
  · simp [hp]

section Started

variable {q : Quorum} {p₀ : Psbt} {i₀ : Psbt.Input} {r : Round}

theorem Started.concerns (h : Started q p₀ i₀ r) : Concerns p₀.unsigned p₀ i₀ := by
  refine ⟨rfl, ?_⟩
  rw [h.inputs]
  rfl

/-- What a started round would hold after a row of PSBTs: what they and the first one offer. -/
theorem Started.holds_iff (h : Started q p₀ i₀ r) (ps : List Psbt) (slot : Slot)
    (s : TapSignature) :
    Holds r (ps.flatMap r.contributed) slot s ↔ Offered q p₀.unsigned (p₀ :: ps) slot s := by
  have hfirst : r.signature? slot = some s ↔ ∃ i, Concerns p₀.unsigned p₀ i ∧ Brings q i slot s := by
    rw [h.signatures]
    constructor
    · exact fun hs => ⟨i₀, h.concerns, hs⟩
    · rintro ⟨i, hi, hs⟩
      cases hi.2.symm.trans h.concerns.2
      exact hs
  unfold Holds Offered
  rw [List.exists_mem_cons_iff, hfirst]
  simp only [List.mem_flatMap, mem_contributed_iff, ok_mem_contributions_iff, h.quorum,
    h.transaction]

/-- All contributions of a row of PSBTs are good signatures exactly if no PSBT for the transaction
is faulty. -/
theorem Started.forall_contributed_iff (h : Started q p₀ i₀ r) (ps : List Psbt) :
    (∀ c ∈ ps.flatMap r.contributed, ∃ slot s, c = .ok (slot, s) ∧ Good r.quorum r.hashes slot s) ↔
      ∀ p ∈ ps, ∀ i, Concerns p₀.unsigned p i → ¬ Faulty q r.hashes i := by
  simp only [List.mem_flatMap, mem_contributed_iff, h.quorum, h.transaction,
    ← forall_contributions_iff]
  constructor
  · intro hall p hp i hi c hc
    exact hall c ⟨p, hp, i, hi, hc⟩
  · rintro hall c ⟨p, hp, i, hi, hc⟩
    exact hall p hp i hi c hc

/-- Every signature that a faultless row and the first PSBT offer is good for its slot. -/
theorem Started.good_of_offered (h : Started q p₀ i₀ r) {ps : List Psbt}
    (hps : ∀ p ∈ ps, ∀ i, Concerns p₀.unsigned p i → ¬ Faulty q r.hashes i) {slot : Slot}
    {s : TapSignature} (hs : Offered q p₀.unsigned (p₀ :: ps) slot s) : Good q r.hashes slot s := by
  obtain ⟨p, hp, i, hi, hb⟩ := hs
  have hclean : ¬ Faulty q r.hashes i := by
    rcases List.mem_cons.1 hp with rfl | hp
    · cases hi.2.symm.trans h.concerns.2
      exact h.faultless
    · exact hps p hp i hi
  exact not_not.1 fun hbad => hclean (.inr (.inr ⟨slot, s, hb, hbad⟩))

/-- When a row of PSBTs leaves a round active. -/
theorem Started.not_failed_mergeAll_iff (h : Started q p₀ i₀ r) (ps : List Psbt) :
    ¬ (r.mergeAll ps).Failed ↔
      (∀ p ∈ ps, ∀ i, Concerns p₀.unsigned p i → ¬ Faulty q r.hashes i) ∧
        ¬ Conflict q r.hashes p₀.unsigned (p₀ :: ps) := by
  rw [not_failed_iff, mergeAll_eq_takeAll h.active, takeAll_failure h.active,
    takeAll_ok_iff h.sound, h.forall_contributed_iff]
  refine and_congr_right fun hps => ?_
  simp only [h.holds_iff]
  constructor
  · rintro hone ⟨slot, s, s', hne, _, _, hs, hs'⟩
    exact hne (hone slot s s' hs hs')
  · intro hno slot s s' hs hs'
    refine not_not.1 fun hne => hno ⟨slot, s, s', hne, ?_, ?_, hs, hs'⟩
    · exact h.good_of_offered hps hs
    · exact h.good_of_offered hps hs'

/-- What an active round holds after a row of PSBTs. -/
theorem Started.signature?_mergeAll (h : Started q p₀ i₀ r) {ps : List Psbt}
    (hactive : ¬ (r.mergeAll ps).Failed) (slot : Slot) (s : TapSignature) :
    (r.mergeAll ps).signature? slot = some s ↔ Offered q p₀.unsigned (p₀ :: ps) slot s := by
  rw [not_failed_iff, mergeAll_eq_takeAll h.active, takeAll_failure h.active] at hactive
  rw [mergeAll_eq_takeAll h.active, signature?_takeAll hactive, h.holds_iff]

/-- Rows with the same PSBTs, in whatever order and number, have the same outcome. -/
theorem Started.mergeAll_congr (h : Started q p₀ i₀ r) {ps ps' : List Psbt}
    (hsame : ∀ p, p ∈ ps ↔ p ∈ ps') :
    ((r.mergeAll ps).Failed ↔ (r.mergeAll ps').Failed) ∧
      (¬ (r.mergeAll ps).Failed → r.mergeAll ps = r.mergeAll ps') := by
  -- both sides of the description look at the row only through its members
  have hoffered : ∀ slot s, Offered q p₀.unsigned (p₀ :: ps) slot s ↔
      Offered q p₀.unsigned (p₀ :: ps') slot s := fun slot s => by
    simp only [Offered, List.mem_cons, hsame]
  have hfailed : (r.mergeAll ps).Failed ↔ (r.mergeAll ps').Failed := by
    rw [← not_iff_not, h.not_failed_mergeAll_iff, h.not_failed_mergeAll_iff]
    simp only [Conflict, hoffered, hsame]
  refine ⟨hfailed, fun hactive => ?_⟩
  have hactive' := fun hf => hactive (hfailed.2 hf)
  refine Extends.eq_of_signature? h.inStep (mergeAll_extends r ps) (mergeAll_extends r ps') ?_ ?_
  · rw [not_failed_iff.1 hactive, not_failed_iff.1 hactive']
  · intro slot s
    rw [h.signature?_mergeAll hactive, h.signature?_mergeAll hactive', hoffered]

/-- A PSBT that was merged changes nothing when it is merged again. -/
theorem Started.merge_again (h : Started q p₀ i₀ r) {ps : List Psbt} {p : Psbt} (hp : p ∈ ps) :
    ((r.mergeAll ps).merge p).1 = r.mergeAll ps := by
  cases hf : (r.mergeAll ps).failure with
  | some reason => rw [merge_of_failed hf]
  | none =>
    have hok := hf
    rw [mergeAll_eq_takeAll h.active, takeAll_failure h.active] at hok
    rw [merge_fst hf, (mergeAll_extends r ps).contributed, takeAll_of_held]
    intro c hc
    have hrow : c ∈ ps.flatMap r.contributed := List.mem_flatMap.2 ⟨p, hp, hc⟩
    obtain ⟨slot, s, rfl, _⟩ := ((takeAll_ok_iff h.sound).1 hok).1 c hrow
    refine ⟨slot, s, rfl, ?_⟩
    rw [mergeAll_eq_takeAll h.active]
    exact (signature?_takeAll hok slot s).2 (.inr hrow)

end Started

/-- **Merging is confluent.** PSBTs that are merged into a started round in two orders both fail it
or both leave the same PSBT, the same signatures in the same slots and the same state. A round fails
exactly if some PSBT for its transaction is faulty or two different good signatures for one slot are
about, and otherwise holds the signatures that the PSBTs carry. A PSBT that comes twice, wherever in
the row, does not change the outcome, and one that is merged again leaves the round as it is, whether
it has failed or not. -/
theorem mergeAll_confluent {q : Quorum} {p₀ : Psbt} {r : Round} (hstart : start q p₀ = .ok r)
    (ps : List Psbt) :
    (∀ ps', ps.Perm ps' →
      ((r.mergeAll ps).Failed ↔ (r.mergeAll ps').Failed) ∧
        (¬ (r.mergeAll ps).Failed →
          (r.mergeAll ps).psbt = (r.mergeAll ps').psbt ∧
            (r.mergeAll ps).signedSlots = (r.mergeAll ps').signedSlots ∧
            (∀ slot, (r.mergeAll ps).signature? slot = (r.mergeAll ps').signature? slot) ∧
            (r.mergeAll ps).state = (r.mergeAll ps').state)) ∧
      ((r.mergeAll ps).Failed ↔
        (∃ p ∈ ps, ∃ i, Concerns p₀.unsigned p i ∧ Faulty q r.hashes i) ∨
          Conflict q r.hashes p₀.unsigned (p₀ :: ps)) ∧
      (¬ (r.mergeAll ps).Failed → ∀ slot s,
        (r.mergeAll ps).signature? slot = some s ↔ Offered q p₀.unsigned (p₀ :: ps) slot s) ∧
      (∀ p before after, p ∈ ps → ps = before ++ after →
        ((r.mergeAll (before ++ p :: after)).Failed ↔ (r.mergeAll ps).Failed) ∧
          (¬ (r.mergeAll ps).Failed → r.mergeAll (before ++ p :: after) = r.mergeAll ps)) ∧
      ∀ p ∈ ps, ((r.mergeAll ps).merge p).1 = r.mergeAll ps := by
  obtain ⟨i₀, h⟩ := started_of_start hstart
  refine ⟨fun ps' hperm => ?_, ?_, h.signature?_mergeAll, fun p before after hp hps => ?_,
    fun p hp => h.merge_again hp⟩
  · obtain ⟨hfailed, heq⟩ := h.mergeAll_congr (fun p => hperm.mem_iff (a := p))
    refine ⟨hfailed, fun hactive => ?_⟩
    rw [heq hactive]
    exact ⟨rfl, rfl, fun _ => rfl, rfl⟩
  · rw [← not_iff_not, h.not_failed_mergeAll_iff, not_or]
    simp only [not_exists, not_and]
  · have hsame : ∀ p', p' ∈ ps ↔ p' ∈ before ++ p :: after := by
      intro p'
      simp only [hps, List.mem_append, List.mem_cons] at hp ⊢
      constructor
      · rintro (h | h)
        · exact .inl h
        · exact .inr (.inr h)
      · rintro (h | rfl | h)
        · exact .inl h
        · exact hp
        · exact .inr h
    obtain ⟨hfailed, heq⟩ := h.mergeAll_congr hsame
    exact ⟨hfailed.symm, fun hactive => (heq hactive).symm⟩

/-- The signature of one signer and a PSBT without any, in both orders and with a repetition. -/
theorem mergeAll_confluent_sample :
    ∃ r, start .sample samplePsbt = .ok r ∧ ¬ (r.mergeAll [signedSamplePsbt, samplePsbt]).Failed ∧
      (r.mergeAll [signedSamplePsbt, samplePsbt]).state = .complete ∧
      (r.mergeAll [samplePsbt, signedSamplePsbt]).state = .complete ∧
      r.mergeAll [signedSamplePsbt, samplePsbt, samplePsbt] =
        r.mergeAll [signedSamplePsbt, samplePsbt] := by
  obtain ⟨r, hstart⟩ := start_samplePsbt
  have hrun : (start .sample samplePsbt).toOption.map
      (fun r => (r.mergeAll [signedSamplePsbt, samplePsbt]).state) = some .complete := by
    decide +kernel
  have hcomplete : (r.mergeAll [signedSamplePsbt, samplePsbt]).state = .complete := by
    rw [hstart] at hrun
    exact Option.some.inj hrun
  have hactive : ¬ (r.mergeAll [signedSamplePsbt, samplePsbt]).Failed := by
    rintro ⟨reason, h⟩
    rw [hcomplete] at h
    cases h
  obtain ⟨hperm, _, _, hagain, _⟩ := mergeAll_confluent hstart [signedSamplePsbt, samplePsbt]
  have hswapped := (hperm [samplePsbt, signedSamplePsbt] (.swap _ _ [])).2 hactive
  have hrepeated := (hagain samplePsbt [signedSamplePsbt] [samplePsbt]
    (List.mem_cons_of_mem _ List.mem_cons_self) rfl).2 hactive
  exact ⟨r, hstart, hactive, hcomplete, hswapped.2.2.2.symm.trans hcomplete, hrepeated⟩

end SignetFederation.Round
