import SignetFederation.Proofs.Signing.Workflows

/-!
# What signing adds

A local signer puts its signature into the only input of a PSBT, and beside it what its quorum
prescribes. Three things are looked at before (`Checked`): the script of the spent output, the
internal key and the leaf scripts with their control blocks; if one of them is not the quorum's,
nothing is signed. The merkle root and the version of the leaf are written without a look at what
was there, and the coverage of signatures is left as it is found, though the signature covers
everything. So signing keeps what was there exactly if nobody disputes the first two
(`Adds.keeps_iff`).

Main statement: `LocalSigner.sign_keeps_undisputed`.
-/

namespace SignetFederation

/-! ## What is checked -/

/-- What an input says of itself where it is checked before it is signed. -/
structure Quorum.Checked (q : Quorum) (i : Psbt.Input) (spent : TxOut) : Prop where
  challenge : spent.script = q.challenge
  internalKey : ∀ key, i.tapInternalKey = some key → key = q.internal
  leaves : ∀ control leaf, i.tapScripts.get? control = some leaf →
    control = q.controlBlock ∧ leaf.1 = q.script

/-- What an input says of itself where nobody checks it, but the quorum's own word is put in place.
-/
structure Quorum.Undisputed (q : Quorum) (i : Psbt.Input) : Prop where
  merkleRoot : ∀ root, i.tapMerkleRoot = some root → root = q.merkleRoot
  leafVersion : ∀ leaf, i.tapScripts.get? q.controlBlock = some leaf →
    leaf.2 = Taproot.scriptLeaf

namespace Quorum

variable {q : Quorum} {p base : Psbt} {i : Psbt.Input} {spent : TxOut}

theorem ownsLeaves_iff : q.ownsLeaves i = true ↔
    ∀ control leaf, i.tapScripts.get? control = some leaf →
      control = q.controlBlock ∧ leaf.1 = q.script := by
  simp only [ownsLeaves, List.all_eq_true, Bool.and_eq_true, beq_iff_eq, Prod.forall,
    SortedMap.mem_entries_iff]
  grind

/-- A PSBT is prepared exactly if its input passes what is checked. -/
theorem update_eq_ok_iff_checked : q.update p = .ok base ↔
    ∃ i spent, p.onlyInput = .ok (i, spent) ∧ q.Checked i spent ∧
      base = { p with inputs := [q.fillInput i spent] } := by
  rw [update_eq_ok_iff]
  constructor
  · rintro ⟨i, spent, honly, hscript, hkey, hleaves, hbase⟩
    exact ⟨i, spent, honly, ⟨hscript, hkey, ownsLeaves_iff.1 hleaves⟩, hbase⟩
  · rintro ⟨i, spent, honly, ⟨hscript, hkey, hleaves⟩, hbase⟩
    exact ⟨i, spent, honly, hscript, hkey, ownsLeaves_iff.2 hleaves, hbase⟩

/-- An input that does not pass is refused, as one that is at odds with the quorum's scripts. -/
theorem exists_mismatch_of_update (honly : p.onlyInput = .ok (i, spent))
    (h : ¬ q.Checked i spent) : ∃ why, q.update p = .error (.scriptMismatch why) := by
  cases hupdate : q.update p with
  | ok base =>
    obtain ⟨_, _, honly', hchecked, _⟩ := update_eq_ok_iff_checked.1 hupdate
    rw [honly] at honly'
    cases honly'
    exact absurd hchecked h
  | error why =>
    simp only [update, honly, throw_bind] at hupdate
    change (if _ then _ else _) = _ at hupdate
    split at hupdate
    · cases hupdate
      exact ⟨_, rfl⟩
    · cases hkey : i.tapInternalKey with
      | none =>
        simp only [hkey] at hupdate
        split at hupdate <;> cases hupdate
        exact ⟨_, rfl⟩
      | some key =>
        simp only [hkey] at hupdate
        split at hupdate
        · cases hupdate
          exact ⟨_, rfl⟩
        · split at hupdate <;> cases hupdate
          exact ⟨_, rfl⟩

end Quorum

/-! ## What is added -/

/-- An input without the fields that signers look after. -/
def Psbt.Input.unprepared (i : Psbt.Input) : Psbt.Input :=
  { i with
    spentOutput := none
    tapInternalKey := none
    tapMerkleRoot := none
    tapScripts := ∅
    sighashType := none
    tapKeySignature := none
    tapScriptSignatures := ∅ }

namespace LocalSigner

/-- The place of the signer's signature among the leaf signatures. -/
def Owns (l : LocalSigner) (e : LeafSigner) : Prop :=
  (∃ n, l.slot = .script n) ∧ e = ⟨l.publicKey, l.quorum.leafHash⟩

/-- The second input is the first one with the signer's signature and what its quorum prescribes. -/
structure Adds (l : LocalSigner) (spent : TxOut) (s : TapSignature) (i i' : Psbt.Input) : Prop where
  rest : i'.unprepared = i.unprepared
  spentOutput : i'.spentOutput = some (i.spentOutput.getD spent)
  internalKey : i'.tapInternalKey = some l.quorum.internal
  merkleRoot : i'.tapMerkleRoot = some l.quorum.merkleRoot
  leaf : i'.tapScripts.get? l.quorum.controlBlock = some (l.quorum.script, Taproot.scriptLeaf)
  otherLeaves : ∀ control, control ≠ l.quorum.controlBlock →
    i'.tapScripts.get? control = i.tapScripts.get? control
  coverage : i'.sighashType =
    some (i.sighashType.getD (UInt32.ofNat SighashType.all.toByte.toNat))
  signature : Round.Brings l.quorum i' l.slot s
  keyPath : l.slot ≠ .keyPath → i'.tapKeySignature = i.tapKeySignature
  otherSignatures : ∀ e, ¬ l.Owns e →
    i'.tapScriptSignatures.get? e = i.tapScriptSignatures.get? e

/-- All fields and entries of the first input are in the second one with their values, the signer's
own signature apart. -/
structure Keeps (l : LocalSigner) (i i' : Psbt.Input) : Prop where
  rest : i'.unprepared = i.unprepared
  spentOutput : ∀ out, i.spentOutput = some out → i'.spentOutput = some out
  internalKey : ∀ key, i.tapInternalKey = some key → i'.tapInternalKey = some key
  merkleRoot : ∀ root, i.tapMerkleRoot = some root → i'.tapMerkleRoot = some root
  leaves : ∀ control leaf, i.tapScripts.get? control = some leaf →
    i'.tapScripts.get? control = some leaf
  coverage : ∀ t, i.sighashType = some t → i'.sighashType = some t
  keyPath : l.slot ≠ .keyPath → ∀ s, i.tapKeySignature = some s → i'.tapKeySignature = some s
  signatures : ∀ e, ¬ l.Owns e → ∀ s, i.tapScriptSignatures.get? e = some s →
    i'.tapScriptSignatures.get? e = some s

variable {l : LocalSigner} {p p' : Psbt} {i i' : Psbt.Input} {spent : TxOut} {s : TapSignature}

/-- A filled input with a signature in the signer's slot is the input with what the signer adds. -/
theorem adds_withSignature (l : LocalSigner) (i : Psbt.Input) (spent : TxOut) (s : TapSignature) :
    l.Adds spent s i
      ((l.quorum.fillInput i spent).withSignature l.quorum l.slot l.publicKey s) where
  rest := by cases l.slot <;> rfl
  spentOutput := by cases l.slot <;> rfl
  internalKey := by cases l.slot <;> rfl
  merkleRoot := by cases l.slot <;> rfl
  leaf := by cases l.slot <;> exact SortedMap.get?_insert_self _ _ _
  otherLeaves control h := by cases l.slot <;> exact SortedMap.get?_insert_of_ne _ _ h
  coverage := by cases l.slot <;> rfl
  signature := (Round.brings_withSignature_iff l.occupies).2 (by rw [if_pos rfl])
  keyPath h := by
    cases hs : l.slot with
    | keyPath => exact absurd hs h
    | script n => rfl
  otherSignatures e h := by
    cases hs : l.slot with
    | keyPath => rfl
    | script n => exact SortedMap.get?_insert_of_ne _ _ fun he => h ⟨⟨n, hs⟩, he⟩

/-- What is added takes nothing away exactly if the input does not dispute what is not checked. -/
theorem Adds.keeps_iff (h : l.Adds spent s i i') (hchecked : l.quorum.Checked i spent) :
    l.Keeps i i' ↔ l.quorum.Undisputed i := by
  constructor
  · intro hkeeps
    refine ⟨fun root hroot => ?_, fun leaf hleaf => ?_⟩
    · have := hkeeps.merkleRoot root hroot
      rw [h.merkleRoot] at this
      exact (Option.some.inj this).symm
    · have := hkeeps.leaves _ leaf hleaf
      rw [h.leaf] at this
      rw [← Option.some.inj this]
  · intro hundisputed
    refine ⟨h.rest, fun out hout => ?_, fun key hkey => ?_, fun root hroot => ?_,
      fun control leaf hleaf => ?_, fun t ht => ?_, fun hslot s hs => ?_, fun e he s hs => ?_⟩
    · rw [h.spentOutput, hout]
      rfl
    · rw [h.internalKey, hchecked.internalKey key hkey]
    · rw [h.merkleRoot, hundisputed.merkleRoot root hroot]
    · -- only the quorum's own leaf can be there, and its version is the quorum's
      obtain ⟨rfl, hscript⟩ := hchecked.leaves control leaf hleaf
      rw [h.leaf, ← hscript, ← hundisputed.leafVersion leaf hleaf]
    · rw [h.coverage, ht]
      rfl
    · rw [h.keyPath hslot, hs]
    · rw [h.otherSignatures e he, hs]

/-! ## Signing -/

/-- A signer signs the PSBTs whose input passes what is checked, over the messages of the PSBT that
it makes. -/
theorem sign_eq_ok_iff_checked : l.sign p = .ok p' ↔
    ∃ i spent hashes s, p.onlyInput = .ok (i, spent) ∧ l.quorum.Checked i spent ∧
      l.quorum.sighashes p' = .ok hashes ∧ l.Signs hashes s ∧
      p' = { p with inputs :=
        [(l.quorum.fillInput i spent).withSignature l.quorum l.slot l.publicKey s] } := by
  have hmessages : ∀ (i : Psbt.Input) spent s hashes,
      l.quorum.sighashes { p with inputs :=
        [(l.quorum.fillInput i spent).withSignature l.quorum l.slot l.publicKey s] } = .ok hashes ↔
      l.quorum.sighashes { p with inputs := [l.quorum.fillInput i spent] } = .ok hashes := by
    intro i spent s hashes
    have hsame : Round.withoutSignatures { p with inputs :=
        [(l.quorum.fillInput i spent).withSignature l.quorum l.slot l.publicKey s] } =
        Round.withoutSignatures { p with inputs := [l.quorum.fillInput i spent] } := by
      cases l.slot <;> rfl
    exact ⟨Quorum.sighashes_congr hsame.symm, Quorum.sighashes_congr hsame⟩
  simp only [sign, bind_eq_ok_iff, pure_eq_ok_iff, Quorum.update_eq_ok_iff_checked]
  constructor
  · rintro ⟨_, ⟨i, spent, honly, hchecked, rfl⟩, hashes, hhashes, key, hkey, rfl⟩
    exact ⟨i, spent, hashes, _, honly, hchecked, (hmessages ..).2 hhashes, ⟨key, hkey, rfl⟩, rfl⟩
  · rintro ⟨i, spent, hashes, _, honly, hchecked, hhashes, ⟨key, hkey, rfl⟩, rfl⟩
    exact ⟨_, ⟨i, spent, honly, hchecked, rfl⟩, hashes, (hmessages ..).1 hhashes, key, hkey, rfl⟩

/-- A PSBT that passes what is checked is signed: its messages are known then, and every signer has
a key to sign with. -/
theorem exists_sign_of_checked (honly : p.onlyInput = .ok (i, spent))
    (hchecked : l.quorum.Checked i spent) : ∃ p', l.sign p = .ok p' := by
  obtain ⟨_, placed, hplaced, hspent⟩ := Psbt.onlyInput_eq_ok_iff.1 honly
  have hfilled : Psbt.onlyInput { p with inputs := [l.quorum.fillInput i spent] } =
      .ok (l.quorum.fillInput i spent, spent) := by
    refine Psbt.onlyInput_eq_ok_iff.2 ⟨rfl, placed, hplaced, ?_⟩
    rw [Psbt.Input.spent?, Quorum.spentOutput_fillInput hspent]
  obtain ⟨key, hkey, _⟩ := l.exists_signingKey
  have hupdate := Quorum.update_eq_ok_iff_checked.2 ⟨i, spent, honly, hchecked, rfl⟩
  exact ⟨_, bind_eq_ok_iff.2 ⟨_, hupdate, bind_eq_ok_iff.2
    ⟨_, Quorum.sighashes_of_onlyInput hfilled, bind_eq_ok_iff.2 ⟨_, hkey, rfl⟩⟩⟩⟩

/-- **Signing only adds where nobody disputes it.** A signer signs exactly the PSBTs with one input
whose spent script, internal key and leaf scripts are the quorum's where they are there, and refuses
others as a mismatch. What it signs differs from before in the only input, and there by the
signature, which it makes over the messages of the signed PSBT, and by what the quorum prescribes.
The input keeps all its fields and entries, the signer's own signature apart, exactly if it has no
other merkle root and no other version for the quorum's leaf. -/
theorem sign_keeps_undisputed (l : LocalSigner) (p : Psbt) :
    ((∃ p', l.sign p = .ok p') ↔
      ∃ i spent, p.onlyInput = .ok (i, spent) ∧ l.quorum.Checked i spent) ∧
    (∀ i spent, p.onlyInput = .ok (i, spent) → ¬ l.quorum.Checked i spent →
      ∃ why, l.sign p = .error (.scriptMismatch why)) ∧
    ∀ p', l.sign p = .ok p' → ∃ i i' spent hashes s,
      p.onlyInput = .ok (i, spent) ∧ p.inputs = [i] ∧ p' = { p with inputs := [i'] } ∧
      l.quorum.sighashes p' = .ok hashes ∧ l.Signs hashes s ∧ l.Adds spent s i i' ∧
      (l.Keeps i i' ↔ l.quorum.Undisputed i) := by
  refine ⟨⟨?_, ?_⟩, fun i spent honly hno => ?_, fun p' h => ?_⟩
  · rintro ⟨p', h⟩
    obtain ⟨i, spent, _, _, honly, hchecked, _⟩ := sign_eq_ok_iff_checked.1 h
    exact ⟨i, spent, honly, hchecked⟩
  · rintro ⟨i, spent, honly, hchecked⟩
    exact exists_sign_of_checked honly hchecked
  · obtain ⟨why, hwhy⟩ := Quorum.exists_mismatch_of_update honly hno
    exact ⟨why, by rw [sign, hwhy]; rfl⟩
  · obtain ⟨i, spent, hashes, s, honly, hchecked, hhashes, hs, rfl⟩ := sign_eq_ok_iff_checked.1 h
    have hadds := l.adds_withSignature i spent s
    exact ⟨i, _, spent, hashes, s, honly, (Psbt.onlyInput_eq_ok_iff.1 honly).1, rfl, hhashes, hs,
      hadds, hadds.keeps_iff hchecked⟩

/-- The second signer of the sample quorum. -/
def sampleSecond : LocalSigner where
  quorum := .sample
  slot := .script 1
  secret := ⟨3, by decide, by decide⟩
  occupies := by decide +kernel

/-- The sample PSBT with the first signature and other words about its input. -/
def reworded (f : Psbt.Input → Psbt.Input) : Psbt :=
  { Round.signedSamplePsbt with inputs := Round.signedSamplePsbt.inputs.map f }

/-- The second signer of the sample quorum signs the PSBT with the first one's signature and keeps
everything, and refuses this PSBT with another internal key. -/
theorem sign_keeps_undisputed_sample :
    (∃ p' i i', sampleSecond.sign Round.signedSamplePsbt = .ok p' ∧
      Round.signedSamplePsbt.inputs = [i] ∧ p'.inputs = [i'] ∧ sampleSecond.Keeps i i') ∧
    ∃ why, sampleSecond.sign (reworded fun i =>
        { i with tapInternalKey := some sampleSecond.publicKey }) =
      .error (.scriptMismatch why) := by
  obtain ⟨hsigns, _, hadds⟩ := sign_keeps_undisputed sampleSecond Round.signedSamplePsbt
  obtain ⟨_, hrefused, _⟩ := sign_keeps_undisputed sampleSecond
    (reworded fun i => { i with tapInternalKey := some sampleSecond.publicKey })
  obtain ⟨p', hp'⟩ := hsigns.2 ⟨_, _, rfl, rfl, nofun, nofun⟩
  obtain ⟨i, i', _, _, _, _, hi, rfl, _, _, _, hkeeps⟩ := hadds p' hp'
  refine ⟨⟨_, i, i', hp', hi, rfl, hkeeps.2 ?_⟩, hrefused _ _ rfl fun h => ?_⟩
  · cases hi
    exact ⟨nofun, nofun⟩
  · have hother : sampleSecond.publicKey ≠ Quorum.sample.internal := by decide +kernel
    exact hother (h.internalKey _ rfl)

/-- The sample PSBT that claims another merkle root and another version for the quorum's leaf, and
wants signatures to cover no output. -/
def disputedSamplePsbt : Psbt :=
  reworded fun i =>
    { i with
      tapMerkleRoot := some sampleSecond.publicKey.bytes
      tapScripts := (∅ : SortedMap ControlBlock (Script × UInt8)).insert
        Quorum.sample.controlBlock (Quorum.sample.script, 0xc2)
      sighashType := some 2 }

/-- **Words that are overruled.** The disputed PSBT is signed all the same. Its merkle root and the
version of the leaf are gone, and under the coverage that it wants stands a signature that covers
everything. -/
theorem sign_disputedSamplePsbt : ∃ i p' i' s, disputedSamplePsbt.inputs = [i] ∧
    sampleSecond.sign disputedSamplePsbt = .ok p' ∧ p'.inputs = [i'] ∧ ¬ sampleSecond.Keeps i i' ∧
    i'.tapMerkleRoot ≠ i.tapMerkleRoot ∧
    i'.tapScripts.get? Quorum.sample.controlBlock ≠
      i.tapScripts.get? Quorum.sample.controlBlock ∧
    i.sighashType = some 2 ∧ i'.sighashType = some 2 ∧
    Round.Brings .sample i' (.script 1) s ∧ s.coverage = .all := by
  have hroot : sampleSecond.publicKey.bytes ≠ Quorum.sample.merkleRoot := by decide +kernel
  have hversion : (0xc2 : UInt8) ≠ Taproot.scriptLeaf := by decide
  have hleaf : ∀ control leaf, ((∅ : SortedMap ControlBlock (Script × UInt8)).insert
      Quorum.sample.controlBlock (Quorum.sample.script, 0xc2)).get? control = some leaf →
      control = Quorum.sample.controlBlock ∧ leaf.1 = Quorum.sample.script := by
    intro control leaf h
    rw [SortedMap.get?_insert] at h
    split at h
    · next hcontrol =>
      cases h
      exact ⟨hcontrol, rfl⟩
    · cases h
  have hkey : ∀ key, (none : Option XOnlyKey) = some key → key = Quorum.sample.internal := by
    intro key h
    cases h
  obtain ⟨p', hp'⟩ := exists_sign_of_checked (l := sampleSecond) (p := disputedSamplePsbt) rfl
    ⟨rfl, hkey, hleaf⟩
  obtain ⟨i, spent, _, s, honly, hchecked, _, ⟨_, _, hs⟩, rfl⟩ := sign_eq_ok_iff_checked.1 hp'
  have hadds := sampleSecond.adds_withSignature i spent s
  have hi := (Psbt.onlyInput_eq_ok_iff.1 honly).1
  cases hi
  refine ⟨_, _, _, s, rfl, hp', rfl, fun hkeeps => ?_, fun hsame => ?_, fun hsame => ?_, rfl,
    hadds.coverage, hadds.signature, by rw [hs]⟩
  · exact hroot (((hadds.keeps_iff hchecked).1 hkeeps).merkleRoot _ rfl)
  · rw [hadds.merkleRoot] at hsame
    exact hroot (Option.some.inj hsame).symm
  · have hboth := hadds.leaf.symm.trans (hsame.trans (SortedMap.get?_insert_self _ _ _))
    exact hversion (congrArg Prod.snd (Option.some.inj hboth)).symm

end LocalSigner

end SignetFederation
