import SignetFederation.Proofs.Quorum.LeafScript
import SignetFederation.Proofs.Signet.Finishing
import SignetFederation.Proofs.Signing.Additions
import SignetFederation.Proofs.Signing.Failures

/-!
# The leaf script tells its quorum

A leaf script has no field for the number of its keys, but its instructions are read in one way
only. The last two compare the count with the threshold, and a number pushed by an opcode of its own
is never mistaken for one pushed as data. Before them every push is a key. So keys, their order and
the threshold follow from the script (`multisigScript_inj`), and where a PSBT or a witness is
compared with the script of a quorum, a leaf of any other keys, order or threshold is refused.

Main statement: `leafScript_identifies`.
-/

namespace SignetFederation.Quorum

open Tapscript

/-! ## Reading the keys and the threshold -/

/-- The data of an instruction that pushes some. -/
def pushedData? : Instruction → Option Bytes
  | .push data => some data
  | .op _ => none

theorem filterMap_keyInstructions (code : UInt8) (key : XOnlyKey) :
    (keyInstructions code key).filterMap pushedData? = [key.bytes.toBytes] := rfl

/-- What the instructions push before they compare with the threshold are the keys. -/
theorem exists_leafInstructions_eq (keys : List XOnlyKey) (threshold : Nat) :
    ∃ is, leafInstructions keys threshold = is ++ thresholdInstructions threshold ∧
      is.filterMap pushedData? = keys.map fun key => key.bytes.toBytes := by
  refine ⟨_, rfl, ?_⟩
  cases keys with
  | nil => rfl
  | cons first rest =>
    simp only [List.filterMap_append, List.filterMap_flatMap, filterMap_keyInstructions,
      List.singleton_append, List.map_cons, ← List.map_eq_flatMap]

/-- Numbers are told apart by the instructions that push them: each leaves its own number. -/
theorem pushNumber_inj {m n : Nat} (hm : m < 2 ^ 31) (hn : n < 2 ^ 31)
    (h : pushNumber m = pushNumber n) : m = n := by
  obtain ⟨item, hstep, hitem⟩ := step_pushNumber (fun _ _ => false) hm []
  obtain ⟨item', hstep', hitem'⟩ := step_pushNumber (fun _ _ => false) hn []
  rw [h, hstep'] at hstep
  cases hstep
  rw [hitem'] at hitem
  exact Int.ofNat.inj (Option.some.inj hitem).symm

theorem toBytes_injective : Function.Injective fun key : XOnlyKey => key.bytes.toBytes :=
  fun ⟨_⟩ ⟨_⟩ h => congrArg XOnlyKey.mk (FixedBytes.ext_toBytes h)

/-- Keys, their order and the threshold follow from the leaf script. -/
theorem multisigScript_inj {keys keys' : List XOnlyKey} {threshold threshold' : Nat}
    (h : threshold < 2 ^ 31) (h' : threshold' < 2 ^ 31) :
    multisigScript keys threshold = multisigScript keys' threshold' ↔
      keys = keys' ∧ threshold = threshold' := by
  refine ⟨fun heq => ?_, fun ⟨hkeys, hthreshold⟩ => by rw [hkeys, hthreshold]⟩
  obtain ⟨is, his, hkeys⟩ := exists_leafInstructions_eq keys threshold
  obtain ⟨is', his', hkeys'⟩ := exists_leafInstructions_eq keys' threshold'
  have hread : leafInstructions keys threshold = leafInstructions keys' threshold' := by
    have hscript := congrArg Script.instructions? heq
    rw [instructions?_multisigScript h, instructions?_multisigScript h'] at hscript
    exact Option.some.inj hscript
  -- both readings end in two instructions, so what comes before them is the same row
  rw [his, his'] at hread
  obtain ⟨hbefore, hend⟩ := List.append_inj' hread rfl
  refine ⟨?_, pushNumber_inj h h' (List.cons.inj hend).1⟩
  rw [hbefore, hkeys'] at hkeys
  exact (toBytes_injective.list_map hkeys).symm

/-! ## Leaves of other quorums -/

/-- The numbers of keys and the thresholds that quorums are made with. -/
structure Admissible (keys : List XOnlyKey) (threshold : Nat) : Prop where
  pos : 0 < threshold
  le : threshold ≤ keys.length
  length_le : keys.length ≤ maxSigners

theorem admissible (q : Quorum) : Admissible q.signers q.threshold :=
  ⟨q.threshold_pos, q.threshold_le, q.signers_le⟩

theorem Admissible.threshold_lt {keys : List XOnlyKey} {threshold : Nat}
    (h : Admissible keys threshold) : threshold < 2 ^ 31 :=
  Nat.lt_of_le_of_lt (Nat.le_trans h.le h.length_le) (by decide)

/-- The script of a quorum is that of its own keys and threshold only. -/
theorem Admissible.multisigScript_eq_script_iff {keys : List XOnlyKey} {threshold : Nat}
    (h : Admissible keys threshold) (q : Quorum) :
    multisigScript keys threshold = q.script ↔ keys = q.signers ∧ threshold = q.threshold := by
  rw [q.script_eq]
  exact multisigScript_inj h.threshold_lt q.admissible.threshold_lt

/-- An input has a leaf script among its leaves, under some control block. -/
def Carries (i : Psbt.Input) (script : Script) : Prop :=
  ∃ control version, i.tapScripts.get? control = some (script, version)

section Foreign

variable {q : Quorum} {i : Psbt.Input} {script : Script}

theorem not_ownsLeaves_of_carries (hcarries : Carries i script) (hother : script ≠ q.script) :
    q.ownsLeaves i = false := by
  obtain ⟨control, version, hleaf⟩ := hcarries
  exact Bool.eq_false_iff.2 fun howns => hother (ownsLeaves_iff.1 howns control _ hleaf).2

/-- A foreign leaf ends a merge before any signature is looked at. -/
theorem merge_of_carries {r : Round} {p : Psbt} (hactive : r.failure = none)
    (hi : Round.Concerns r.psbt.unsigned p i) (hcarries : Carries i script)
    (hother : script ≠ r.quorum.script) :
    r.merge p = (r.fail (.scriptMismatch .foreignLeafScript),
      .error (.scriptMismatch .foreignLeafScript)) := by
  obtain ⟨control, version, hleaf⟩ := hcarries
  have hforeign : ¬ i.tapScripts.entries.all (fun e => e.2.1 == r.quorum.script) = true := by
    rw [List.all_eq_true]
    intro hall
    exact hother (beq_iff_eq.1 (hall _ (SortedMap.mem_entries_iff.2 hleaf)))
  obtain ⟨rest, hinputs⟩ := List.head?_eq_some_iff.1 hi.2
  simp only [Round.merge, hactive, hi.1, hinputs, Round.contributions, if_neg hforeign,
    List.cons_append, Round.takeAll, ne_eq, not_true_eq_false, if_false]

theorem update_of_carries {p : Psbt} {spent : TxOut} (honly : p.onlyInput = .ok (i, spent))
    (hcarries : Carries i script) (hother : script ≠ q.script) :
    ∃ why, q.update p = .error (.scriptMismatch why) := by
  refine exists_mismatch_of_update honly fun hchecked => ?_
  have howns := ownsLeaves_iff.2 hchecked.leaves
  rw [not_ownsLeaves_of_carries hcarries hother] at howns
  cases howns

theorem buildWitness_of_carries (hkey : i.tapKeySignature = none) (hcarries : Carries i script)
    (hother : script ≠ q.script) :
    Solution.buildWitness q i = .error (.scriptMismatch .leafScript) := by
  simp only [Solution.buildWitness, hkey, not_ownsLeaves_of_carries hcarries hother, Bool.not_false,
    if_true]

/-- A finished stack with another script in the place of the quorum's. The place is behind one item
for each key, so such a witness is not taken for a signature alone. -/
theorem checkWitness_of_other {w : Witness} (hscript : w[q.signers.length]? = some script)
    (hother : script ≠ q.script) :
    ∃ why, Solution.checkWitness q w = .error (.scriptMismatch why) := by
  have hkeys := Nat.lt_of_lt_of_le q.threshold_pos q.threshold_le
  have hlength := (List.getElem?_eq_some_iff.1 hscript).1
  have hplace : w[q.signers.length]? ≠ some q.script := by rwa [hscript, ne_eq, Option.some_inj]
  unfold Solution.checkWitness
  split
  · rw [List.length_singleton] at hlength
    omega
  · simp only [throw_bind]
    by_cases hcount : w.length = q.signers.length + 2
    · exact ⟨.witnessScript, by rw [if_neg (not_not.2 hcount), if_pos hplace]⟩
    · exact ⟨_, if_pos hcount⟩

end Foreign

/-- Leaf scripts tell the keys, their order and the threshold, for all keys and thresholds that a
quorum may have. Where one that is not of the keys and the threshold of a quorum comes with a PSBT
or in a finished witness, it is refused: it fails a round that merges it, the PSBT is not prepared,
and neither a witness nor a finished stack is made of it. -/
theorem leafScript_identifies {keys : List XOnlyKey} {threshold : Nat}
    (h : Admissible keys threshold) :
    (∀ keys' threshold', Admissible keys' threshold' →
      (multisigScript keys threshold = multisigScript keys' threshold' ↔
        keys = keys' ∧ threshold = threshold')) ∧
    ∀ q : Quorum, ¬ (keys = q.signers ∧ threshold = q.threshold) →
      (∀ (r : Round) (p : Psbt) (i : Psbt.Input), r.quorum = q → r.failure = none →
        Round.Concerns r.psbt.unsigned p i → Carries i (multisigScript keys threshold) →
        r.merge p = (r.fail (.scriptMismatch .foreignLeafScript),
          .error (.scriptMismatch .foreignLeafScript))) ∧
      (∀ (p : Psbt) (i : Psbt.Input) (spent : TxOut), p.onlyInput = .ok (i, spent) →
        Carries i (multisigScript keys threshold) →
        ∃ why, q.update p = .error (.scriptMismatch why)) ∧
      (∀ i : Psbt.Input, i.tapKeySignature = none → Carries i (multisigScript keys threshold) →
        Solution.buildWitness q i = .error (.scriptMismatch .leafScript)) ∧
      ∀ w : Witness, w[q.signers.length]? = some (multisigScript keys threshold) →
        ∃ why, Solution.checkWitness q w = .error (.scriptMismatch why) := by
  refine ⟨fun keys' threshold' h' => multisigScript_inj h.threshold_lt h'.threshold_lt,
    fun q hdiffers => ?_⟩
  have hother := mt (h.multisigScript_eq_script_iff q).1 hdiffers
  refine ⟨?_, ?_, ?_, ?_⟩
  · rintro r p i rfl hactive hi hcarries
    exact merge_of_carries hactive hi hcarries hother
  · exact fun p i spent honly hcarries => update_of_carries honly hcarries hother
  · exact fun i hkey hcarries => buildWitness_of_carries hkey hcarries hother
  · exact fun w hscript => checkWitness_of_other hscript hother

/-- The script of the sample quorum with its keys the other way round. -/
def swappedSampleScript : Script := multisigScript sample.signers.reverse sample.threshold

/-- An input that spends an output of the sample quorum, with the swapped script for a leaf. -/
def swappedSampleInput : Psbt.Input :=
  { Psbt.Input.blank with
    spentOutput := some ⟨0, sample.challenge⟩
    tapScripts := (∅ : SortedMap ControlBlock (Script × UInt8)).insert sample.controlBlock
      (swappedSampleScript, Taproot.scriptLeaf) }

/-- A PSBT with that input. -/
def swappedSamplePsbt : Psbt := { Round.samplePsbt with inputs := [swappedSampleInput] }

/-- The leaf with the keys of the sample quorum the other way round, which has the length of its own
leaf and the same threshold, is refused everywhere. -/
theorem leafScript_identifies_swapped :
    swappedSampleScript.length = sample.script.length ∧ swappedSampleScript ≠ sample.script ∧
    (∀ hashes, ((Round.unsigned sample Round.samplePsbt hashes).merge swappedSamplePsbt).2 =
      .error (.scriptMismatch .foreignLeafScript)) ∧
    (∃ why, sample.update swappedSamplePsbt = .error (.scriptMismatch why)) ∧
    Solution.buildWitness sample swappedSampleInput = .error (.scriptMismatch .leafScript) ∧
    ∃ why, Solution.checkWitness sample
        [List.replicate 64 0, [], swappedSampleScript, sample.controlBlock.encode] =
      .error (.scriptMismatch why) := by
  have hdiffers : ¬ (sample.signers.reverse = sample.signers ∧
      sample.threshold = sample.threshold) := by decide +kernel
  have hcarries : Carries swappedSampleInput swappedSampleScript :=
    ⟨sample.controlBlock, Taproot.scriptLeaf, by simp [swappedSampleInput]⟩
  have hadmissible : Admissible sample.signers.reverse sample.threshold :=
    ⟨by decide, by decide, by decide⟩
  obtain ⟨hinj, hrefused⟩ := leafScript_identifies hadmissible
  obtain ⟨hmerge, hupdate, hbuild, hcheck⟩ := hrefused sample hdiffers
  refine ⟨by decide, fun heq => ?_, fun hashes => ?_, ?_, ?_, ?_⟩
  · exact hdiffers ((hinj _ _ sample.admissible).1 (heq.trans sample.script_eq))
  · exact congrArg Prod.snd (hmerge (.unsigned sample Round.samplePsbt hashes) swappedSamplePsbt
      swappedSampleInput rfl rfl ⟨rfl, rfl⟩ hcarries)
  · exact hupdate _ _ _ rfl hcarries
  · exact hbuild _ rfl hcarries
  · exact hcheck _ rfl

end SignetFederation.Quorum
