import SignetFederation.Proofs.Outcome
import SignetFederation.Proofs.Signet.Sections
import SignetFederation.Signet.Spend

/-!
# Blocks with a solution

Embedding a section changes one output script of the first transaction and the merkle root in the
header (`embedSection_eq_ok_iff`). What is signed is the block with its section cut down to the bare
header, so it stays the same (`embedSection_keeps_signed`): the signatures can be made before the solution
is in the block.
-/

namespace SignetFederation

open Commitment

/-! ## The commitment of a block -/

namespace Block

/-- A block whose first transaction commits to the witnesses, in the output at `index`. -/
structure Commits (b : Block) (t : Transaction) (rest : List Transaction) (index : Nat)
    (o : TxOut) : Prop where
  transactions : b.transactions = t :: rest
  place : t.commitmentIndex? = some index
  output : t.outputs[index]? = some o

namespace Commits

variable {b : Block} {t : Transaction} {rest : List Transaction} {index : Nat} {o : TxOut}

theorem isCommitment (h : b.Commits t rest index o) : isCommitment o.script = true := by
  obtain ⟨a, ha, hp⟩ := getElem?_of_lastIndex? h.place
  cases h.output.symm.trans ha
  exact hp

theorem commitment (h : b.Commits t rest index o) : b.commitment = .ok (t, index, o.script) := by
  unfold Block.commitment
  rw [h.transactions]
  simp only [h.place, h.output]

theorem withCommitment (h : b.Commits t rest index o) (script : Script) :
    b.withCommitment index script = t.withOutputScript index script :: rest := by
  unfold Block.withCommitment
  rw [h.transactions]

/-- A block still commits in the same output if another commitment is put there. -/
theorem replace (h : b.Commits t rest index o) {b' : Block} {script : Script}
    (hscript : Commitment.isCommitment script = true)
    (hb : b'.transactions = t.withOutputScript index script :: rest) :
    b'.Commits (t.withOutputScript index script) rest index { o with script } where
  transactions := hb
  place := lastIndex?_modify h.place fun _ _ => hscript
  output := by simp [Transaction.withOutputScript, h.output]

/-- The solution of a block is the first one among the instructions of its commitment. -/
theorem solution (h : b.Commits t rest index o) {is : List Instruction}
    (his : Script.instructions? o.script = some is) : b.solution = .ok (solution? is) := by
  unfold Block.solution Commitment.instructions
  rw [h.commitment]
  simp only [bind, Except.bind, his]
  rfl

/-- The signed root is that of the transactions with the bare header in the commitment. -/
theorem signetRoot (h : b.Commits t rest index o) {is : List Instruction}
    (his : Script.instructions? o.script = some is) :
    b.signetRoot = rootOf (t.withOutputScript index
      (Script.ofInstructions (withSection Commitment.header is)) :: rest) := by
  unfold Block.signetRoot
  rw [h.commitment]
  simp only [bind, Except.bind, resealed_eq_ok_iff.2 ⟨is, his, rfl⟩, h.withCommitment]

end Commits

theorem commitment_eq_ok_iff {b : Block} {t : Transaction} {index : Nat} {script : Script} :
    b.commitment = .ok (t, index, script) ↔
      ∃ rest o, b.Commits t rest index o ∧ o.script = script := by
  constructor
  · intro h
    unfold Block.commitment at h
    split at h
    · cases h
    · next t' rest ht =>
      split at h
      · cases h
      · next i hi =>
        split at h
        · next o ho =>
          cases h
          exact ⟨rest, o, ⟨ht, hi, ho⟩, rfl⟩
        · cases h
  · rintro ⟨rest, o, h, rfl⟩
    exact h.commitment

theorem withOutputScript_withOutputScript (t : Transaction) (index : Nat)
    (script script' : Script) :
    (t.withOutputScript index script).withOutputScript index script' =
      t.withOutputScript index script' := by
  simp only [Transaction.withOutputScript, List.modify_modify_eq]
  rfl

theorem rootOf_eq_ok_iff {ts : List Transaction} {root : Digest} :
    rootOf ts = .ok root ↔ Merkle.root? (ts.map Transaction.txid) = some root := by
  unfold rootOf
  cases Merkle.root? (ts.map Transaction.txid) <;> simp

theorem rootOf_cons (t : Transaction) (rest : List Transaction) :
    ∃ root, rootOf (t :: rest) = .ok root := by
  obtain ⟨root, hroot⟩ := Option.isSome_iff_exists.1
    (Merkle.root?_isSome (List.cons_ne_nil t.txid (rest.map Transaction.txid)))
  exact ⟨root, rootOf_eq_ok_iff.2 hroot⟩

/-! ## Embedding -/

/-- What embedding a section leaves: the section in the commitment, and the root that follows. -/
structure Embeds (b : Block) (data : Bytes) (b' : Block) (t : Transaction)
    (rest : List Transaction) (index : Nat) (o : TxOut) (script : Script) : Prop where
  commits : b.Commits t rest index o
  resealed : Commitment.resealed data o.script = .ok script
  transactions : b'.transactions = t.withOutputScript index script :: rest
  root : rootOf b'.transactions = .ok b'.header.merkleRoot
  header : b'.header = { b.header with merkleRoot := b'.header.merkleRoot }

theorem embedSection_eq_ok_iff {b b' : Block} {data : Bytes} :
    b.embedSection data = .ok b' ↔ IsSection data ∧ data.length < Script.pushLimit ∧
      ∃ t rest index o script, Embeds b data b' t rest index o script := by
  have hcheck : ¬ (!(Commitment.header.isPrefixOf data) ||
      (data.drop Commitment.header.length).isEmpty) = true ↔ IsSection data := by
    unfold IsSection
    rw [Bool.or_eq_true, not_or, Bool.not_eq_true', Bool.not_eq_false, List.isEmpty_iff]
  simp only [embedSection, throw_bind, ite_error_eq_ok_iff, bind_eq_ok_iff, pure_eq_ok_iff, hcheck,
    Nat.not_le]
  refine and_congr_right fun _ => ?_
  constructor
  · rintro ⟨⟨t, index, s⟩, hc, hlen, script, hscript, root, hroot, rfl⟩
    obtain ⟨rest, o, hcommits, rfl⟩ := commitment_eq_ok_iff.1 hc
    rw [hcommits.withCommitment] at hroot
    exact ⟨hlen, t, rest, index, o, script, hcommits, hscript, hcommits.withCommitment script,
      by rw [hcommits.withCommitment]; exact hroot, rfl⟩
  · rintro ⟨hlen, t, rest, index, o, script, h⟩
    refine ⟨(t, index, o.script), h.commits.commitment, hlen, script, h.resealed,
      b'.header.merkleRoot, ?_, ?_⟩
    · rw [h.commits.withCommitment, ← h.transactions]
      exact h.root
    · rw [h.commits.withCommitment, ← h.transactions, ← h.header]

/-- When a section can be embedded. -/
theorem exists_embedSection_iff {b : Block} {data : Bytes} :
    (∃ b', b.embedSection data = .ok b') ↔
      IsSection data ∧ data.length < Script.pushLimit ∧ ∃ t rest index o is,
        b.Commits t rest index o ∧ Script.instructions? o.script = some is := by
  constructor
  · rintro ⟨b', h⟩
    obtain ⟨hsection, hdata, t, rest, index, o, script, hb⟩ := embedSection_eq_ok_iff.1 h
    obtain ⟨is, his, _⟩ := resealed_eq_ok_iff.1 hb.resealed
    exact ⟨hsection, hdata, t, rest, index, o, is, hb.commits, his⟩
  · rintro ⟨hsection, hdata, t, rest, index, o, is, hcommits, his⟩
    obtain ⟨root, hroot⟩ := rootOf_cons
      (t.withOutputScript index (Script.ofInstructions (withSection data is))) rest
    exact ⟨⟨{ b.header with merkleRoot := root }, _⟩, embedSection_eq_ok_iff.2
      ⟨hsection, hdata, t, rest, index, o, _, hcommits, resealed_eq_ok_iff.2 ⟨is, his, rfl⟩, rfl,
        hroot, rfl⟩⟩

namespace Embeds

variable {b b' : Block} {data : Bytes} {t : Transaction} {rest : List Transaction} {index : Nat}
  {o : TxOut} {script : Script}

/-- The commitment reads as before but for the section. -/
theorem instructions (h : Embeds b data b' t rest index o script)
    (hdata : data.length < Script.pushLimit) :
    ∃ is, Script.instructions? o.script = some is ∧
      Script.instructions? script = some (withSection data is) := by
  obtain ⟨is, his, _⟩ := resealed_eq_ok_iff.1 h.resealed
  exact ⟨is, his, instructions?_resealed hdata h.resealed his⟩

/-- The new block commits in the same output. -/
theorem commits_new (h : Embeds b data b' t rest index o script) :
    b'.Commits (t.withOutputScript index script) rest index { o with script } := by
  obtain ⟨is, his, rfl⟩ := resealed_eq_ok_iff.1 h.resealed
  exact h.commits.replace (isCommitment_withSection h.commits.isCommitment his) h.transactions

theorem solution (h : Embeds b data b' t rest index o script) (hsection : IsSection data)
    (hdata : data.length < Script.pushLimit) :
    b'.solution = .ok (some (data.drop Commitment.header.length)) := by
  obtain ⟨is, _, hnew⟩ := h.instructions hdata
  rw [h.commits_new.solution hnew, solution?_withSection hsection]

/-- The header that takes the section's place hides whether there was one. -/
theorem signetRoot (h : Embeds b data b' t rest index o script) (hsection : IsSection data)
    (hdata : data.length < Script.pushLimit) :
    ∃ root, b.signetRoot = .ok root ∧ b'.signetRoot = .ok root := by
  obtain ⟨is, hold, hnew⟩ := h.instructions hdata
  rw [h.commits.signetRoot hold, h.commits_new.signetRoot hnew, withSection_withSection hsection,
    withOutputScript_withOutputScript]
  obtain ⟨root, hroot⟩ := rootOf_cons (t.withOutputScript index
    (Script.ofInstructions (withSection Commitment.header is))) rest
  exact ⟨root, hroot, hroot⟩

end Embeds

/-! ## What is signed -/

/-- What is signed depends on the block's version, predecessor, time and signed root only. -/
theorem signedData_congr {b b' : Block} (hroot : b'.signetRoot = b.signetRoot)
    (hheader : b'.header = { b.header with merkleRoot := b'.header.merkleRoot }) :
    b'.signedData = b.signedData := by
  unfold signedData
  rw [hroot, hheader]

theorem toSpend_congr {b b' : Block} (h : b'.signedData = b.signedData) (challenge : Script) :
    b'.toSpend challenge = b.toSpend challenge := by
  unfold toSpend
  rw [h]

theorem toSign_congr {b b' : Block} (h : b'.signedData = b.signedData) (challenge : Script) :
    b'.toSign challenge = b.toSign challenge := by
  unfold toSign
  rw [toSpend_congr h]

theorem signetPsbt_congr {b b' : Block} (h : b'.signedData = b.signedData) (challenge : Script) :
    b'.signetPsbt challenge = b.signetPsbt challenge := by
  unfold signetPsbt
  rw [toSpend_congr h, toSign_congr h]

/-- A block whose commitment holds a solution in a push that is longer than it has to be. -/
def sample : Block where
  header := ⟨1, .zero 32, .zero 32, 0, 0, 0⟩
  transactions := [⟨1, [⟨.null, [], 0, []⟩], [⟨0, outputStart ++ List.replicate 32 0 ++
    [0x4c, 8] ++ Commitment.header ++ [1, 2, 3, 4]⟩], 0⟩]

/-- **Embedding keeps what was signed.** A section can be embedded exactly if it has something behind
its header, fits into a push, and the block has a commitment that can be read. The block with it has
the same signed root, virtual transactions and PSBT as before; the section without its header reads
back as the solution, the commitment is found in the same output, and the header holds the root of
the transactions. -/
theorem embedSection_keeps_signed (b : Block) (data : Bytes) :
    ((∃ b', b.embedSection data = .ok b') ↔
      IsSection data ∧ data.length < Script.pushLimit ∧ ∃ t rest index o is,
        b.Commits t rest index o ∧ Script.instructions? o.script = some is) ∧
      ∀ b', b.embedSection data = .ok b' →
        (∃ root, b.signetRoot = .ok root ∧ b'.signetRoot = .ok root) ∧
          (∀ challenge, b'.toSpend challenge = b.toSpend challenge ∧
            b'.toSign challenge = b.toSign challenge ∧
            b'.signetPsbt challenge = b.signetPsbt challenge) ∧
          b'.solution = .ok (some (data.drop 4)) ∧
          (∃ index, b.commitmentIndex? = some index ∧ b'.commitmentIndex? = some index) ∧
          b'.computedRoot? = some b'.header.merkleRoot := by
  refine ⟨exists_embedSection_iff, fun b' h => ?_⟩
  obtain ⟨hsection, hdata, t, rest, index, o, script, hb⟩ := embedSection_eq_ok_iff.1 h
  obtain ⟨root, hroot, hroot'⟩ := hb.signetRoot hsection hdata
  have hsigned := signedData_congr (hroot'.trans hroot.symm) hb.header
  have hnew := hb.commits_new
  refine ⟨⟨root, hroot, hroot'⟩, fun challenge => ?_, hb.solution hsection hdata,
    ⟨index, ?_, ?_⟩, rootOf_eq_ok_iff.1 hb.root⟩
  · exact ⟨toSpend_congr hsigned challenge, toSign_congr hsigned challenge,
      signetPsbt_congr hsigned challenge⟩
  · rw [commitmentIndex?, hb.commits.transactions]
    exact hb.commits.place
  · rw [commitmentIndex?, hnew.transactions]
    exact hnew.place

/-- The solution of the sample block replaced by a shorter one. -/
theorem embedSection_keeps_signed_sample :
    ∃ b', Block.sample.embedSection [0xec, 0xc7, 0xda, 0xa2, 0xff] = .ok b' ∧
      IsSection [0xec, 0xc7, 0xda, 0xa2, 0xff] ∧ b'.solution = .ok (some [0xff]) ∧
      ∃ root, Block.sample.signetRoot = .ok root ∧ b'.signetRoot = .ok root := by
  have hsome : (Block.sample.embedSection
      [0xec, 0xc7, 0xda, 0xa2, 0xff]).toOption.isSome = true := by
    decide +kernel
  obtain ⟨hembeddable, hkeeps⟩ :=
    embedSection_keeps_signed Block.sample [0xec, 0xc7, 0xda, 0xa2, 0xff]
  cases hb : Block.sample.embedSection [0xec, 0xc7, 0xda, 0xa2, 0xff] with
  | error why =>
    rw [hb] at hsome
    cases hsome
  | ok b' =>
    obtain ⟨hroot, _, hsolution, _⟩ := hkeeps b' hb
    exact ⟨b', rfl, (hembeddable.1 ⟨b', hb⟩).1, hsolution, hroot⟩

end Block

end SignetFederation
