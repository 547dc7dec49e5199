import SignetFederation.Proofs.Signet.Embedding

/-!
# Embedding in place

Embedding writes the script first and computes the merkle root after it, which would leave a block
without a root half changed. There is no such block: what was written has a first transaction, so it
has a root, and embedding in place is all or nothing (`embedInPlace_eq`). An embedded block answers
every further section as the block before it did (`Embeds.embedSection`), so in a row of sections
the last one that can be embedded wins (`embedAll_eq`), whatever the others left
(`embedInPlace_replaces`).
-/

namespace SignetFederation

open Commitment

namespace Block

/-! ## All or nothing -/

/-- Embedding in place gives the block that embedding returns, or an error and the block as it
was. -/
theorem embedInPlace_eq (b : Block) (data : Bytes) :
    b.embedInPlace data =
      match b.embedSection data with
      | .ok b' => (b', .ok ())
      | .error why => (b, .error why) := by
  unfold embedInPlace embedSection
  split
  · rfl
  cases hc : b.commitment with
  | error why => rfl
  | ok found =>
    obtain ⟨t, index, script⟩ := found
    obtain ⟨rest, o, hcommits, rfl⟩ := commitment_eq_ok_iff.1 hc
    simp only [bind, Except.bind]
    split
    · rfl
    cases resealed data o.script with
    | error why => rfl
    | ok script =>
      -- the transactions that were written are never empty
      obtain ⟨root, hroot⟩ := rootOf_cons (t.withOutputScript index script) rest
      simp only [hcommits.withCommitment, hroot]
      rfl

theorem embedInPlace_eq_ok_iff {b b' : Block} {data : Bytes} :
    b.embedInPlace data = (b', .ok ()) ↔ b.embedSection data = .ok b' := by
  rw [embedInPlace_eq]
  cases b.embedSection data with
  | error why => simp
  | ok b₁ => simp

theorem embedInPlace_of_error {b : Block} {data : Bytes} {why : Error}
    (h : (b.embedInPlace data).2 = .error why) : (b.embedInPlace data).1 = b := by
  rw [embedInPlace_eq] at h ⊢
  cases hdata : b.embedSection data with
  | error why' => rfl
  | ok b' =>
    rw [hdata] at h
    cases h

/-! ## What was embedded before -/

namespace Embeds

variable {b b' : Block} {data : Bytes} {t : Transaction} {rest : List Transaction} {index : Nat}
  {o : TxOut} {script : Script}

/-- The old script and the one with the section are resealed alike. -/
theorem resealed_new (h : Embeds b data b' t rest index o script) (hsection : IsSection data)
    (hdata : data.length < Script.pushLimit) (data' : Bytes) :
    Commitment.resealed data' script = Commitment.resealed data' o.script := by
  obtain ⟨is, hold, hnew⟩ := h.instructions hdata
  have hold' := resealed_eq_ok_iff.2 ⟨is, hold, Eq.refl (Script.ofInstructions (withSection data' is))⟩
  rw [hold', ← withSection_withSection hsection data' is]
  exact resealed_eq_ok_iff.2 ⟨withSection data is, hnew, rfl⟩

/-- An embedded block answers a section as the block it was made of does. -/
theorem embedSection (h : Embeds b data b' t rest index o script) (hsection : IsSection data)
    (hdata : data.length < Script.pushLimit) (data' : Bytes) :
    b'.embedSection data' = b.embedSection data' := by
  have hresealed := h.resealed_new hsection hdata data'
  have hwritten : ∀ s, b'.withCommitment index s = b.withCommitment index s := by
    intro s
    rw [h.commits_new.withCommitment, h.commits.withCommitment, withOutputScript_withOutputScript]
  unfold Block.embedSection
  rw [h.commits_new.commitment, h.commits.commitment, h.header]
  simp only [bind, Except.bind, hresealed, hwritten]

/-- The outputs of the first transaction are those of before but for the one at `index`. -/
theorem eq_set (h : Embeds b data b' t rest index o script) :
    b' = ⟨{ b.header with merkleRoot := b'.header.merkleRoot },
      { t with outputs := t.outputs.set index { o with script } } :: rest⟩ := by
  have houtputs : t.outputs.modify index (fun o => { o with script }) =
      t.outputs.set index { o with script } := by
    refine List.ext_getElem? fun i => ?_
    rw [List.getElem?_modify, List.getElem?_set']
    by_cases hi : index = i
    · subst hi
      simp [h.commits.output]
    · simp [hi]
  rw [← h.header, ← houtputs]
  exact congrArg (Block.mk b'.header) h.transactions

end Embeds

theorem embedSection_embedSection {b b' : Block} {data : Bytes} (h : b.embedSection data = .ok b')
    (data' : Bytes) : b'.embedSection data' = b.embedSection data' := by
  obtain ⟨hsection, hdata, t, rest, index, o, script, hb⟩ := embedSection_eq_ok_iff.1 h
  exact hb.embedSection hsection hdata data'

/-! ## Sections in a row -/

/-- A block after sections were embedded in place one after another, whatever the answers. -/
def embedAll (b : Block) (sections : List Bytes) : Block :=
  sections.foldl (fun b data => (b.embedInPlace data).1) b

/-- No section changes what embedding another one gives. -/
theorem embedSection_embedInPlace (b : Block) (data data' : Bytes) :
    (b.embedInPlace data).1.embedSection data' = b.embedSection data' := by
  rw [embedInPlace_eq]
  cases h : b.embedSection data with
  | error why => rfl
  | ok b' => exact embedSection_embedSection h data'

/-- The last section that the block takes wins. -/
theorem embedAll_eq (b : Block) (sections : List Bytes) :
    b.embedAll sections =
      (sections.reverse.findSome? fun data => (b.embedSection data).toOption).getD b := by
  induction sections generalizing b with
  | nil => rfl
  | cons first rest ih =>
    have hsame : (fun data => ((b.embedInPlace first).1.embedSection data).toOption) =
        fun data => (b.embedSection data).toOption :=
      funext fun data => congrArg Except.toOption (embedSection_embedInPlace b first data)
    have hrun : b.embedAll (first :: rest) = (b.embedInPlace first).1.embedAll rest := rfl
    rw [hrun, ih, hsame, List.reverse_cons, List.findSome?_append]
    cases rest.reverse.findSome? fun data => (b.embedSection data).toOption with
    | some b' => rfl
    | none =>
      rw [embedInPlace_eq]
      cases h : b.embedSection first with
      | error why => simp [h, Except.toOption]
      | ok b' => simp [h, Except.toOption]

/-- **The last section wins and nothing else changes.** An error leaves the block as it was. A
section that is embedded changes the script of the witness commitment in the first transaction and
the merkle root, and no other part of the block. The block that comes out answers a further section
as the one that went in: with the same block, or with the same error. So a row of sections leaves
the block of the last one that can be embedded. -/
theorem embedInPlace_replaces (b : Block) (data : Bytes) :
    (∀ why, (b.embedInPlace data).2 = .error why → (b.embedInPlace data).1 = b) ∧
      (∀ b', b.embedInPlace data = (b', .ok ()) →
        (∃ t rest index o script, b.transactions = t :: rest ∧
          b.commitmentIndex? = some index ∧ t.outputs[index]? = some o ∧
          b' = ⟨{ b.header with merkleRoot := b'.header.merkleRoot },
            { t with outputs := t.outputs.set index { o with script } } :: rest⟩) ∧
        ∀ data', (b'.embedInPlace data').2 = (b.embedInPlace data').2 ∧
          ((b.embedInPlace data').2 = .ok () →
            b'.embedInPlace data' = b.embedInPlace data')) ∧
      ∀ sections, b.embedAll sections =
        (sections.reverse.findSome? fun data => (b.embedSection data).toOption).getD b := by
  refine ⟨fun why h => embedInPlace_of_error h, fun b' h => ⟨?_, fun data' => ?_⟩, embedAll_eq b⟩
  · obtain ⟨_, _, t, rest, index, o, script, hb⟩ :=
      embedSection_eq_ok_iff.1 (embedInPlace_eq_ok_iff.1 h)
    refine ⟨t, rest, index, o, script, hb.commits.transactions, ?_, hb.commits.output, hb.eq_set⟩
    rw [commitmentIndex?, hb.commits.transactions]
    exact hb.commits.place
  · have hsame := embedSection_embedSection (embedInPlace_eq_ok_iff.1 h) data'
    rw [embedInPlace_eq b', embedInPlace_eq b, hsame]
    cases b.embedSection data' with
    | error why =>
      refine ⟨rfl, fun hok => ?_⟩
      cases hok
    | ok b'' => exact ⟨rfl, fun _ => rfl⟩

/-- The sample block takes two sections, the second in place of the first, and refuses bytes without
the header. -/
theorem embedInPlace_replaces_sample :
    ∃ b₁ b₂, Block.sample.embedInPlace [0xec, 0xc7, 0xda, 0xa2, 0xff] = (b₁, .ok ()) ∧
      Block.sample.embedInPlace [0xec, 0xc7, 0xda, 0xa2, 1, 2] = (b₂, .ok ()) ∧
      b₁.embedInPlace [0xec, 0xc7, 0xda, 0xa2, 1, 2] = (b₂, .ok ()) ∧
      (b₁.embedInPlace [1, 2]).1 = b₁ ∧
      Block.sample.embedAll [[0xec, 0xc7, 0xda, 0xa2, 0xff], [1, 2]] = b₁ := by
  have htaken : (Block.sample.embedSection [0xec, 0xc7, 0xda, 0xa2, 0xff]).toOption.isSome = true ∧
      (Block.sample.embedSection [0xec, 0xc7, 0xda, 0xa2, 1, 2]).toOption.isSome = true := by
    decide +kernel
  have hrefused : ∀ b : Block, b.embedInPlace [1, 2] = (b, .error (.block .noHeader)) := fun _ => rfl
  obtain ⟨_, hkeeps, hrun⟩ := embedInPlace_replaces Block.sample [0xec, 0xc7, 0xda, 0xa2, 0xff]
  cases h₁ : Block.sample.embedSection [0xec, 0xc7, 0xda, 0xa2, 0xff] with
  | error why =>
    rw [h₁] at htaken
    cases htaken.1
  | ok b₁ =>
    cases h₂ : Block.sample.embedSection [0xec, 0xc7, 0xda, 0xa2, 1, 2] with
    | error why =>
      rw [h₂] at htaken
      cases htaken.2
    | ok b₂ =>
      have hb₁ := embedInPlace_eq_ok_iff.2 h₁
      have hb₂ := embedInPlace_eq_ok_iff.2 h₂
      have hagain := ((hkeeps b₁ hb₁).2 [0xec, 0xc7, 0xda, 0xa2, 1, 2]).2 (congrArg Prod.snd hb₂)
      have hfailed := (embedInPlace_replaces b₁ [1, 2]).1 _ (congrArg Prod.snd (hrefused b₁))
      refine ⟨b₁, b₂, hb₁, hb₂, hagain.trans hb₂, hfailed, ?_⟩
      have hnone : (Block.sample.embedSection [1, 2]).toOption = none := rfl
      have hsome := congrArg Except.toOption h₁
      rw [hrun, List.reverse_cons, List.reverse_singleton, List.singleton_append,
        List.findSome?_cons, hnone, List.findSome?_cons, hsome]
      rfl

end Block

end SignetFederation
