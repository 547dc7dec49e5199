import SignetFederation.Proofs.Signet.Embedding
import SignetFederation.Proofs.Signet.Finishing
import SignetFederation.Proofs.Signing.Additions

/-!
# The script of a solution

A witness that is there already is checked before it is taken over, the final script beside it is
not: whatever stands there becomes the script of the solution (`ofPsbt_withFinalScript`).
No step of the work on a PSBT writes another one, neither signing nor a round nor finishing
(`carriedScript_step`), so a solution has the script that the first PSBT carried. The PSBT of a
block carries none, and its solutions have no script then.

Main statement: `Psbt.solution_carries_script`.
-/

namespace SignetFederation

open CompactSize (encodeBytes)

namespace Psbt

/-! ## The script and the witness -/

/-- The final script that the first input carries; one that is missing is empty. -/
def carriedScript (p : Psbt) : Script := (p.inputs.head?.bind Input.finalScriptSig).getD []

/-- The PSBT with another final script for its first input. -/
def withFinalScript (p : Psbt) (script : Option Script) : Psbt :=
  { p with inputs := p.inputs.modifyHead fun i => { i with finalScriptSig := script } }

/-- The script of a solution is the one that the PSBT carries. -/
theorem scriptSig_of_ofPsbt {q : Quorum} {p : Psbt} {s : Solution}
    (h : Solution.ofPsbt q p = .ok s) : s.scriptSig = p.carriedScript := by
  unfold Solution.ofPsbt at h
  cases hinputs : p.inputs with
  | nil =>
    rw [hinputs] at h
    cases h
  | cons i rest =>
    have hcarried : p.carriedScript = i.finalScriptSig.getD [] := by
      rw [carriedScript, hinputs]
      rfl
    cases hfinal : i.finalWitness with
    | some w =>
      simp only [hinputs, hfinal, bind_eq_ok_iff, pure_eq_ok_iff] at h
      obtain ⟨_, _, _, _, rfl⟩ := h
      exact hcarried.symm
    | none =>
      simp only [hinputs, hfinal, bind_eq_ok_iff, pure_eq_ok_iff] at h
      obtain ⟨_, _, rfl⟩ := h
      exact hcarried.symm

/-- Whether there is a solution does not depend on the script, and the witness does not either. -/
theorem ofPsbt_withFinalScript (q : Quorum) (p : Psbt) (script : Option Script) :
    Solution.ofPsbt q (p.withFinalScript script) =
      (Solution.ofPsbt q p).map fun s => { s with scriptSig := script.getD [] } := by
  cases hinputs : p.inputs with
  | nil =>
    simp only [Solution.ofPsbt, withFinalScript, hinputs, List.modifyHead_nil]
    rfl
  | cons i rest =>
    simp only [Solution.ofPsbt, withFinalScript, hinputs, List.modifyHead_cons]
    cases i.finalWitness with
    | none =>
      change (Solution.buildWitness q i >>= _) = _
      cases Solution.buildWitness q i <;> rfl
    | some w =>
      simp only
      cases Solution.checkWitness q w <;> rfl

/-! ## Work on a PSBT -/

/-- What is done with a PSBT: a signer signs it, a round is started with it and worked on, it is
finished. -/
inductive Step
  | sign (l : LocalSigner)
  | collect (q : Quorum) (calls : List Round.Call)
  | finish (q : Quorum)

/-- The PSBT after a step; a step that fails leaves it as it was. -/
def step (p : Psbt) : Step → Psbt
  | .sign l => match l.sign p with
    | .ok p' => p'
    | .error _ => p
  | .collect q calls => match Round.start q p with
    | .ok first => (first.run calls).psbt
    | .error _ => p
  | .finish q => (p.finishInPlace q).1

/-- The PSBT after some steps. -/
def run (p : Psbt) (steps : List Step) : Psbt := steps.foldl step p

theorem carriedScript_sign {l : LocalSigner} {p p' : Psbt} (h : l.sign p = .ok p') :
    p'.carriedScript = p.carriedScript := by
  obtain ⟨i, spent, _, s, honly, _, _, _, rfl⟩ := LocalSigner.sign_eq_ok_iff_checked.1 h
  have hrest := congrArg Input.finalScriptSig (l.adds_withSignature i spent s).rest
  simp only [carriedScript, (onlyInput_eq_ok_iff.1 honly).1, List.head?_cons, Option.bind_some]
  exact congrArg (Option.getD · []) hrest

theorem carriedScript_collect {q : Quorum} {p : Psbt} {first : Round}
    (h : Round.start q p = .ok first) (calls : List Round.Call) :
    (first.run calls).psbt.carriedScript = p.carriedScript := by
  obtain ⟨i₀, i, hi₀, hi, hscript, _⟩ := Round.exists_finals_of_run h calls
  simp only [carriedScript, hi₀, hi, List.head?_cons, Option.bind_some, hscript]

/-- A finished PSBT carries the script that it carried before, also if none was written. -/
theorem carriedScript_finish {q : Quorum} {p p' : Psbt} (h : p.finishInPlace q = (p', .ok ())) :
    p'.inputs.head?.bind Input.finalScriptSig = some p.carriedScript := by
  obtain ⟨i, rest, s, _, hs, _, rfl⟩ := finishInPlace_eq_ok h
  rw [← scriptSig_of_ofPsbt hs]
  rfl

/-- No step changes the script that the PSBT carries. -/
theorem carriedScript_step (p : Psbt) (c : Step) : (p.step c).carriedScript = p.carriedScript := by
  cases c with
  | sign l =>
    simp only [step]
    cases h : l.sign p with
    | ok p' => exact carriedScript_sign h
    | error why => rfl
  | collect q calls =>
    simp only [step]
    cases h : Round.start q p with
    | ok first => exact carriedScript_collect h calls
    | error why => rfl
  | finish q =>
    simp only [step]
    rcases h : p.finishInPlace q with ⟨p', _ | _⟩
    · rw [finishInPlace_eq] at h
      split at h <;> cases h
      rfl
    · rw [carriedScript, carriedScript_finish h]
      rfl

theorem carriedScript_run (p : Psbt) (steps : List Step) :
    (p.run steps).carriedScript = p.carriedScript := by
  induction steps generalizing p with
  | nil => rfl
  | cons c steps ih => exact (ih (p.step c)).trans (p.carriedScript_step c)

/-- The PSBT of a block carries no script. -/
theorem carriedScript_signetPsbt {b : Block} {challenge : Script} {p : Psbt}
    (h : b.signetPsbt challenge = .ok p) : p.carriedScript = [] := by
  simp only [Block.signetPsbt, Block.toSign, bind_eq_ok_iff, pure_eq_ok_iff] at h
  obtain ⟨_, _, _, ⟨_, _, rfl⟩, rfl⟩ := h
  rfl

/-! ## Solutions -/

/-- A block reads back the script and the witness of the solution that was put into it. -/
theorem solution_of_embed {b b' : Block} {s : Solution} (h : b.embed s = .ok b') :
    b'.solution = .ok (some (encodeBytes s.scriptSig ++ Witness.encode s.witness)) := by
  obtain ⟨hsection, hdata, _, _, _, _, _, hb⟩ := Block.embedSection_eq_ok_iff.1 h
  rw [hb.solution hsection hdata, Solution.commitmentSection, List.drop_left]
  rfl

/-- **A solution has the script that the first PSBT carried.** Whatever is done with a PSBT, the
script of a solution that it has then is the final script that its first input had at the start, and
empty if it had none. Finishing writes this script, the section and a block into which it is put
begin with it. Nothing looks at it: with another script in its place the PSBT has the same solution
but for the script. The PSBT of a block carries none. -/
theorem solution_carries_script (p : Psbt) (steps : List Step) (q : Quorum) :
    (∀ s, Solution.ofPsbt q (p.run steps) = .ok s →
      s.scriptSig = p.carriedScript ∧
      (p.run steps).commitmentSection q = .ok (Commitment.header ++
        (encodeBytes p.carriedScript ++ Witness.encode s.witness)) ∧
      (∃ p', (p.run steps).finishInPlace q = (p', .ok ()) ∧
        p'.inputs.head?.bind Input.finalScriptSig = some p.carriedScript) ∧
      ∀ b b' : Block, b.embed s = .ok b' → b'.solution =
        .ok (some (encodeBytes p.carriedScript ++ Witness.encode s.witness))) ∧
    (∀ script, Solution.ofPsbt q ((p.run steps).withFinalScript script) =
      (Solution.ofPsbt q (p.run steps)).map fun s => { s with scriptSig := script.getD [] }) ∧
    ∀ (b : Block) challenge, b.signetPsbt challenge = .ok p → p.carriedScript = [] := by
  refine ⟨fun s hs => ?_, fun script => ofPsbt_withFinalScript q _ script,
    fun b challenge h => carriedScript_signetPsbt h⟩
  have hscript : s.scriptSig = p.carriedScript :=
    (scriptSig_of_ofPsbt hs).trans (carriedScript_run p steps)
  refine ⟨hscript, ?_, ?_, fun b b' h => ?_⟩
  · rw [commitmentSection, hs, ← hscript]
    rfl
  · have hdone : ∃ p', (p.run steps).finishInPlace q = (p', .ok ()) := by
      rw [finishInPlace, hs]
      exact ⟨_, rfl⟩
    obtain ⟨p', hp'⟩ := hdone
    exact ⟨p', hp', by rw [carriedScript_finish hp', carriedScript_run]⟩
  · rw [solution_of_embed h, hscript]

/-- The sample PSBT with one signature and a final script, which nobody made. -/
def scriptedSamplePsbt : Psbt := Round.signedSamplePsbt.withFinalScript (some [0x51])

/-- The scripted PSBT finished, and the PSBT of a block. -/
theorem solution_carries_script_sample :
    (∃ s b', Solution.ofPsbt .sample (scriptedSamplePsbt.run [.finish .sample]) = .ok s ∧
      s.scriptSig = [0x51] ∧ Block.sample.embed s = .ok b' ∧
      b'.solution = .ok (some (encodeBytes [0x51] ++ Witness.encode s.witness))) ∧
    ∃ p, Block.sample.signetPsbt Quorum.sample.challenge = .ok p ∧ p.carriedScript = [] := by
  have hembeds : ((Solution.ofPsbt .sample (scriptedSamplePsbt.run [.finish .sample])).toOption.bind
      fun s => (Block.sample.embed s).toOption).isSome = true := by
    decide +kernel
  have hblock : (Block.sample.signetPsbt Quorum.sample.challenge).toOption.isSome = true := by
    decide +kernel
  refine ⟨?_, ?_⟩
  · obtain ⟨hsolution, _⟩ := solution_carries_script scriptedSamplePsbt [.finish .sample] .sample
    cases hs : Solution.ofPsbt .sample (scriptedSamplePsbt.run [.finish .sample]) with
    | error why =>
      rw [hs] at hembeds
      cases hembeds
    | ok s =>
      rw [hs] at hembeds
      change (Block.sample.embed s).toOption.isSome = true at hembeds
      cases hb : Block.sample.embed s with
      | error why =>
        rw [hb] at hembeds
        cases hembeds
      | ok b' =>
        obtain ⟨hscript, _, _, hread⟩ := hsolution s hs
        exact ⟨s, b', rfl, hscript, hb, hread _ b' hb⟩
  · cases hp : Block.sample.signetPsbt Quorum.sample.challenge with
    | error why =>
      rw [hp] at hblock
      cases hblock
    | ok p =>
      obtain ⟨_, _, hnone⟩ := solution_carries_script p [] .sample
      exact ⟨p, rfl, hnone _ _ hp⟩

/-- **A solution with a script.** The script that stands in the scripted PSBT goes into the solution
unseen, so the solution of a quorum has a script that no spend of a taproot output can have. -/
theorem solution_of_scriptedSamplePsbt :
    ∃ s, Solution.ofPsbt .sample scriptedSamplePsbt = .ok s ∧ s.scriptSig ≠ [] := by
  have hsome : (Solution.ofPsbt .sample Round.signedSamplePsbt).toOption.isSome = true := by
    decide +kernel
  cases hs : Solution.ofPsbt .sample Round.signedSamplePsbt with
  | error why =>
    rw [hs] at hsome
    cases hsome
  | ok s =>
    refine ⟨{ s with scriptSig := [0x51] }, ?_, List.cons_ne_nil _ _⟩
    rw [scriptedSamplePsbt, ofPsbt_withFinalScript, hs]
    rfl

end Psbt

end SignetFederation
