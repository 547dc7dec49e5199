import Mathlib.Data.List.Nodup
import SignetFederation.Proofs.Outcome
import SignetFederation.Proofs.Quorum.LeafScript
import SignetFederation.Proofs.Signing.Merging
import SignetFederation.Signet.Solution

/-!
# Witnesses for the leaf

The witness that is made of leaf signatures has one item for each key: the signature of each of as
many signers as the threshold says, and nothing for the others. `leafWitness_succeeds` states what
the leaf script asks for and that such a witness has it.
-/

namespace SignetFederation

open Quorum

namespace Solution

/-! ## Leaf signatures -/

theorem mem_leafSignatures_iff {q : Quorum} {input : Psbt.Input} {n : Nat} {s : TapSignature} :
    (n, s) ∈ leafSignatures q input ↔ ∃ key, q.signers[n]? = some key ∧
      input.tapScriptSignatures.get? ⟨key, q.leafHash⟩ = some s := by
  unfold leafSignatures
  rw [List.mem_filterMap]
  constructor
  · rintro ⟨⟨key, m⟩, hmem, hs⟩
    obtain ⟨s', hs', heq⟩ := Option.map_eq_some_iff.1 hs
    cases heq
    exact ⟨key, List.mk_mem_zipIdx_iff_getElem?.1 hmem, hs'⟩
  · rintro ⟨key, hkey, hs⟩
    exact ⟨(key, n), List.mk_mem_zipIdx_iff_getElem?.2 hkey, Option.map_eq_some_iff.2 ⟨s, hs, rfl⟩⟩

/-- The leaf signatures stand in the order of the keys. -/
theorem pairwise_leafSignatures (q : Quorum) (input : Psbt.Input) :
    (leafSignatures q input).Pairwise fun a b => a.1 < b.1 := by
  have hidx : q.signers.zipIdx.Pairwise fun a b => a.2 < b.2 := by
    rw [← List.pairwise_map (f := Prod.snd), List.zipIdx_map_snd]
    exact List.pairwise_lt_range'
  refine List.Pairwise.filterMap _ ?_ hidx
  intro a b hlt x hx y hy
  obtain ⟨_, _, rfl⟩ := Option.map_eq_some_iff.1 hx
  obtain ⟨_, _, rfl⟩ := Option.map_eq_some_iff.1 hy
  exact hlt

/-- Each key has one leaf signature at most. -/
theorem nodup_leafSignatures (q : Quorum) (input : Psbt.Input) :
    ((leafSignatures q input).map Prod.fst).Nodup :=
  List.pairwise_map.2 ((pairwise_leafSignatures q input).imp Nat.ne_of_lt)

/-- There are as many leaf signatures as keys with one. -/
theorem length_leafSignatures (q : Quorum) (input : Psbt.Input) :
    (leafSignatures q input).length = q.signers.countP fun key =>
      (input.tapScriptSignatures.get? ⟨key, q.leafHash⟩).isSome := by
  unfold leafSignatures
  have hkeys : q.signers = q.signers.zipIdx.map Prod.fst := by simp
  conv => rhs; rw [hkeys, List.countP_map]
  rw [List.length_filterMap_eq_countP]
  refine List.countP_congr fun e _ => ?_
  simp

/-! ## Stack items -/

theorem encode_ne_nil (s : TapSignature) : s.encode ≠ [] := by
  intro h
  have := s.length_encode
  rw [h] at this
  split at this <;> cases this

/-- The item of a key is its signature if it is among those that count. -/
theorem stackItem_cases (signed : List (Nat × TapSignature)) (i : Nat) :
    (∃ s, (i, s) ∈ signed ∧ stackItem signed i = s.encode) ∨
      (i ∉ signed.map Prod.fst ∧ stackItem signed i = []) := by
  unfold stackItem
  cases h : signed.lookup i with
  | some s =>
    obtain ⟨_, _, rfl, _⟩ := List.lookup_eq_some_iff.1 h
    exact .inl ⟨s, by simp, rfl⟩
  | none =>
    refine .inr ⟨fun hmem => ?_, rfl⟩
    obtain ⟨e, he, rfl⟩ := List.mem_map.1 hmem
    simpa using List.lookup_eq_none_iff.1 h e he

/-- As many items are not empty as signatures count. -/
theorem given_stackItems {signed : List (Nat × TapSignature)} {n : Nat}
    (hnodup : (signed.map Prod.fst).Nodup) (hlt : ∀ i ∈ signed.map Prod.fst, i < n) :
    given ((List.range n).map (stackItem signed)) = signed.length := by
  unfold given
  rw [List.countP_map, List.countP_eq_length_filter]
  refine Eq.trans (List.Perm.length_eq ?_) (List.length_map Prod.fst)
  refine (List.perm_ext_iff_of_nodup (List.nodup_range.filter _) hnodup).2 fun i => ?_
  rw [List.mem_filter, List.mem_range]
  rcases stackItem_cases signed i with ⟨s, hs, hitem⟩ | ⟨hno, hitem⟩
  · have hmem : i ∈ signed.map Prod.fst := List.mem_map.2 ⟨_, hs, rfl⟩
    simp [hitem, encode_ne_nil, hmem, hlt i hmem]
  · simp [hitem, hno]

/-! ## The witness -/

/-- Without a signature for the key path, the witness is made of the first leaf signatures, as many
as the threshold says. -/
theorem buildWitness_eq_ok_iff {q : Quorum} {input : Psbt.Input} {w : Witness}
    (hkey : input.tapKeySignature = none) : buildWitness q input = .ok w ↔
      q.ownsLeaves input = true ∧ q.threshold ≤ (leafSignatures q input).length ∧
        w = leafWitness q ((leafSignatures q input).take q.threshold) := by
  unfold buildWitness
  rw [hkey]
  cases q.ownsLeaves input with
  | false => simp
  | true =>
    by_cases hlen : q.threshold ≤ (leafSignatures q input).length
    · simp [hlen, eq_comm]
    · have hlt := Nat.lt_of_not_le hlen
      simp [hlen, Nat.min_eq_right (Nat.le_of_lt hlt), hlt]

section Unfinished

variable {q : Quorum} {p : Psbt} {input : Psbt.Input} {rest : List Psbt.Input}

/-- The solution of a PSBT that is not finished. -/
theorem ofPsbt_eq_ok_iff {s : Solution} (hinputs : p.inputs = input :: rest)
    (hfinal : input.finalWitness = none) (hkey : input.tapKeySignature = none) :
    ofPsbt q p = .ok s ↔ q.ownsLeaves input = true ∧
      q.threshold ≤ (leafSignatures q input).length ∧
      s = ⟨input.finalScriptSig.getD [],
        leafWitness q ((leafSignatures q input).take q.threshold)⟩ := by
  simp only [ofPsbt, hinputs, hfinal, bind_eq_ok_iff, pure_eq_ok_iff, buildWitness_eq_ok_iff hkey,
    and_assoc, ↓existsAndEq, true_and]

theorem exists_ofPsbt_iff (hinputs : p.inputs = input :: rest)
    (hfinal : input.finalWitness = none) (hkey : input.tapKeySignature = none) :
    (∃ s, ofPsbt q p = .ok s) ↔ q.ownsLeaves input = true ∧
      q.threshold ≤ (leafSignatures q input).length := by
  simp only [ofPsbt_eq_ok_iff hinputs hfinal hkey, exists_and_left, exists_eq, and_true]

end Unfinished

/-- If enough keys have signed, as many items for the leaf are not empty as the threshold says. -/
theorem given_leafItems {q : Quorum} {input : Psbt.Input}
    (hlen : q.threshold ≤ (leafSignatures q input).length) :
    given ((List.range q.signers.length).reverse.map
      (stackItem ((leafSignatures q input).take q.threshold))) = q.threshold := by
  have hsub := List.take_sublist q.threshold (leafSignatures q input)
  have hnodup := (nodup_leafSignatures q input).sublist (hsub.map Prod.fst)
  have hlt : ∀ i ∈ ((leafSignatures q input).take q.threshold).map Prod.fst,
      i < q.signers.length := by
    intro i hi
    obtain ⟨⟨_, s⟩, hmem, rfl⟩ := List.mem_map.1 hi
    obtain ⟨key, hkey, _⟩ := mem_leafSignatures_iff.1 (hsub.mem hmem)
    exact (List.getElem?_eq_some_iff.1 hkey).1
  rw [List.map_reverse, given_reverse, given_stackItems hnodup hlt, List.length_take]
  omega

/-- The items for the leaf succeed if all signatures among them verify. -/
theorem succeeds_leafWitness {q : Quorum} {input : Psbt.Input}
    (verifies : (key item : Bytes) → Bool)
    (hvalid : ∀ key ∈ q.signers, ∀ s, input.tapScriptSignatures.get? ⟨key, q.leafHash⟩ = some s →
      verifies key.bytes.toBytes s.encode = true)
    (hlen : q.threshold ≤ (leafSignatures q input).length) :
    Tapscript.succeeds verifies q.script ((List.range q.signers.length).reverse.map
      (stackItem ((leafSignatures q input).take q.threshold))) = true := by
  have hsub := List.take_sublist q.threshold (leafSignatures q input)
  refine (q.succeeds_script_iff verifies (by simp)).2 ⟨given_leafItems hlen, ?_⟩
  rw [List.map_reverse, List.reverse_reverse, allCount_iff]
  intro i key item hkey hitem
  rw [List.getElem?_map, List.getElem?_range (List.getElem?_eq_some_iff.1 hkey).1] at hitem
  cases hitem
  rcases stackItem_cases _ i with ⟨s, hs, hitem⟩ | ⟨_, hitem⟩
  · obtain ⟨key', hkey', hget⟩ := mem_leafSignatures_iff.1 (hsub.mem hs)
    cases hkey.symm.trans hkey'
    rw [hitem, counts, hvalid key (List.mem_of_getElem? hkey) s hget, Bool.or_true]
  · rw [hitem]
    rfl

end Solution

/-! ## The leaf and its witness -/

/-- Whether an item is a signature by a key that covers everything, over a message. -/
def coversAll (message : Digest) (key item : Bytes) : Bool :=
  match FixedBytes.of? 32 key, TapSignature.decode? item with
  | some key, some s => s.coverage == .all && Schnorr.verify ⟨key⟩ message s.signature
  | _, _ => false

/-- The message that leaf signatures for the sample PSBT sign. -/
def sampleMessage : Digest :=
  Taproot.sighash Round.samplePsbt.unsigned [⟨0, Quorum.sample.challenge⟩] 0
    (some Quorum.sample.leafHash)

/-- **The witness satisfies its leaf.** The leaf script of a quorum, started with one item for each
key, keeps to the limit of the stack, and it succeeds exactly if as many items as the threshold says
are not empty and each of these is a signature by its key, where the last item belongs to the first
key. The witness of an unfinished PSBT whose leaf signatures are all good consists of such items,
the script and the control block; there is one exactly if the input has no other leaf script and as
many keys as the threshold says have signed. -/
theorem leafWitness_succeeds (q : Quorum) (verifies : (key item : Bytes) → Bool) :
    (∀ items : List Bytes, items.length = q.signers.length →
      Tapscript.eval verifies q.script items ≠ .error .stackLimit ∧
        (Tapscript.succeeds verifies q.script items = true ↔
          (items.countP fun item => !item.isEmpty) = q.threshold ∧
            ∀ (i : Nat) (key : XOnlyKey), q.signers[i]? = some key →
              ∃ item, items[q.signers.length - 1 - i]? = some item ∧
                (item = [] ∨ verifies key.bytes.toBytes item = true))) ∧
      ∀ (p : Psbt) (input : Psbt.Input) (rest : List Psbt.Input),
        p.inputs = input :: rest → input.finalWitness = none → input.tapKeySignature = none →
        (∀ key ∈ q.signers, ∀ sig,
          input.tapScriptSignatures.get? ⟨key, q.leafHash⟩ = some sig →
            verifies key.bytes.toBytes sig.encode = true) →
        ((∃ s, Solution.ofPsbt q p = .ok s) ↔ q.ownsLeaves input = true ∧
          q.threshold ≤ q.signers.countP fun key =>
            (input.tapScriptSignatures.get? ⟨key, q.leafHash⟩).isSome) ∧
          ∀ s, Solution.ofPsbt q p = .ok s →
            ∃ items : List Bytes, s.witness = items ++ [q.script, q.controlBlock.encode] ∧
              items.length = q.signers.length ∧
              Tapscript.succeeds verifies q.script items = true := by
  constructor
  · intro items hlen
    constructor
    · rw [eval_script verifies q hlen]
      split <;> nofun
    · rw [succeeds_script_iff verifies q hlen, allCount_reverse_iff verifies hlen]
      rfl
  · intro p input rest hinputs hfinal hkey hvalid
    constructor
    · rw [← Solution.length_leafSignatures]
      exact Solution.exists_ofPsbt_iff hinputs hfinal hkey
    · intro s h
      obtain ⟨_, hlen, rfl⟩ := (Solution.ofPsbt_eq_ok_iff hinputs hfinal hkey).1 h
      exact ⟨_, rfl, by simp, Solution.succeeds_leafWitness verifies hvalid hlen⟩

/-- The witness of the sample PSBT with one signature. -/
theorem leafWitness_succeeds_sample :
    ∃ s items, Solution.ofPsbt .sample Round.signedSamplePsbt = .ok s ∧
      s.witness = items ++ [Quorum.sample.script, Quorum.sample.controlBlock.encode] ∧
      Tapscript.succeeds (coversAll sampleMessage) Quorum.sample.script items = true ∧
      (items.countP fun item => !item.isEmpty) = 1 := by
  have hvalid : (Quorum.sample.signers.all fun key => Round.signedSamplePsbt.inputs.all fun input =>
      (input.tapScriptSignatures.get? ⟨key, Quorum.sample.leafHash⟩).all fun sig =>
        coversAll sampleMessage key.bytes.toBytes sig.encode) = true := by
    decide +kernel
  have hsome : (Solution.ofPsbt .sample Round.signedSamplePsbt).toOption.isSome = true := by
    decide +kernel
  obtain ⟨hitems, hwitness⟩ := leafWitness_succeeds .sample (coversAll sampleMessage)
  cases hs : Solution.ofPsbt .sample Round.signedSamplePsbt with
  | error why =>
    rw [hs] at hsome
    cases hsome
  | ok s =>
    obtain ⟨_, hitems'⟩ := hwitness Round.signedSamplePsbt _ [] rfl rfl rfl
      fun key hkey sig hsig => by
        have := List.all_eq_true.1 (List.all_eq_true.1 hvalid key hkey) _ List.mem_cons_self
        rwa [hsig] at this
    obtain ⟨items, hw, hlen, hsucceeds⟩ := hitems' s hs
    exact ⟨s, items, rfl, hw, hsucceeds, ((hitems items hlen).2.1 hsucceeds).1⟩

end SignetFederation
