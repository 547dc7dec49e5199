import Mathlib.Data.List.Sort
import SignetFederation.Proofs.Signing.Extraction
import SignetFederation.Proofs.Signing.Honesty
import SignetFederation.Proofs.Wire.Decoders

/-!
# The layout of a section

The section of a complete round is known byte for byte. All signatures of a round cover everything,
so they have 65 bytes; with one for the key path the section holds this one. Otherwise it has an
item for each key, the last key first: the signatures of the first slots that were signed, as many
as the threshold says, and empty items. `InStep.slots_leafSignatures` ties the keys whose signatures
are chosen to the signed slots of the round.

Main statement: `section_layout`.
-/

namespace SignetFederation

open CompactSize (encodeBytes)

/-! ## Lengths -/

/-- The push of a number has one byte where there is an operation for it; above, the data of the
push have one byte below the sign bit and two from there on. -/
theorem Script.length_pushNat {n : Nat} (hpos : 0 < n) (hlt : n < 0x8000) :
    (pushNat n).length = if n ≤ 16 then 1 else if n < 128 then 2 else 3 := by
  have hdata : (push (numberBytes 9 n)).length = (numberBytes 9 n).length + 1 ∧
      (numberBytes 9 n).length = if n < 128 then 1 else 2 := by
    have hbytes : (numberBytes 9 n).length = if n < 128 then 1 else 2 := by
      unfold numberBytes
      rw [if_neg (Nat.ne_of_gt hpos)]
      by_cases hbyte : n < 128
      · simp [hbyte]
      · by_cases hsign : n < 256
        · simp [hbyte, hsign]
        · have hhigh : 0 < n / 256 ∧ n / 256 < 128 := by omega
          simp only [hbyte, hsign, if_false, numberBytes, if_neg (Nat.ne_of_gt hhigh.1), hhigh.2,
            if_true, List.length_cons, List.length_nil]
    refine ⟨?_, hbytes⟩
    have hshort : (numberBytes 9 n).length < 76 := by
      rw [hbytes]
      split <;> decide
    unfold push
    simp only [if_pos hshort, List.length_append, List.length_cons, List.length_nil]
    omega
  unfold pushNat
  rw [if_neg (Nat.ne_of_gt hpos)]
  by_cases hop : n ≤ 16
  · simp [hop]
  · rw [if_neg hop, if_neg hop, hdata.1, hdata.2]
    split <;> rfl

namespace Quorum

/-- The push of a key has one byte more than the key. -/
theorem length_push_key (key : XOnlyKey) : (Script.push key.bytes.toBytes).length = 33 := by
  simp [Script.push, key.bytes.length_eq]

theorem length_furtherKeys (keys : List XOnlyKey) :
    (furtherKeys keys).length = 34 * keys.length := by
  induction keys with
  | nil => rfl
  | cons key keys ih =>
    rw [furtherKeys] at ih ⊢
    rw [List.flatMap_cons, List.length_append, List.length_append, length_push_key, ih]
    simp only [List.length_cons, List.length_nil]
    omega

/-- The leaf script has 34 bytes for each key, the threshold and the comparison. -/
theorem length_script (q : Quorum) : q.script.length =
    34 * q.signers.length + (Script.pushNat q.threshold).length + 1 := by
  have hpos : 0 < q.signers.length := Nat.lt_of_lt_of_le q.threshold_pos q.threshold_le
  rw [q.script_eq]
  unfold multisigScript
  cases hkeys : q.signers with
  | nil =>
    rw [hkeys] at hpos
    exact absurd hpos (Nat.lt_irrefl 0)
  | cons key keys =>
    simp only [List.length_append, List.length_cons, List.length_nil, length_push_key,
      length_furtherKeys]
    omega

theorem length_controlBlock (q : Quorum) : q.controlBlock.encode.length = 33 := by
  simp [controlBlock, ControlBlock.encode, q.internal.bytes.length_eq]

end Quorum

/-- Items that are empty or of 65 bytes take one byte more than they have. -/
theorem Solution.length_items {items : List Bytes}
    (h : ∀ item ∈ items, item = [] ∨ item.length = 65) : (items.flatMap encodeBytes).length =
      66 * Quorum.given items + (items.length - Quorum.given items) := by
  induction items with
  | nil => rfl
  | cons item items ih =>
    obtain ⟨hitem, hrest⟩ := List.forall_mem_cons.1 h
    have hle := Quorum.given_le_length items
    rw [List.flatMap_cons, List.length_append, ih hrest, Quorum.given_cons, List.length_cons]
    rcases hitem with rfl | hlen
    · have hform : encodeBytes [] = [0x00] := rfl
      rw [hform, List.length_singleton, List.isEmpty_nil, Bool.not_true, Bool.toNat_false]
      omega
    · have hsome : item.isEmpty = false := by
        cases item with
        | nil => cases hlen
        | cons => rfl
      rw [CompactSize.encodeBytes_of_short (by omega), List.length_cons, hlen, hsome,
        Bool.not_false, Bool.toNat_true]
      omega

namespace Round

theorem Good.length_encode {q : Quorum} {hashes : Sighashes} {slot : Slot} {s : TapSignature}
    (h : Good q hashes slot s) : s.encode.length = 65 := by
  rw [s.length_encode, h.1]
  rfl

/-! ## The chosen signatures -/

/-- The item of a key in a section: its signature behind the length, if the slot of the key is among
the first that were signed, as many as the threshold says, and an empty item if not. -/
def sectionItem (r : Round) (n : Nat) : Bytes :=
  match r.signature? (.script n) with
  | some s =>
    if .script n ∈ r.signedSlots.take r.quorum.threshold then 0x41 :: s.encode else [0x00]
  | none => [0x00]

section InStep

variable {r : Round} {i : Psbt.Input} {rest : List Psbt.Input}

/-- Without a signature for the key path, the leaf signatures that extraction finds stand in the
order of the signed slots. -/
theorem InStep.slots_leafSignatures (h : r.InStep) (hi : r.psbt.inputs = i :: rest)
    (hkey : r.signature? .keyPath = none) :
    (Solution.leafSignatures r.quorum i).map (fun e => Slot.script e.1) = r.signedSlots := by
  have hascending : ((Solution.leafSignatures r.quorum i).map fun e => Slot.script e.1).Pairwise
      fun a b => a.keyIndex < b.keyIndex := by
    refine List.pairwise_map.2 ((Solution.pairwise_leafSignatures r.quorum i).imp fun hlt => ?_)
    exact Nat.succ_lt_succ hlt
  -- two ascending rows with the same members are one
  refine hascending.eq_of_mem_iff (r.pairwise_signedSlots) fun slot => ?_
  rw [mem_signedSlots_iff, List.mem_map, Option.isSome_iff_exists]
  constructor
  · rintro ⟨⟨n, s⟩, hmem, rfl⟩
    exact ⟨s, (h.mem_leafSignatures_iff hi).1 hmem⟩
  · rintro ⟨s, hs⟩
    cases slot with
    | keyPath =>
      rw [hkey] at hs
      cases hs
    | script n => exact ⟨(n, s), (h.mem_leafSignatures_iff hi).2 hs, rfl⟩

/-- The first leaf signatures are those of the first signed slots. -/
theorem InStep.mem_take_leafSignatures_iff (h : r.InStep) (hi : r.psbt.inputs = i :: rest)
    (hkey : r.signature? .keyPath = none) {k n : Nat} {s : TapSignature} :
    (n, s) ∈ (Solution.leafSignatures r.quorum i).take k ↔
      r.signature? (.script n) = some s ∧ .script n ∈ r.signedSlots.take k := by
  rw [← h.slots_leafSignatures hi hkey, ← List.map_take]
  constructor
  · intro hmem
    exact ⟨(h.mem_leafSignatures_iff hi).1 (List.mem_of_mem_take hmem),
      List.mem_map.2 ⟨(n, s), hmem, rfl⟩⟩
  · rintro ⟨hs, hslot⟩
    obtain ⟨⟨m, s'⟩, hmem, heq⟩ := List.mem_map.1 hslot
    cases heq
    have hs' := (h.mem_leafSignatures_iff hi).1 (List.mem_of_mem_take hmem)
    rw [hs] at hs'
    cases hs'
    exact hmem

/-- The items that are built for the keys are those of the section. -/
theorem InStep.encodeBytes_stackItem (h : r.InStep) (hi : r.psbt.inputs = i :: rest)
    (hkey : r.signature? .keyPath = none)
    (hgood : ∀ slot s, r.signature? slot = some s → Good r.quorum r.hashes slot s) (n : Nat) :
    encodeBytes (Solution.stackItem
      ((Solution.leafSignatures r.quorum i).take r.quorum.threshold) n) = r.sectionItem n := by
  unfold sectionItem
  rcases Solution.stackItem_cases
    ((Solution.leafSignatures r.quorum i).take r.quorum.threshold) n with
    ⟨s, hmem, hitem⟩ | ⟨hno, hitem⟩
  · obtain ⟨hs, hslot⟩ := (h.mem_take_leafSignatures_iff hi hkey).1 hmem
    have hlen := (hgood _ s hs).length_encode
    rw [hitem, hs, CompactSize.encodeBytes_of_short (by omega), hlen]
    simp only [if_pos hslot]
    rfl
  · rw [hitem]
    cases hs : r.signature? (.script n) with
    | none => rfl
    | some s =>
      have hslot : .script n ∉ r.signedSlots.take r.quorum.threshold := fun hslot =>
        hno (List.mem_map.2 ⟨(n, s), (h.mem_take_leafSignatures_iff hi hkey).2 ⟨hs, hslot⟩, rfl⟩)
      simp only [if_neg hslot]
      rfl

end InStep

/-! ## Sections -/

/-- The section with a signature for the key path. -/
def keySection (s : TapSignature) : Bytes :=
  Commitment.header ++ [0x00, 0x01, 0x41] ++ s.encode

/-- The section without one: an empty script, the number of items, an item for each key, the last
key first, the leaf script and the control block. -/
def leafSection (r : Round) : Bytes :=
  Commitment.header ++ [0x00] ++ CompactSize.encode (r.quorum.signers.length + 2) ++
    (List.range r.quorum.signers.length).reverse.flatMap r.sectionItem ++
    CompactSize.encode r.quorum.script.length ++ r.quorum.script ++
    [0x21] ++ r.quorum.controlBlock.encode

section InStep

variable {r : Round} {i : Psbt.Input} {rest : List Psbt.Input}

/-- With a signature for the key path, the section of an open input holds this signature. -/
theorem InStep.commitmentSection_of_keyPath (h : r.InStep) (hi : r.psbt.inputs = i :: rest)
    (hscript : i.finalScriptSig = none) (hwitness : i.finalWitness = none) {s : TapSignature}
    (hs : r.signature? .keyPath = some s) (hlen : s.encode.length = 65) :
    r.psbt.commitmentSection r.quorum = .ok (keySection s) := by
  have hkey : i.tapKeySignature = some s := (h.tapKeySignature hi).trans hs
  have hitem : encodeBytes s.encode = 0x41 :: s.encode := by
    rw [CompactSize.encodeBytes_of_short (by omega), hlen]
    rfl
  have hsolution : Solution.ofPsbt r.quorum r.psbt = .ok ⟨[], [s.encode]⟩ := by
    simp only [Solution.ofPsbt, hi, hwitness, hscript, Solution.buildWitness, hkey]
    rfl
  have hform : Witness.encode [s.encode] = 0x01 :: 0x41 :: s.encode := by
    rw [Witness.encode, List.flatMap_singleton, hitem]
    rfl
  rw [Psbt.commitmentSection, hsolution]
  change Except.ok (Commitment.header ++ ([0x00] ++ Witness.encode [s.encode])) = _
  rw [hform, keySection]
  simp

/-- Without one, and with as many leaf signatures as the threshold says, the section of an open
input holds an item for each key, the leaf script and the control block. -/
theorem InStep.commitmentSection_of_leaf (h : r.InStep) (hi : r.psbt.inputs = i :: rest)
    (hscript : i.finalScriptSig = none) (hwitness : i.finalWitness = none)
    (howns : r.quorum.ownsLeaves i = true) (hkey : r.signature? .keyPath = none)
    (hcount : r.quorum.threshold ≤ (Solution.leafSignatures r.quorum i).length)
    (hgood : ∀ slot s, r.signature? slot = some s → Good r.quorum r.hashes slot s) :
    r.psbt.commitmentSection r.quorum = .ok r.leafSection := by
  have hsolution := (Solution.ofPsbt_eq_ok_iff hi hwitness ((h.tapKeySignature hi).trans hkey)).2
    ⟨howns, hcount, rfl⟩
  rw [hscript] at hsolution
  have hcontrol : encodeBytes r.quorum.controlBlock.encode =
      0x21 :: r.quorum.controlBlock.encode := by
    rw [CompactSize.encodeBytes_of_short (by rw [Quorum.length_controlBlock]; decide),
      Quorum.length_controlBlock]
    rfl
  have hform : Witness.encode (Solution.leafWitness r.quorum
      ((Solution.leafSignatures r.quorum i).take r.quorum.threshold)) =
      CompactSize.encode (r.quorum.signers.length + 2) ++
        ((List.range r.quorum.signers.length).reverse.flatMap r.sectionItem ++
          (encodeBytes r.quorum.script ++ 0x21 :: r.quorum.controlBlock.encode)) := by
    rw [Witness.encode, Solution.leafWitness, List.flatMap_append, List.flatMap_map,
      List.flatMap_cons, List.flatMap_singleton, hcontrol,
      funext (h.encodeBytes_stackItem hi hkey hgood)]
    simp
  rw [Psbt.commitmentSection, hsolution]
  change Except.ok (Commitment.header ++ ([0x00] ++ Witness.encode _)) = _
  rw [hform, encodeBytes, leafSection]
  simp

/-- As many items of a section are signatures as the threshold says. -/
theorem InStep.length_sectionItems (h : r.InStep) (hi : r.psbt.inputs = i :: rest)
    (hkey : r.signature? .keyPath = none)
    (hcount : r.quorum.threshold ≤ (Solution.leafSignatures r.quorum i).length)
    (hgood : ∀ slot s, r.signature? slot = some s → Good r.quorum r.hashes slot s) :
    ((List.range r.quorum.signers.length).reverse.flatMap r.sectionItem).length =
      66 * r.quorum.threshold + (r.quorum.signers.length - r.quorum.threshold) := by
  have hitems : ∀ item ∈ (List.range r.quorum.signers.length).reverse.map (Solution.stackItem
      ((Solution.leafSignatures r.quorum i).take r.quorum.threshold)),
      item = [] ∨ item.length = 65 := by
    intro item hitem
    obtain ⟨n, _, rfl⟩ := List.mem_map.1 hitem
    rcases Solution.stackItem_cases
      ((Solution.leafSignatures r.quorum i).take r.quorum.threshold) n with
      ⟨s, hmem, heq⟩ | ⟨_, heq⟩
    · have hs := (h.mem_leafSignatures_iff hi).1 (List.mem_of_mem_take hmem)
      exact .inr (by rw [heq, (hgood _ s hs).length_encode])
    · exact .inl heq
  have hlength := Solution.length_items hitems
  rwa [Solution.given_leafItems hcount, List.flatMap_map,
    funext (h.encodeBytes_stackItem hi hkey hgood), List.length_map, List.length_reverse,
    List.length_range] at hlength

end InStep

theorem length_keySection {s : TapSignature} (h : s.encode.length = 65) :
    (keySection s).length = 72 := by
  simp only [keySection, List.length_append, h]
  rfl

/-- The length of a section, from that of its items. -/
theorem length_leafSection {r : Round} {n : Nat}
    (h : ((List.range r.quorum.signers.length).reverse.flatMap r.sectionItem).length = n) :
    r.leafSection.length = 5 + (CompactSize.encode (r.quorum.signers.length + 2)).length + n +
      (CompactSize.encode r.quorum.script.length).length + r.quorum.script.length + 34 := by
  have hheader : Commitment.header.length = 4 := rfl
  simp only [leafSection, List.length_append, h, hheader, Quorum.length_controlBlock,
    List.length_cons, List.length_nil]

/-- **The layout of a section.** Let a round be started with a PSBT without final fields and worked
on by any calls until it is complete. Its signatures have 65 bytes. With one for the key path the
section is the header, an empty script and this signature as the only item: 72 bytes. Without one it
has an item for each key, the last key first: the signatures of the first signed slots in key order,
as many as the threshold says, and empty items. The leaf script has 34 bytes for each key, the push
of the threshold and the comparison. -/
theorem section_layout {q : Quorum} {p : Psbt} {first : Round} (hstart : start q p = .ok first)
    (hopen : ∀ i ∈ p.inputs, i.finalScriptSig = none ∧ i.finalWitness = none) (calls : List Call)
    (hcomplete : (first.run calls).state = .complete) :
    (first.run calls).quorum = q ∧
      (∀ slot s, (first.run calls).signature? slot = some s → s.encode.length = 65) ∧
      (∀ s, (first.run calls).signature? .keyPath = some s →
        (first.run calls).psbt.commitmentSection q = .ok (keySection s) ∧
          (keySection s).length = 72) ∧
      ((first.run calls).signature? .keyPath = none →
        (first.run calls).psbt.commitmentSection q = .ok (first.run calls).leafSection ∧
          (first.run calls).leafSection.length =
            5 + (CompactSize.encode (q.signers.length + 2)).length +
              (66 * q.threshold + (q.signers.length - q.threshold)) +
              (CompactSize.encode q.script.length).length + q.script.length + 34) ∧
      q.controlBlock.encode.length = 33 ∧
      q.script.length = 34 * q.signers.length + (Script.pushNat q.threshold).length + 1 ∧
      (Script.pushNat q.threshold).length =
        if q.threshold ≤ 16 then 1 else if q.threshold < 128 then 2 else 3 := by
  obtain ⟨_, h⟩ := started_of_start hstart
  have hinv := h.invariant.run calls
  obtain ⟨i₀, i, hi₀, hi, hscript, hwitness, howns⟩ := exists_finals_of_run hstart calls
  obtain ⟨hscript₀, hwitness₀⟩ := hopen i₀ (by rw [hi₀]; exact List.mem_singleton_self i₀)
  rw [hscript₀] at hscript
  rw [hwitness₀] at hwitness
  have hquorum : (first.run calls).quorum = q := hinv.quorum.trans h.quorum
  generalize first.run calls = r at *
  subst hquorum
  have hlengths : ∀ slot s, r.signature? slot = some s → s.encode.length = 65 :=
    fun slot s hs => (hinv.good slot s hs).length_encode
  refine ⟨rfl, hlengths, fun s hs => ?_, fun hkey => ?_, r.quorum.length_controlBlock,
    r.quorum.length_script, ?_⟩
  · have hlen := hlengths _ s hs
    exact ⟨hinv.inStep.commitmentSection_of_keyPath hi hscript hwitness hs hlen,
      length_keySection hlen⟩
  · have hcount : r.quorum.threshold ≤ (Solution.leafSignatures r.quorum i).length := by
      rw [hinv.inStep.length_leafSignatures hi]
      refine (state_eq_complete_iff.1 hcomplete).2.resolve_left fun hsome => ?_
      change (r.signature? .keyPath).isSome = true at hsome
      rw [hkey] at hsome
      cases hsome
    exact ⟨hinv.inStep.commitmentSection_of_leaf hi hscript hwitness howns hkey hcount hinv.good,
      length_leafSection (hinv.inStep.length_sectionItems hi hkey hcount hinv.good)⟩
  · have hle := r.quorum.threshold_le
    have hmax : r.quorum.signers.length ≤ 999 := r.quorum.signers_le
    exact Script.length_pushNat r.quorum.threshold_pos (by omega)

/-- The section of the sample round after a PSBT with one leaf signature. -/
theorem section_layout_sample :
    ∃ first, start .sample samplePsbt = .ok first ∧
      (first.run [.merge signedSamplePsbt]).state = .complete ∧
      (first.run [.merge signedSamplePsbt]).psbt.commitmentSection .sample =
        .ok (first.run [.merge signedSamplePsbt]).leafSection ∧
      (first.run [.merge signedSamplePsbt]).leafSection.length = 178 := by
  obtain ⟨first, hstart⟩ := start_samplePsbt
  have hrun : (start .sample samplePsbt).toOption.map (fun r =>
      ((r.run [.merge signedSamplePsbt]).state,
        (r.run [.merge signedSamplePsbt]).signature? .keyPath)) = some (.complete, none) := by
    decide +kernel
  rw [hstart] at hrun
  obtain ⟨hcomplete, hkey⟩ := Prod.mk.inj (Option.some.inj hrun)
  have hopen : ∀ i ∈ samplePsbt.inputs, i.finalScriptSig = none ∧ i.finalWitness = none := by
    intro i hi
    cases List.mem_singleton.1 hi
    exact ⟨rfl, rfl⟩
  obtain ⟨_, _, _, hleaf, _, hscript, hpush⟩ :=
    section_layout hstart hopen [.merge signedSamplePsbt] hcomplete
  obtain ⟨hsection, hlength⟩ := hleaf hkey
  refine ⟨first, hstart, hcomplete, hsection, ?_⟩
  have hsigners : Quorum.sample.signers.length = 2 := by decide +kernel
  have hthreshold : Quorum.sample.threshold = 1 := by decide +kernel
  rw [hsigners, hpush, hthreshold] at hscript
  rw [hlength, hscript, hsigners, hthreshold]
  rfl

end Round

end SignetFederation
