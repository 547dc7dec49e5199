import SignetFederation.Proofs.Quorum.Views

/-!
# Reading a descriptor again

A text may be spelled in many ways: with blanks around it, which do not count (`parse_blanks`), with
its checksum or without, with zeros before the threshold. Its descriptor keeps the body as it was
spelled and puts the right checksum behind it, and that text is read as the same descriptor
(`parse_text`). What a descriptor says is what stands in its body, piece by piece (`Means`); from the
place of the secret key follows that a descriptor with a local slot is always that of a signer.

Main statement: `stable_of_parse`.
-/

namespace SignetFederation

namespace Text

/-- Blanks around a row do not count. -/
theorem trim_blanks {front back : List Char} (hfront : ∀ c ∈ front, isBlank c = true)
    (hback : ∀ c ∈ back, isBlank c = true) (cs : List Char) :
    trim (front ++ (cs ++ back)) = trim cs := by
  have hback' : ∀ c ∈ back.reverse, isBlank c = true := fun c hc => hback c (List.mem_reverse.1 hc)
  unfold trim
  rw [List.dropWhile_append_of_pos hfront, List.dropWhile_append]
  cases hcs : cs.dropWhile isBlank with
  | nil =>
    -- then all is blank
    have hnone : back.dropWhile isBlank = [] := List.dropWhile_eq_nil_iff.2 hback
    rw [List.isEmpty_nil, if_pos rfl, hnone]
  | cons c rest =>
    rw [List.isEmpty_cons, if_neg Bool.false_ne_true, List.reverse_append,
      List.dropWhile_append_of_pos hback']

end Text

namespace QuorumDescriptor

open Setup (Names HoldsSecret)

/-- A descriptor says what is in a body with these parts: its text is the body with the checksum, its
quorum has the threshold and the keys in the order of the parts, and its local key is the secret key
in the place of its slot. -/
structure Means (body : String) (p : Descriptor.Parts) (d : QuorumDescriptor) : Prop where
  parts : Descriptor.parts body = .ok p
  text : Descriptor.withChecksum body = .ok d.text
  threshold : d.quorum.threshold = p.threshold
  keys : List.Forall₂ Names (p.internal :: p.keys) d.quorum.keys
  localKey : ∀ slot secret, d.localKey = some (slot, secret) ↔
    ∃ text k, (p.internal :: p.keys)[slot.keyIndex]? = some text ∧
      KeyExpression.parse text = .ok k ∧ k.secret = some secret

variable {text body : String} {p : Descriptor.Parts} {d : QuorumDescriptor}

theorem means_of_readFrom {keys : List (String × KeyExpression)} (h : ReadFrom body p keys d) :
    Means body p d where
  parts := h.parts
  text := h.text
  threshold := h.threshold
  keys := by
    rw [← h.publicKeys]
    exact Setup.forall₂_names h.read
  localKey slot secret := by
    rw [localKey_eq_some_iff h.secret, ← h.read.texts_eq]
    simp only [List.getElem?_map, Option.map_eq_some_iff]
    constructor
    · rintro ⟨k, hk, hsecret⟩
      exact ⟨k.1, k.2, ⟨k, hk, rfl⟩, h.read.parsed k (List.mem_of_getElem? hk), hsecret⟩
    · rintro ⟨_, k', ⟨k, hk, rfl⟩, hparsed, hsecret⟩
      have hsame := Except.ok.inj ((h.read.parsed k (List.mem_of_getElem? hk)).symm.trans hparsed)
      exact ⟨k, hk, hsame ▸ hsecret⟩

/-- Two places with expressions for a secret key are one place. -/
theorem Means.holder_unique (h : Means body p d) {i j : Nat} {a b : String}
    (hi : (p.internal :: p.keys)[i]? = some a) (hj : (p.internal :: p.keys)[j]? = some b)
    (ha : HoldsSecret a) (hb : HoldsSecret b) : i = j := by
  have hplace : ∀ {n : Nat} {t : String}, (p.internal :: p.keys)[n]? = some t → HoldsSecret t →
      ∃ secret, d.localKey = some (Slot.ofKeyIndex n, secret) := by
    rintro n t hn ⟨k, hk, hsome⟩
    obtain ⟨secret, hsecret⟩ := Option.isSome_iff_exists.1 hsome
    rw [← Slot.keyIndex_ofKeyIndex n] at hn
    exact ⟨secret, (h.localKey _ _).2 ⟨t, k, hn, hk, hsecret⟩⟩
  obtain ⟨_, hlocal⟩ := hplace hi ha
  obtain ⟨_, hlocal'⟩ := hplace hj hb
  have hslot := congrArg (fun found => found.map fun k => k.1.keyIndex) (hlocal.symm.trans hlocal')
  simpa using hslot

/-- Blanks around a text do not change what it is read as. -/
theorem parse_blanks {spaced : String} {front back : List Char}
    (h : spaced.toList = front ++ (text.toList ++ back)) (hfront : ∀ c ∈ front, Text.isBlank c = true)
    (hback : ∀ c ∈ back, Text.isBlank c = true) : parse spaced = parse text := by
  have htrim : Text.trimmed spaced = Text.trimmed text := by
    rw [Text.trimmed, h, Text.trim_blanks hfront hback, Text.trimmed]
  unfold parse
  rw [htrim]

/-- **Descriptors are stable and usable.** Whatever text is read as a descriptor, the descriptor's
own text is read as the same descriptor. It says what is in the body of the text: the threshold, the
keys in their order, and the one secret key if there is any. Its quorum has a threshold from one to
the number of signers, who are at most 999 with different keys. And a signer can be made of it
exactly if it has a local slot; it is one of this quorum and this slot, with the secret key of the
text, and its public key is the quorum's key there. -/
theorem stable_of_parse (h : parse text = .ok d) :
    parse d.text = .ok d ∧
      (∃ body p, Descriptor.stripChecksum (Text.trimmed text) = .ok body ∧ Means body p d ∧
        ∀ (i j : Nat) (a b : String), (p.internal :: p.keys)[i]? = some a →
          (p.internal :: p.keys)[j]? = some b → HoldsSecret a → HoldsSecret b → i = j) ∧
      (1 ≤ d.quorum.threshold ∧ d.quorum.threshold ≤ d.quorum.signers.length ∧
        d.quorum.signers.length ≤ 999 ∧ d.quorum.signers.Nodup) ∧
      ((∃ signer, LocalSigner.ofDescriptor d = .ok signer) ↔ ∃ slot, d.localSlot = some slot) ∧
      ∀ signer, LocalSigner.ofDescriptor d = .ok signer →
        signer.quorum = d.quorum ∧ d.localKey = some (signer.slot, signer.secret) ∧
          d.localSlot = some signer.slot ∧ d.quorum.keyFor signer.slot = some signer.publicKey := by
  obtain ⟨body, p, keys, hbody, hread⟩ := parse_eq_ok_iff.1 h
  have hmeans := means_of_readFrom hread
  refine ⟨parse_text h, ⟨body, p, hbody, hmeans, fun _ _ _ _ => hmeans.holder_unique⟩,
    ⟨d.quorum.threshold_pos, d.quorum.threshold_le, d.quorum.signers_le, d.quorum.nodup⟩,
    ⟨?_, ?_⟩, ?_⟩
  · rintro ⟨signer, hsigner⟩
    exact ⟨signer.slot, LocalSigner.slot_of_ofDescriptor hsigner⟩
  · rintro ⟨slot, hslot⟩
    obtain ⟨signer, hsigner, -⟩ := LocalSigner.exists_ofDescriptor h hslot
    exact ⟨signer, hsigner⟩
  · intro signer hsigner
    obtain ⟨hquorum, hlocal⟩ := LocalSigner.of_ofDescriptor hsigner
    exact ⟨hquorum, hlocal, LocalSigner.slot_of_ofDescriptor hsigner, hquorum ▸ signer.occupies⟩

/-- The second member's own descriptor, with blanks around it and a threshold of one in an unusual
spelling. -/
def sampleSpelled : String := " " ++ (Setup.walletParts.spelled "+01" ++ "\n")

theorem exists_parse_sampleSpelled : ∃ sealed, parse sampleSpelled =
    .ok ⟨sealed, Quorum.sample, some (.script 0, Setup.walletSecret)⟩ := by
  have hwrites : Decimal.Writes "+01".toList 1 := ⟨true, 1, by decide⟩
  obtain ⟨sealed, -, hparse⟩ := exists_parse_spelled (q := Quorum.sample) (p := Setup.walletParts)
    Setup.keysRead_wallet Setup.plain_wallet Setup.findSecret_wallet
    Setup.publicKeys_walletExpressions rfl hwrites
  have hspaced : sampleSpelled.toList =
      [' '] ++ ((Setup.walletParts.spelled "+01").toList ++ ['\n']) := by
    simp [sampleSpelled]
  have hblank : ∀ c ∈ [' '], Text.isBlank c = true := List.forall_mem_singleton.2 rfl
  have hline : ∀ c ∈ ['\n'], Text.isBlank c = true := List.forall_mem_singleton.2 rfl
  exact ⟨sealed, (parse_blanks hspaced hblank hline).trans hparse⟩

theorem stable_of_parse_sample : ∃ d signer, parse sampleSpelled = .ok d ∧ parse d.text = .ok d ∧
    LocalSigner.ofDescriptor d = .ok signer ∧ signer.slot = .script 0 ∧
    d.quorum.keyFor (.script 0) = some signer.publicKey := by
  obtain ⟨sealed, hparse⟩ := exists_parse_sampleSpelled
  obtain ⟨hagain, -, -, husable, hsigner⟩ := stable_of_parse hparse
  obtain ⟨signer, hmade⟩ := husable.2 ⟨.script 0, rfl⟩
  obtain ⟨-, -, hslot, hkey⟩ := hsigner signer hmade
  have hplace : signer.slot = .script 0 := (Option.some.inj hslot).symm
  exact ⟨_, signer, hparse, hagain, hmade, hplace, hplace ▸ hkey⟩

end QuorumDescriptor

end SignetFederation
