import SignetFederation.Proofs.Relay.Framing

/-!
# Messages that are cut short or run on

The forms of messages and frames tell where they end, so a reader can tell what came too early to an
end from what is wrong. A message or a frame that is cut anywhere is truncated: no check of a count,
a command or a checksum refuses it before the bytes run out. With bytes behind its end it is
malformed, and they are counted. For a frame this is found before its network and its command are
looked at.

Main statement: `cut_truncated_extended_malformed`.
-/

namespace SignetFederation.SignetPsbtMessage

variable {m : SignetPsbtMessage} {front more : Bytes}

/-! ## Messages -/

theorem decode_of_cut (h : m.encode.length ≤ sizeLimit) (hfront : front <+: m.encode)
    (hne : front ≠ m.encode) : decode front = .error .truncated := by
  have hlimit : ¬ front.length > sizeLimit := Nat.not_lt.2 (Nat.le_trans hfront.length_le h)
  have hread := (closes_decoder h).endOfData_of_proper hfront hne
  unfold decode
  simp only
  rw [if_neg hlimit, hread]
  rfl

theorem decode_of_extended (h : (m.encode ++ more).length ≤ sizeLimit) (hmore : more ≠ []) :
    decode (m.encode ++ more) = .error (.malformed (.trailing more.length)) := by
  have hfits : m.encode.length ≤ sizeLimit :=
    Nat.le_trans (List.prefix_append m.encode more).length_le h
  have hread := (closes_decoder hfits).reads more
  obtain ⟨x, rest, rfl⟩ := List.exists_cons_of_ne_nil hmore
  unfold decode
  simp only
  rw [if_neg (Nat.not_lt.2 h), hread]

/-! ## Frames -/

theorem length_lt_of_encode (h : m.encode.length ≤ sizeLimit) : m.encode.length < 2 ^ 32 := by
  unfold sizeLimit at h
  omega

theorem ofFrame_of_cut {magic : Magic} (expected : Magic) (h : m.encode.length ≤ sizeLimit)
    (hfront : front <+: m.toFrame magic) (hne : front ≠ m.toFrame magic) :
    ofFrame front expected = .error .truncated := by
  have hread := (closes_decodeFrame magic (length_lt_of_encode h)).endOfData_of_proper hfront hne
  unfold ofFrame Decoder.whole
  rw [hread]
  rfl

theorem ofFrame_of_extended (magic expected : Magic) (h : m.encode.length ≤ sizeLimit)
    (hmore : more ≠ []) :
    ofFrame (m.toFrame magic ++ more) expected =
      .error (.malformed (.unreadable (.leftover more.length))) := by
  have hread := (closes_decodeFrame magic (length_lt_of_encode h)).reads more
  obtain ⟨x, rest, rfl⟩ := List.exists_cons_of_ne_nil hmore
  unfold ofFrame Decoder.whole toFrame
  rw [hread]
  rfl

/-! ## Both -/

/-- **Cut input is truncated, extended input is malformed.** Let a message be within the size limit.
Every proper beginning of its form, and of its frame for any network, is read as truncated. Its form
with bytes behind it, within the limit together, and its frame with any bytes behind it are read as
malformed. What network the reader of the frame expects makes no difference. -/
theorem cut_truncated_extended_malformed (m : SignetPsbtMessage)
    (h : m.encode.length ≤ sizeLimit) (magic expected : Magic) :
    (∀ front, front <+: m.encode → front ≠ m.encode → decode front = .error .truncated) ∧
      (∀ more, more ≠ [] → (m.encode ++ more).length ≤ sizeLimit →
        decode (m.encode ++ more) = .error (.malformed (.trailing more.length))) ∧
      (∀ front, front <+: m.toFrame magic → front ≠ m.toFrame magic →
        ofFrame front expected = .error .truncated) ∧
      ∀ more, more ≠ [] → ofFrame (m.toFrame magic ++ more) expected =
        .error (.malformed (.unreadable (.leftover more.length))) := by
  refine ⟨fun front => decode_of_cut h, fun more hmore hlimit => decode_of_extended hlimit hmore,
    fun front => ofFrame_of_cut expected h, fun more => ofFrame_of_extended magic expected h⟩

/-- A message whose PSBT is so long that its length takes three bytes. -/
def sampleLong : SignetPsbtMessage := ⟨7, List.replicate 300 0xaa, [0xbb], [1, 2]⟩

/-- Cut inside that length, and inside the checksum of the frame; with one byte too many, and with
two. -/
theorem cut_truncated_extended_malformed_sample :
    sampleLong.encode.length = 330 ∧
      decode (sampleLong.encode.take 9) = .error .truncated ∧
      decode (sampleLong.encode ++ [0]) = .error (.malformed (.trailing 1)) ∧
      ofFrame ((sampleLong.toFrame ⟨[1, 2, 3, 4], rfl⟩).take 21) ⟨[1, 2, 3, 4], rfl⟩ =
        .error .truncated ∧
      ofFrame (sampleLong.toFrame ⟨[1, 2, 3, 4], rfl⟩ ++ [0, 0]) ⟨[1, 2, 3, 4], rfl⟩ =
        .error (.malformed (.unreadable (.leftover 2))) := by
  have hlength : sampleLong.encode.length = 330 := by decide +kernel
  have hframe : 21 < (sampleLong.toFrame ⟨[1, 2, 3, 4], rfl⟩).length := by
    simp only [toFrame, Frame.encode, List.length_append, hlength]
    omega
  have hfits : sampleLong.encode.length ≤ sizeLimit := by
    rw [hlength]
    decide
  have hcut : ∀ {n : Nat} {b : Bytes}, n < b.length → b.take n ≠ b := by
    intro n b hlt heq
    have := congrArg List.length heq
    rw [List.length_take] at this
    omega
  obtain ⟨hcutMessage, hlongMessage, hcutFrame, hlongFrame⟩ :=
    cut_truncated_extended_malformed sampleLong hfits ⟨[1, 2, 3, 4], rfl⟩
      ⟨[1, 2, 3, 4], rfl⟩
  refine ⟨hlength, ?_, ?_, ?_, ?_⟩
  · exact hcutMessage _ (List.take_prefix _ _) (hcut (by rw [hlength]; decide))
  · refine hlongMessage [0] (List.cons_ne_nil _ _) ?_
    rw [List.length_append, hlength]
    decide
  · exact hcutFrame _ (List.take_prefix _ _) (hcut hframe)
  · exact hlongFrame [0, 0] (List.cons_ne_nil _ _)

end SignetFederation.SignetPsbtMessage
