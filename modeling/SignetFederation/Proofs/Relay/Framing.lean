import SignetFederation.Proofs.Wire.Endings
import SignetFederation.Relay.Frame

/-!
# Messages read back from their frames

A message within the size limit reads back from its frame on any network with the frame's magic, so
different messages have different frames. A message beyond the limit is written all the same, and
refused by whoever reads it.

Main statements: `ofFrame_toFrame`, `ofFrame_of_oversized`.
-/

namespace SignetFederation

open Decoder (Closes)

namespace SignetPsbtMessage

/-! ## Messages -/

theorem length_encode (m : SignetPsbtMessage) :
    m.encode.length = 8 + (CompactSize.encodeBytes m.psbt).length +
      (CompactSize.encodeBytes m.blockTemplate).length +
      (CompactSize.encode m.signers.length).length + 8 * m.signers.length := by
  have hids : (m.signers.flatMap fun id => Bytes.le 8 id.toNat).length = 8 * m.signers.length := by
    induction m.signers with
    | nil => rfl
    | cons id ids ih =>
      simp only [List.flatMap_cons, List.length_append, Bytes.length_le, List.length_cons, ih]
      omega
  simp only [encode, List.length_append, Bytes.length_le, hids]

/-- The parts of a message within the limit are small enough to be read. -/
theorem lengths_of_encode {m : SignetPsbtMessage} (h : m.encode.length ≤ sizeLimit) :
    m.psbt.length < 2 ^ 64 ∧ m.blockTemplate.length < 2 ^ 64 ∧ m.signers.length ≤ signersLimit := by
  rw [length_encode] at h
  simp only [CompactSize.encodeBytes, List.length_append, sizeLimit] at h
  unfold signersLimit
  omega

/-- The short ids close with their count before them. -/
theorem closes_decodeSigners {ids : List UInt64} (h : ids.length ≤ signersLimit) :
    Closes decodeSigners
      (CompactSize.encode ids.length ++ ids.flatMap fun id => Bytes.le 8 id.toNat) ids := by
  have hstep : decodeSigners = CompactSize.decode >>= fun n =>
      if n > signersLimit then throw (.oversized n) else Decoder.many Decoder.u64 n := by
    refine CompactSize.eq_bind_of_decode (fun hcount => ?_) fun {b n rest} hcount => ?_
    · unfold decodeSigners
      rw [hcount]
    · unfold decodeSigners
      simp only [hcount]
      by_cases hmany : n > signersLimit
      · rw [if_pos hmany, if_pos hmany]
        rfl
      · rw [if_neg hmany, if_neg hmany]
  rw [hstep]
  refine (CompactSize.closes_decode (by unfold signersLimit at h; omega)).bind ?_
  rw [if_neg (Nat.not_lt.2 h)]
  exact Decoder.closes_many Decoder.closes_u64 ids

/-- The form of a message within the limit closes. -/
theorem closes_decoder {m : SignetPsbtMessage} (h : m.encode.length ≤ sizeLimit) :
    Closes decoder m.encode m := by
  obtain ⟨hpsbt, hblock, hids⟩ := lengths_of_encode h
  unfold decoder encode
  simp only [List.append_assoc]
  refine (Decoder.closes_u64 m.nonce).bind ?_
  refine (CompactSize.closes_bytes hpsbt).bind ?_
  refine (CompactSize.closes_bytes hblock).bind ?_
  exact (closes_decodeSigners hids).bind_pure rfl

/-- A message within the size limit reads back. -/
theorem decode_encode {m : SignetPsbtMessage} (h : m.encode.length ≤ sizeLimit) :
    decode m.encode = .ok m := by
  have hread := (closes_decoder h).reads []
  rw [List.append_nil] at hread
  unfold decode
  simp only
  rw [if_neg (Nat.not_lt.2 h), hread]

end SignetPsbtMessage

/-! ## Frames -/

namespace Frame

theorem length_checksum (payload : Bytes) : (checksum payload).length = 4 := by
  simp [checksum, FixedBytes.length_eq]

/-- A payload closes with its length and checksum before it. -/
theorem closes_decodePayload {payload : Bytes} (h : payload.length < 2 ^ 32) :
    Closes decodePayload (Bytes.le 4 payload.length ++ checksum payload ++ payload) payload := by
  have hsum := Decoder.closes_take (checksum payload)
  rw [length_checksum] at hsum
  unfold decodePayload
  rw [List.append_assoc]
  refine (Decoder.closes_natLE h).bind (hsum.bind ?_)
  refine (Decoder.closes_take payload).bind_pure ?_
  rw [if_pos rfl]

end Frame

namespace SignetPsbtMessage

/-- The command of relay messages closes with the zero bytes that fill it up. -/
theorem closes_decodeCommand :
    Closes Frame.decodeCommand
      (command ++ List.replicate (Frame.commandWidth - command.length) 0) command := by
  have htake := Decoder.closes_take
    (command ++ List.replicate (Frame.commandWidth - command.length) 0)
  have hwidth : (command ++ List.replicate (Frame.commandWidth - command.length) 0).length =
      Frame.commandWidth := by
    decide +kernel
  have hcommand : ((command ++ List.replicate (Frame.commandWidth - command.length)
      (0 : UInt8)).reverse.dropWhile (· == 0)).reverse = command ∧
      command.all (· < 128) = true := by
    decide +kernel
  rw [hwidth] at htake
  unfold Frame.decodeCommand
  refine htake.bind_pure ?_
  simp only [hcommand.1, hcommand.2]
  rfl

/-- It is none of the well-known ones. -/
theorem checkPayload_command (payload : Bytes) : Frame.checkPayload command payload = .ok () := by
  have hnone : (Payload.wellKnown.find? fun e => e.1.toUTF8.toList = command).isNone = true := by
    decide +kernel
  unfold Frame.checkPayload
  rw [Option.isNone_iff_eq_none.1 hnone]

/-- A frame of the relay closes. -/
theorem closes_decodeFrame {payload : Bytes} (magic : Magic) (h : payload.length < 2 ^ 32) :
    Closes Frame.decode (Frame.encode ⟨magic, command, payload⟩) ⟨magic, command, payload⟩ := by
  unfold Frame.decode Frame.encode
  have hassoc : ∀ a b c d e f : Bytes,
      a ++ b ++ c ++ d ++ e ++ f = a ++ (b ++ c ++ (d ++ e ++ f)) := by
    intros
    simp only [List.append_assoc]
  simp only [hassoc]
  refine (Decoder.closes_fixed magic).bind (closes_decodeCommand.bind ?_)
  refine (Frame.closes_decodePayload h).bind_pure ?_
  rw [checkPayload_command]

/-- A frame of the relay reads back as its payload. -/
theorem ofFrame_encode {payload : Bytes} (magic : Magic) (h : payload.length < 2 ^ 32) :
    ofFrame (Frame.encode ⟨magic, command, payload⟩) magic = decode payload := by
  have hframe := (closes_decodeFrame magic h).reads []
  rw [List.append_nil] at hframe
  unfold ofFrame Decoder.whole
  rw [hframe]
  simp

/-- **A message within the size limit reads back from its frame.** -/
theorem ofFrame_toFrame {m : SignetPsbtMessage} (magic : Magic) (h : m.encode.length ≤ sizeLimit) :
    ofFrame (m.toFrame magic) magic = .ok m := by
  unfold toFrame
  rw [ofFrame_encode magic (by unfold sizeLimit at h; omega), decode_encode h]

/-- A longer message is refused. -/
theorem ofFrame_of_oversized {m : SignetPsbtMessage} (magic : Magic)
    (h : sizeLimit < m.encode.length) (hlt : m.encode.length < 2 ^ 32) :
    ofFrame (m.toFrame magic) magic =
      .error (.malformed (.tooLong m.encode.length sizeLimit)) := by
  unfold toFrame
  rw [ofFrame_encode magic hlt]
  unfold decode
  simp only
  rw [if_pos h]

/-- Messages within the limit have frames of their own. -/
theorem toFrame_inj {m m' : SignetPsbtMessage} {magic : Magic} (h : m.encode.length ≤ sizeLimit)
    (h' : m'.encode.length ≤ sizeLimit) (heq : m.toFrame magic = m'.toFrame magic) : m = m' := by
  have hread := ofFrame_toFrame magic h
  rw [heq, ofFrame_toFrame magic h'] at hread
  exact (Except.ok.inj hread).symm

end SignetPsbtMessage

end SignetFederation
