import Mathlib.Data.List.TakeWhile
import SignetFederation.Proofs.Relay.Framing

/-!
# One wire form for each message

What is read as a message is the form of that message, byte for byte: counts are only read in their
shortest form, a row of short ids has as many entries as its count says, and a frame's command,
length and checksum follow from its payload. Together with reading back what was written, the
messages that are accepted and the byte strings of at most the size limit determine each other, and
so do messages and frames.

Each part of a message and of a frame is faithfully read, and parts that are read one after another
keep this.

Main statement: `accepts_exactly_forms`.
-/

namespace SignetFederation

open Decoder (Faithful run_bind_eq_ok_iff run_pure_eq_ok_iff)

/-! ## Messages -/

namespace SignetPsbtMessage

theorem faithful_decodeSigners : Faithful decodeSigners fun ids =>
    CompactSize.encode ids.length ++ ids.flatMap fun id => Bytes.le 8 id.toNat := by
  intro b rest ids h
  unfold decodeSigners at h
  split at h
  · cases h
  · next n mid hn =>
    obtain ⟨_, hids⟩ := ite_error_eq_ok_iff.1 h
    obtain ⟨rfl, rfl⟩ := Decoder.eq_append_of_many Decoder.faithful_u64 hids
    rw [(CompactSize.eq_append_of_decode hn).1, List.append_assoc]

theorem faithful_decoder : Faithful decoder encode := by
  intro b rest m h
  unfold decoder at h
  obtain ⟨nonce, b₁, hnonce, h⟩ := run_bind_eq_ok_iff.1 h
  obtain ⟨psbt, b₂, hpsbt, h⟩ := run_bind_eq_ok_iff.1 h
  obtain ⟨block, b₃, hblock, h⟩ := run_bind_eq_ok_iff.1 h
  obtain ⟨ids, b₄, hids, h⟩ := run_bind_eq_ok_iff.1 h
  obtain ⟨rfl, rfl⟩ := run_pure_eq_ok_iff.1 h
  rw [Decoder.faithful_u64 hnonce, CompactSize.faithful_bytes hpsbt,
    CompactSize.faithful_bytes hblock, faithful_decodeSigners hids]
  simp only [encode, List.append_assoc]

/-- A byte string is read as a message exactly if it is the message's form and within the limit. -/
theorem decode_eq_ok_iff {b : Bytes} {m : SignetPsbtMessage} :
    decode b = .ok m ↔ b = m.encode ∧ b.length ≤ sizeLimit := by
  constructor
  · intro h
    unfold decode at h
    obtain ⟨hlimit, h⟩ := ite_error_eq_ok_iff.1 h
    refine ⟨?_, Nat.not_lt.1 hlimit⟩
    split at h
    · next hm =>
      cases h
      rw [faithful_decoder hm, List.append_nil]
    · cases h
    · cases h
  · rintro ⟨rfl, hlimit⟩
    exact decode_encode hlimit

end SignetPsbtMessage

/-! ## Frames -/

namespace Frame

/-- A command with the zero bytes that fill it up. -/
def paddedCommand (command : Bytes) : Bytes :=
  command ++ List.replicate (commandWidth - command.length) 0

/-- What is cut off the end of a command are zero bytes. -/
theorem eq_append_replicate_of_strip (raw : Bytes) :
    raw = (raw.reverse.dropWhile (· == 0)).reverse ++
      List.replicate (raw.length - (raw.reverse.dropWhile (· == 0)).reverse.length) 0 := by
  have hsplit : raw.reverse.takeWhile (· == 0) ++ raw.reverse.dropWhile (· == 0) = raw.reverse :=
    List.takeWhile_append_dropWhile
  have hzeros : raw.reverse.takeWhile (· == 0) =
      List.replicate (raw.reverse.takeWhile (· == 0)).length 0 :=
    List.eq_replicate_of_mem fun x hx => by simpa using List.mem_takeWhile_imp hx
  have hlength := congrArg List.length hsplit
  rw [List.length_append, List.length_reverse] at hlength
  have hrest : raw.length - (raw.reverse.dropWhile (· == 0)).reverse.length =
      (raw.reverse.takeWhile (· == 0)).length := by
    rw [List.length_reverse]
    omega
  calc raw = (raw.reverse.takeWhile (· == 0) ++ raw.reverse.dropWhile (· == 0)).reverse := by
        rw [hsplit, List.reverse_reverse]
    _ = _ := by
        rw [List.reverse_append, hrest, hzeros, List.length_replicate, List.reverse_replicate]

theorem faithful_decodeCommand : Faithful decodeCommand paddedCommand := by
  intro b rest command h
  unfold decodeCommand at h
  obtain ⟨raw, mid, hraw, h⟩ := run_bind_eq_ok_iff.1 h
  obtain ⟨hb, hwidth⟩ := Decoder.eq_append_of_take hraw
  split at h
  · obtain ⟨rfl, rfl⟩ := run_pure_eq_ok_iff.1 h
    rw [hb, paddedCommand, ← hwidth, ← eq_append_replicate_of_strip]
  · cases h

theorem faithful_decodePayload : Faithful decodePayload fun payload =>
    Bytes.le 4 payload.length ++ checksum payload ++ payload := by
  intro b rest payload h
  unfold decodePayload at h
  obtain ⟨n, b₁, hn, h⟩ := run_bind_eq_ok_iff.1 h
  obtain ⟨sum, b₂, hsum, h⟩ := run_bind_eq_ok_iff.1 h
  obtain ⟨payload', b₃, hpayload, h⟩ := run_bind_eq_ok_iff.1 h
  split at h
  · next hcheck =>
    obtain ⟨rfl, rfl⟩ := run_pure_eq_ok_iff.1 h
    obtain ⟨hb₂, rfl⟩ := Decoder.eq_append_of_take hpayload
    rw [(Decoder.eq_append_of_natLE hn).1, (Decoder.eq_append_of_take hsum).1, hb₂, ← hcheck]
    simp only [List.append_assoc]
  · cases h

/-- A frame is read from its form only. -/
theorem faithful_decode : Faithful decode encode := by
  intro b rest f h
  unfold decode at h
  obtain ⟨magic, b₁, hmagic, h⟩ := run_bind_eq_ok_iff.1 h
  obtain ⟨command, b₂, hcommand, h⟩ := run_bind_eq_ok_iff.1 h
  obtain ⟨payload, b₃, hpayload, h⟩ := run_bind_eq_ok_iff.1 h
  cases hcheck : checkPayload command payload with
  | error why =>
    rw [hcheck] at h
    cases h
  | ok u =>
    rw [hcheck] at h
    obtain ⟨rfl, rfl⟩ := run_pure_eq_ok_iff.1 h
    rw [Decoder.eq_append_of_fixed hmagic, faithful_decodeCommand hcommand,
      faithful_decodePayload hpayload]
    simp only [encode, paddedCommand, List.append_assoc]

end Frame

namespace SignetPsbtMessage

/-- A frame is read as a message exactly if it is the message's frame for the network and the
message is within the limit. -/
theorem ofFrame_eq_ok_iff {frame : Bytes} {magic : Magic} {m : SignetPsbtMessage} :
    ofFrame frame magic = .ok m ↔ frame = m.toFrame magic ∧ m.encode.length ≤ sizeLimit := by
  constructor
  · intro h
    unfold ofFrame at h
    split at h
    · cases h
    · next f hf =>
      obtain ⟨hmagic, h⟩ := ite_error_eq_ok_iff.1 h
      obtain ⟨hcommand, h⟩ := ite_error_eq_ok_iff.1 h
      obtain ⟨hpayload, hlimit⟩ := decode_eq_ok_iff.1 h
      obtain ⟨magic', command', payload⟩ := f
      obtain rfl : magic' = magic := not_not.1 hmagic
      obtain rfl : command' = command := not_not.1 hcommand
      obtain rfl : payload = m.encode := hpayload
      exact ⟨Frame.faithful_decode.eq_of_whole hf, hlimit⟩
  · rintro ⟨rfl, hlimit⟩
    exact ofFrame_toFrame magic hlimit

/-- **What is accepted are the forms of messages.** A byte string is read as a message exactly if it
is what the message writes and has at most the size limit; a frame is read as a message on a network
exactly if it is the message's frame for that network and the message has at most the size limit. So
every message has one form, and nothing else stands for it. -/
theorem accepts_exactly_forms :
    (∀ (b : Bytes) (m : SignetPsbtMessage),
      decode b = .ok m ↔ b = m.encode ∧ b.length ≤ 16000000) ∧
      ∀ (frame : Bytes) (magic : Magic) (m : SignetPsbtMessage),
        ofFrame frame magic = .ok m ↔ frame = m.toFrame magic ∧ m.encode.length ≤ 16000000 :=
  ⟨fun _ _ => decode_eq_ok_iff, fun _ _ _ => ofFrame_eq_ok_iff⟩

end SignetPsbtMessage

end SignetFederation
