import SignetFederation.Bytes

/-!
# Taproot signatures

A Schnorr signature with the part of a transaction that it covers. The default coverage is written
by leaving it out, so a signature has 64 or 65 bytes. Main statement: `decode?_encode`.
-/

namespace SignetFederation

/-- What a signature covers. -/
inductive SighashType where
  | default
  | all
  | none
  | single
  | allAnyoneCanPay
  | noneAnyoneCanPay
  | singleAnyoneCanPay
  deriving DecidableEq

namespace SighashType

/-- The byte that stands for a coverage. -/
def toByte : SighashType → UInt8
  | default => 0x00
  | all => 0x01
  | none => 0x02
  | single => 0x03
  | allAnyoneCanPay => 0x81
  | noneAnyoneCanPay => 0x82
  | singleAnyoneCanPay => 0x83

/-- The coverage that a byte stands for. -/
def ofByte? (b : UInt8) : Option SighashType :=
  [default, all, none, single, allAnyoneCanPay, noneAnyoneCanPay, singleAnyoneCanPay].find?
    fun t => t.toByte = b

/-- The name of a coverage. -/
def text : SighashType → String
  | default => "SIGHASH_DEFAULT"
  | all => "SIGHASH_ALL"
  | none => "SIGHASH_NONE"
  | single => "SIGHASH_SINGLE"
  | allAnyoneCanPay => "SIGHASH_ALL|SIGHASH_ANYONECANPAY"
  | noneAnyoneCanPay => "SIGHASH_NONE|SIGHASH_ANYONECANPAY"
  | singleAnyoneCanPay => "SIGHASH_SINGLE|SIGHASH_ANYONECANPAY"

@[simp] theorem ofByte?_toByte (t : SighashType) : ofByte? t.toByte = some t := by
  cases t <;> rfl

end SighashType

/-- A Schnorr signature and its coverage. -/
structure TapSignature where
  signature : FixedBytes 64
  coverage : SighashType
  deriving DecidableEq

namespace TapSignature

/-- The serialized form. -/
def encode (s : TapSignature) : Bytes :=
  if s.coverage = .default then s.signature.toBytes
  else s.signature.toBytes ++ [s.coverage.toByte]

/-- The signature that a byte string writes. -/
def decode? (b : Bytes) : Option TapSignature :=
  if h : b.length = 64 then some ⟨⟨b, h⟩, .default⟩
  else if h : b.length = 65 then
    (SighashType.ofByte? (b.getLastD 0)).map fun t => ⟨⟨b.dropLast, by simp [h]⟩, t⟩
  else none

/-- A signature reads back. -/
theorem decode?_encode (s : TapSignature) : decode? s.encode = some s := by
  obtain ⟨⟨b, hb⟩, t⟩ := s
  unfold encode
  split
  · rename_i ht
    simp only at ht
    simp [decode?, hb, ht]
  · simp [decode?, hb]

theorem length_encode (s : TapSignature) :
    s.encode.length = if s.coverage = .default then 64 else 65 := by
  obtain ⟨⟨b, hb⟩, t⟩ := s
  unfold encode
  split <;> simp_all

end TapSignature

end SignetFederation
