import SignetFederation.Digest.Sha256
import SignetFederation.Secp256k1.Key

/-!
# Schnorr signatures

The signature scheme of BIP340 on 32-byte messages. A signature is the abscissa of a nonce point
with even ordinate and a scalar; signing derives the nonce from the key and the message with zero
auxiliary randomness, so it is a function of the two.
-/

namespace SignetFederation.Schnorr

open Secp256k1

/-- A signature: nonce abscissa and scalar, 32 bytes each. -/
abbrev Signature := FixedBytes 64

/-- The scalar that a signature answers. -/
def challenge (nonce key : Bytes) (message : Digest) : Nat :=
  Bytes.ofBE (taggedHash "BIP0340/challenge" (nonce ++ key ++ message.toBytes)).toBytes % groupOrder

/-- Whether a signature on a message is valid for a key. -/
def verify (key : XOnlyKey) (message : Digest) (signature : Signature) : Bool :=
  let nonce := signature.toBytes.take 32
  let r := Bytes.ofBE nonce
  let s := Bytes.ofBE (signature.toBytes.drop 32)
  match key.point? with
  | none => false
  | some p =>
    if r < fieldOrder ∧ s < groupOrder then
      let e := challenge nonce key.bytes.toBytes message
      match ((Point.generator.times s).sum (p.times (groupOrder - e))).toAffine? with
      | none => false
      | some (x, y) => y % 2 == 0 && x == r
    else false

/-- The scalar of the point with even ordinate that a secret key stands for. -/
def evenScalar (point : Nat × Nat) (value : Nat) : Nat :=
  if point.2 % 2 = 0 then value else groupOrder - value

/-- The signature of a secret key on a message. -/
def sign (key : SecretKey) (message : Digest) : Signature :=
  let point := key.point
  let d := evenScalar point key.value
  let keyBytes := Bytes.be 32 point.1
  let masked := List.zipWith (· ^^^ ·) (Bytes.be 32 d)
    (taggedHash "BIP0340/aux" (List.replicate 32 0)).toBytes
  let k0 := Bytes.ofBE
    (taggedHash "BIP0340/nonce" (masked ++ keyBytes ++ message.toBytes)).toBytes % groupOrder
  let noncePoint := ((Point.generator.times k0).toAffine?).getD (0, 0)
  let k := evenScalar noncePoint k0
  let nonce := Bytes.be 32 noncePoint.1
  let e := challenge nonce keyBytes message
  ⟨nonce ++ Bytes.be 32 ((k + e * d) % groupOrder), by simp [nonce]⟩

end SignetFederation.Schnorr
