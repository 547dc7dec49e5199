import SignetFederation.Bytes.Hex
import SignetFederation.Secp256k1.Curve

/-!
# Keys

Secret keys are scalars between zero and the group order. A public key is kept in its compressed
form, a byte for the parity of the ordinate and the abscissa; an x-only key is the abscissa alone
and stands for the point with the even ordinate. Readers accept only keys on the curve.
-/

namespace SignetFederation

open Secp256k1

/-- A secret scalar. -/
structure SecretKey where
  value : Nat
  pos : 0 < value
  lt : value < groupOrder
  deriving DecidableEq

/-- A public key in compressed form. -/
structure PublicKey where
  compressed : FixedBytes 33
  deriving DecidableEq

/-- A public key that leaves out the parity. -/
structure XOnlyKey where
  bytes : Digest
  deriving DecidableEq

namespace SecretKey

/-- The scalar as a secret key, if it lies in the range. -/
def ofNat? (n : Nat) : Option SecretKey :=
  if h : 0 < n ∧ n < groupOrder then some ⟨n, h.1, h.2⟩ else none

/-- The secret key that 32 bytes write. -/
def ofBytes? (b : Bytes) : Option SecretKey :=
  if b.length = 32 then ofNat? (Bytes.ofBE b) else none

/-- The 32 bytes of a secret key. -/
def toBytes (k : SecretKey) : Bytes := Bytes.be 32 k.value

/-- The affine point of a secret key. -/
def point (k : SecretKey) : Nat × Nat := ((Point.generator.times k.value).toAffine?).getD (0, 0)

end SecretKey

namespace PublicKey

/-- The key of an affine point. -/
def ofPoint (p : Nat × Nat) : PublicKey :=
  ⟨⟨(if p.2 % 2 = 1 then 3 else 2) :: Bytes.be 32 p.1, by simp⟩⟩

/-- The affine point of a key; readers only build keys that have one. -/
def point? (k : PublicKey) : Option (Nat × Nat) :=
  let x := Bytes.ofBE (k.compressed.toBytes.drop 1)
  (lift? x (k.compressed.toBytes.headD 0 == 3)).map fun y => (x, y)

/-- The key that 33 bytes write in compressed form. -/
def ofCompressed? (b : Bytes) : Option PublicKey :=
  if h : b.length = 33 then
    let mark := b.headD 0
    if mark = 2 ∨ mark = 3 then
      (lift? (Bytes.ofBE (b.drop 1)) (mark == 3)).map fun _ => ⟨⟨b, h⟩⟩
    else none
  else none

/-- The key that 65 bytes write: a mark and both coordinates. The mark is 4, or where `hybrid`
marks are allowed 6 or 7 by the parity of the ordinate. -/
def ofUncompressed? (hybrid : Bool) (b : Bytes) : Option PublicKey :=
  if b.length = 65 then
    let mark := b.headD 0
    let x := Bytes.ofBE ((b.drop 1).take 32)
    let y := Bytes.ofBE (b.drop 33)
    let markFits := mark == 4 || hybrid && (mark == 6 && y % 2 == 0 || mark == 7 && y % 2 == 1)
    if markFits && y < fieldOrder && lift? x (y % 2 == 1) == some y then some (ofPoint (x, y))
    else none
  else none

/-- The key that 33 or 65 bytes write. -/
def ofBytes? (b : Bytes) : Option PublicKey :=
  match ofCompressed? b with
  | some k => some k
  | none => ofUncompressed? true b

/-- The mark 4 and both coordinates. -/
def uncompressed (k : PublicKey) : Bytes :=
  match k.point? with
  | some (x, y) => 4 :: (Bytes.be 32 x ++ Bytes.be 32 y)
  | none => []

/-- The abscissa. -/
def xOnly (k : PublicKey) : XOnlyKey :=
  ⟨⟨k.compressed.toBytes.drop 1, by simp [k.compressed.length_eq]⟩⟩

end PublicKey

namespace XOnlyKey

/-- The abscissa as a number. -/
def x (k : XOnlyKey) : Nat := Bytes.ofBE k.bytes.toBytes

/-- The point with the even ordinate. -/
def point? (k : XOnlyKey) : Option Point := (lift? k.x false).map fun y => Point.ofAffine k.x y

/-- The key that 32 bytes write. -/
def ofBytes? (b : Bytes) : Option XOnlyKey :=
  if h : b.length = 32 then (lift? (Bytes.ofBE b) false).map fun _ => ⟨⟨b, h⟩⟩ else none

/-- The key at an abscissa. -/
def ofNat (x : Nat) : XOnlyKey := ⟨⟨Bytes.be 32 x, by simp⟩⟩

/-- The hexadecimal text of a key. -/
def text (k : XOnlyKey) : String := Hex.encode k.bytes.toBytes

/-- The compressed form of the point with the even ordinate. -/
def evenCompressed (k : XOnlyKey) : Bytes := 2 :: k.bytes.toBytes

end XOnlyKey

/-- The public key of a secret key. -/
def SecretKey.publicKey (k : SecretKey) : PublicKey := PublicKey.ofPoint k.point

/-- The x-only public key of a secret key. -/
def SecretKey.xOnly (k : SecretKey) : XOnlyKey := k.publicKey.xOnly

end SignetFederation
