/-!
# The curve secp256k1

Arithmetic modulo the field prime on natural numbers, and points of y² = x³ + 7 in Jacobian
coordinates: (X, Y, Z) stands for (X / Z², Y / Z³), and Z = 0 for the point at infinity. A
multiplication doubles and adds over the bits of its scalar, lowest first.
-/

namespace SignetFederation.Secp256k1

/-- The prime order of the coordinate field. -/
def fieldOrder : Nat := 0xfffffffffffffffffffffffffffffffffffffffffffffffffffffffefffffc2f

/-- The prime order of the group of points. -/
def groupOrder : Nat := 0xfffffffffffffffffffffffffffffffebaaedce6af48a03bbfd25e8cd0364141

/-- Product in the field. -/
@[inline] def mul (a b : Nat) : Nat := a * b % fieldOrder

/-- Sum in the field. -/
@[inline] def add (a b : Nat) : Nat := (a + b) % fieldOrder

/-- Difference in the field, of elements below the prime. -/
@[inline] def sub (a b : Nat) : Nat := (a + fieldOrder - b) % fieldOrder

/-- `acc * base ^ e` modulo the prime, for an exponent of at most `bits` bits. -/
def powAux : (bits e base acc : Nat) → Nat
  | 0, _, _, acc => acc
  | bits + 1, e, base, acc =>
    powAux bits (e / 2) (mul base base) (if e % 2 = 1 then mul acc base else acc)

/-- A power in the field. -/
def pow (base e : Nat) : Nat := powAux 256 e base 1

/-- The inverse of a field element, by Fermat; the inverse of zero is zero. -/
def inverse (a : Nat) : Nat := pow a (fieldOrder - 2)

/-- A square root of a field element, if it has one. -/
def sqrt? (a : Nat) : Option Nat :=
  let r := pow a ((fieldOrder + 1) / 4)
  if mul r r = a then some r else none

/-- A point in Jacobian coordinates. -/
structure Point where
  x : Nat
  y : Nat
  z : Nat

namespace Point

/-- The neutral element. -/
def infinity : Point := ⟨1, 1, 0⟩

/-- The generator of the group. -/
def generator : Point :=
  ⟨0x79be667ef9dcbbac55a06295ce870b07029bfcdb2dce28d959f2815b16f81798,
    0x483ada7726a3c4655da4fbfc0e1108a8fd17b448a68554199c47d08ffb10d4b8, 1⟩

/-- The point with the given affine coordinates. -/
def ofAffine (x y : Nat) : Point := ⟨x, y, 1⟩

/-- The affine coordinates, except at infinity. -/
def toAffine? (p : Point) : Option (Nat × Nat) :=
  if p.z = 0 then none
  else
    let zi := inverse p.z
    let zi2 := mul zi zi
    some (mul p.x zi2, mul p.y (mul zi2 zi))

/-- A point added to itself. -/
def double (p : Point) : Point :=
  if p.z = 0 then infinity
  else
    let y2 := mul p.y p.y
    let s := mul 4 (mul p.x y2)
    let m := mul 3 (mul p.x p.x)
    let x := sub (mul m m) (add s s)
    ⟨x, sub (mul m (sub s x)) (mul 8 (mul y2 y2)), mul 2 (mul p.y p.z)⟩

/-- The sum of two points. -/
def sum (p q : Point) : Point :=
  if p.z = 0 then q
  else if q.z = 0 then p
  else
    let pz2 := mul p.z p.z
    let qz2 := mul q.z q.z
    let u1 := mul p.x qz2
    let u2 := mul q.x pz2
    let s1 := mul p.y (mul qz2 q.z)
    let s2 := mul q.y (mul pz2 p.z)
    if u1 = u2 then
      if s1 = s2 then double p else infinity
    else
      let h := sub u2 u1
      let r := sub s2 s1
      let h2 := mul h h
      let h3 := mul h2 h
      let v := mul u1 h2
      let x := sub (sub (mul r r) h3) (add v v)
      ⟨x, sub (mul r (sub v x)) (mul s1 h3), mul h (mul p.z q.z)⟩

/-- `acc` plus the multiple of `base` by a scalar of at most `bits` bits. -/
def timesAux : (bits k : Nat) → (base acc : Point) → Point
  | 0, _, _, acc => acc
  | bits + 1, k, base, acc =>
    if k = 0 then acc
    else timesAux bits (k / 2) base.double (if k % 2 = 1 then acc.sum base else acc)

/-- The multiple of a point by a scalar below `2 ^ 256`. -/
def times (k : Nat) (p : Point) : Point := timesAux 256 k p infinity

end Point

/-- The ordinate of the given parity at an abscissa of the curve. -/
def lift? (x : Nat) (odd : Bool) : Option Nat :=
  if x < fieldOrder then
    match sqrt? (add (mul x (mul x x)) 7) with
    | some y => some (if (y % 2 == 1) == odd then y else fieldOrder - y)
    | none => none
  else none

end SignetFederation.Secp256k1
