import Mathlib.FieldTheory.Finite.Basic
import Mathlib.Tactic.Ring
import SignetFederation.Proofs.Secp256k1.Primes

/-!
# The coordinate field

Arithmetic on the numbers below the field prime is arithmetic in the field of integers modulo that
prime (`Coordinate`): a number stands for its residue, and two numbers below the prime that stand
for one residue are equal. Inverses by Fermat are inverses, and an ordinate that is lifted from an
abscissa satisfies the curve's equation and is even if that was asked for.
-/

namespace SignetFederation.Secp256k1

/-- The coordinate field. -/
abbrev Coordinate := ZMod fieldOrder

instance : Fact fieldOrder.Prime := ⟨prime_fieldOrder⟩

theorem fieldOrder_pos : 0 < fieldOrder := by decide

theorem fieldOrder_odd : fieldOrder % 2 = 1 := by decide

variable {a b : Nat}

/-! ## Ring operations -/

theorem mul_lt (a b : Nat) : mul a b < fieldOrder := Nat.mod_lt _ fieldOrder_pos

theorem add_lt (a b : Nat) : add a b < fieldOrder := Nat.mod_lt _ fieldOrder_pos

theorem sub_lt (a b : Nat) : sub a b < fieldOrder := Nat.mod_lt _ fieldOrder_pos

@[simp] theorem cast_mul (a b : Nat) : (mul a b : Coordinate) = a * b := by
  unfold mul
  rw [ZMod.natCast_mod, Nat.cast_mul]

@[simp] theorem cast_add (a b : Nat) : (add a b : Coordinate) = a + b := by
  unfold add
  rw [ZMod.natCast_mod, Nat.cast_add]

theorem cast_sub (hb : b < fieldOrder) : (sub a b : Coordinate) = a - b := by
  unfold sub
  rw [ZMod.natCast_mod, Nat.cast_sub (by omega), Nat.cast_add, ZMod.natCast_self, add_zero]

theorem cast_inj (ha : a < fieldOrder) (hb : b < fieldOrder) :
    (a : Coordinate) = b ↔ a = b := by
  rw [ZMod.natCast_eq_natCast_iff', Nat.mod_eq_of_lt ha, Nat.mod_eq_of_lt hb]

theorem cast_eq_zero_iff (ha : a < fieldOrder) : (a : Coordinate) = 0 ↔ a = 0 := by
  rw [← Nat.cast_zero, cast_inj ha fieldOrder_pos]

theorem eq_val_of_cast_eq {x : Coordinate} (ha : a < fieldOrder) (h : (a : Coordinate) = x) :
    a = x.val := by
  rw [← h, ZMod.val_natCast_of_lt ha]

/-! ## Powers -/

theorem cast_powAux {bits e : Nat} (base acc : Nat) (he : e < 2 ^ bits) :
    (powAux bits e base acc : Coordinate) = acc * base ^ e := by
  induction bits generalizing e base acc with
  | zero =>
    obtain rfl : e = 0 := by simpa using he
    simp [powAux]
  | succ bits ih =>
    have hhalf : e / 2 < 2 ^ bits := by
      rw [Nat.pow_succ] at he
      omega
    rw [powAux, ih _ _ hhalf, cast_mul, ← sq, ← pow_mul]
    split
    · next hodd =>
      rw [cast_mul, mul_assoc, ← pow_succ', show 2 * (e / 2) + 1 = e by omega]
    · next heven => rw [show 2 * (e / 2) = e by omega]

theorem powAux_lt {bits e base acc : Nat} (hacc : acc < fieldOrder) :
    powAux bits e base acc < fieldOrder := by
  induction bits generalizing e base acc with
  | zero => exact hacc
  | succ bits ih =>
    refine ih ?_
    split
    · exact mul_lt acc base
    · exact hacc

theorem pow_lt (base e : Nat) : pow base e < fieldOrder := powAux_lt (by decide)

theorem cast_inverse (ha : (a : Coordinate) ≠ 0) :
    (inverse a : Coordinate) = (a : Coordinate)⁻¹ := by
  have hpow : (inverse a : Coordinate) = (a : Coordinate) ^ (fieldOrder - 2) := by
    refine (cast_powAux a 1 (by decide)).trans ?_
    rw [Nat.cast_one, one_mul]
  refine eq_inv_of_mul_eq_one_left ?_
  rw [hpow, ← pow_succ]
  exact ZMod.pow_card_sub_one_eq_one ha

/-! ## Lifted ordinates -/

/-- What is lifted is on the curve, below the prime, and even if that is asked for. -/
theorem lift?_even {x y : Nat} (h : lift? x false = some y) :
    x < fieldOrder ∧ y < fieldOrder ∧ y % 2 = 0 ∧
      (y : Coordinate) ^ 2 = (x : Coordinate) ^ 3 + 7 := by
  unfold lift? at h
  split at h
  · next hx =>
    split at h
    · next r hr =>
      have hroot : mul r r = add (mul x (mul x x)) 7 ∧ r < fieldOrder := by
        unfold sqrt? at hr
        simp only [Option.ite_none_right_eq_some, Option.some.injEq] at hr
        obtain ⟨hsquare, rfl⟩ := hr
        exact ⟨hsquare, pow_lt _ _⟩
      have hcurve : (r : Coordinate) ^ 2 = (x : Coordinate) ^ 3 + 7 := by
        have hcast := congrArg (Nat.cast : Nat → Coordinate) hroot.1
        simp only [cast_mul, cast_add] at hcast
        rw [sq, hcast]
        push_cast
        ring
      have hodd := fieldOrder_odd
      cases h
      split
      · next heven =>
        refine ⟨hx, hroot.2, ?_, hcurve⟩
        simpa using heven
      · next heven =>
        have hr : r % 2 = 1 := by simpa using heven
        refine ⟨hx, by omega, by omega, ?_⟩
        rw [Nat.cast_sub hroot.2.le, ZMod.natCast_self, zero_sub, neg_sq, hcurve]
    · cases h
  · cases h

end SignetFederation.Secp256k1
