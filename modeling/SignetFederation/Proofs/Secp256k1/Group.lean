import Mathlib.AlgebraicGeometry.EllipticCurve.Affine.Point
import Mathlib.GroupTheory.OrderOfElement
import Mathlib.Tactic.LinearCombination
import SignetFederation.Proofs.Secp256k1.Field

/-!
# The group of secp256k1

Points in Jacobian coordinates compute in the group of the curve y² = x³ + 7 over the coordinate
field. `Represents` relates a point to the group element it stands for; doubling, sums and multiples
keep it, and the affine coordinates of a point are those of its group element. The generator has the
prime order of the group, so a scalar below it is known by its multiple (`eq_of_nsmul_eq`), and an
abscissa with the parity of the ordinate says which point is meant (`eq_of_even`).
-/

namespace SignetFederation.Secp256k1

open WeierstrassCurve

/-- The curve. -/
def curve : Affine Coordinate := ⟨0, 0, 0, 0, 7⟩

/-- A small number is not zero in the field. -/
theorem natCast_ne_zero {n : Nat} (hpos : 0 < n) (hlt : n < fieldOrder) : (n : Coordinate) ≠ 0 :=
  fun h => hpos.ne' ((cast_eq_zero_iff hlt).1 h)

theorem two_ne_zero : (2 : Coordinate) ≠ 0 := natCast_ne_zero (by decide : 0 < 2) (by decide)

theorem discriminant_ne_zero : curve.Δ ≠ 0 := by
  have hvalue : curve.Δ = -(21168 : Nat) := by
    simp only [curve, WeierstrassCurve.Δ, b₂, b₄, b₆, b₈]
    norm_num
  rw [hvalue]
  exact neg_ne_zero.2 (natCast_ne_zero (by decide) (by decide))

theorem nonsingular_iff {x y : Coordinate} : curve.Nonsingular x y ↔ y ^ 2 = x ^ 3 + 7 := by
  rw [← Affine.equation_iff_nonsingular_of_Δ_ne_zero discriminant_ne_zero, Affine.equation_iff]
  simp [curve]

@[simp] theorem negY_eq (x y : Coordinate) : curve.negY x y = -y := by
  simp [Affine.negY, curve]

theorem addX_eq (x x' ℓ : Coordinate) : curve.addX x x' ℓ = ℓ ^ 2 - x - x' := by
  simp [Affine.addX, curve]

theorem addY_eq (x x' y ℓ : Coordinate) :
    curve.addY x x' y ℓ = -(ℓ * (ℓ ^ 2 - x - x' - x) + y) := by
  rw [Affine.addY, Affine.negAddY, negY_eq, addX_eq]

theorem eq_neg_self_iff {y : Coordinate} : y = -y ↔ y = 0 := by
  rw [eq_neg_iff_add_eq_zero, ← two_mul, mul_eq_zero, or_iff_right two_ne_zero]

/-! ## Affine coordinates -/

/-- A reduced point with the given affine coordinates. -/
structure Point.HasAffine (p : Point) (x y : Coordinate) : Prop where
  x_lt : p.x < fieldOrder
  y_lt : p.y < fieldOrder
  z_lt : p.z < fieldOrder
  z_ne : (p.z : Coordinate) ≠ 0
  abscissa : (p.x : Coordinate) = x * (p.z : Coordinate) ^ 2
  ordinate : (p.y : Coordinate) = y * (p.z : Coordinate) ^ 3

theorem Point.hasAffine_ofAffine {x y : Nat} (hx : x < fieldOrder) (hy : y < fieldOrder) :
    (Point.ofAffine x y).HasAffine x y where
  x_lt := hx
  y_lt := hy
  z_lt := show 1 < fieldOrder by decide
  z_ne := by simp [Point.ofAffine]
  abscissa := by simp [Point.ofAffine]
  ordinate := by simp [Point.ofAffine]

namespace Point.HasAffine

variable {p p' : Point} {x y x' y' ℓ : Coordinate}

theorem z_ne_zero (h : p.HasAffine x y) : p.z ≠ 0 := fun hzero =>
  h.z_ne (by rw [hzero, Nat.cast_zero])

theorem toAffine? (h : p.HasAffine x y) : p.toAffine? = some (x.val, y.val) := by
  unfold Point.toAffine?
  rw [if_neg h.z_ne_zero]
  have hz := h.z_ne
  simp only [Option.some.injEq, Prod.mk.injEq]
  constructor
  · refine eq_val_of_cast_eq (mul_lt _ _) ?_
    simp only [cast_mul, cast_inverse hz, h.abscissa]
    field_simp
  · refine eq_val_of_cast_eq (mul_lt _ _) ?_
    simp only [cast_mul, cast_inverse hz, h.ordinate]
    field_simp

/-- The tangent at a point, with its slope. -/
theorem double (h : p.HasAffine x y) (hy : y ≠ 0) (hslope : ℓ * (2 * y) = 3 * x ^ 2) :
    p.double.HasAffine (ℓ ^ 2 - x - x) (-(ℓ * (ℓ ^ 2 - x - x - x) + y)) := by
  unfold Point.double
  rw [if_neg h.z_ne_zero]
  refine ⟨sub_lt _ _, sub_lt _ _, mul_lt _ _, ?_, ?_, ?_⟩ <;>
    simp only [cast_mul, cast_add, cast_sub, sub_lt, add_lt, mul_lt, Nat.cast_ofNat, h.abscissa,
      h.ordinate]
  · exact mul_ne_zero two_ne_zero (mul_ne_zero (mul_ne_zero hy (pow_ne_zero 3 h.z_ne)) h.z_ne)
  · linear_combination -(p.z : Coordinate) ^ 8 * (ℓ * (2 * y) + 3 * x ^ 2) * hslope
  · linear_combination (p.z : Coordinate) ^ 12 * ((ℓ * (2 * y)) ^ 2 +
      ℓ * (2 * y) * (3 * x ^ 2) + (3 * x ^ 2) ^ 2 - 12 * x * y ^ 2) * hslope

/-- Abscissas are compared over the common denominator. -/
theorem abscissa_eq_iff (h : p.HasAffine x y) (h' : p'.HasAffine x' y') :
    mul p.x (mul p'.z p'.z) = mul p'.x (mul p.z p.z) ↔ x = x' := by
  rw [← cast_inj (mul_lt _ _) (mul_lt _ _),
    ← mul_left_inj' (pow_ne_zero 2 (mul_ne_zero h.z_ne h'.z_ne)) (a := x)]
  simp only [cast_mul, h.abscissa, h'.abscissa]
  ring_nf

/-- Ordinates are compared over the common denominator. -/
theorem ordinate_eq_iff (h : p.HasAffine x y) (h' : p'.HasAffine x' y') :
    mul p.y (mul (mul p'.z p'.z) p'.z) = mul p'.y (mul (mul p.z p.z) p.z) ↔ y = y' := by
  rw [← cast_inj (mul_lt _ _) (mul_lt _ _),
    ← mul_left_inj' (pow_ne_zero 3 (mul_ne_zero h.z_ne h'.z_ne)) (a := y)]
  simp only [cast_mul, h.ordinate, h'.ordinate]
  ring_nf

/-- The chord through two points, with its slope. -/
theorem sum_of_ne (h : p.HasAffine x y) (h' : p'.HasAffine x' y') (hne : x ≠ x')
    (hslope : ℓ * (x - x') = y - y') :
    (p.sum p').HasAffine (ℓ ^ 2 - x - x') (-(ℓ * (ℓ ^ 2 - x - x' - x) + y)) := by
  unfold Point.sum
  rw [if_neg h.z_ne_zero, if_neg h'.z_ne_zero]
  simp only [h.abscissa_eq_iff h', if_neg hne]
  refine ⟨sub_lt _ _, sub_lt _ _, mul_lt _ _, ?_, ?_, ?_⟩ <;>
    simp only [cast_mul, cast_add, cast_sub, sub_lt, add_lt, mul_lt, h.abscissa, h.ordinate,
      h'.abscissa, h'.ordinate]
  · have hdenominator : (x' - x) * (p.z * p'.z : Coordinate) ^ 3 ≠ 0 :=
      mul_ne_zero (sub_ne_zero.2 hne.symm) (pow_ne_zero 3 (mul_ne_zero h.z_ne h'.z_ne))
    ring_nf at hdenominator ⊢
    exact hdenominator
  · linear_combination -(p.z * p'.z : Coordinate) ^ 6 * (ℓ * (x - x') + (y - y')) * hslope
  · linear_combination -(p.z * p'.z : Coordinate) ^ 9 * ((y - y') ^ 2 +
      (y - y') * (ℓ * (x - x')) + (ℓ * (x - x')) ^ 2 - (2 * x + x') * (x' - x) ^ 2) * hslope

/-- Points with the same coordinates are doubled. -/
theorem sum_of_eq (h : p.HasAffine x y) (h' : p'.HasAffine x y) : p.sum p' = p.double := by
  unfold Point.sum
  rw [if_neg h.z_ne_zero, if_neg h'.z_ne_zero]
  simp only [h.abscissa_eq_iff h', h.ordinate_eq_iff h', if_true]

/-- Points on one vertical line cancel. -/
theorem sum_of_opposite (h : p.HasAffine x y) (h' : p'.HasAffine x y') (hne : y ≠ y') :
    p.sum p' = .infinity := by
  unfold Point.sum
  rw [if_neg h.z_ne_zero, if_neg h'.z_ne_zero]
  simp only [h.abscissa_eq_iff h', h.ordinate_eq_iff h', if_true, if_neg hne]

end Point.HasAffine

/-! ## Points for group elements -/

/-- A point stands for an element of the group: for zero if its last coordinate is zero, and else
for the one whose affine coordinates it has. -/
inductive Represents : Point → curve.Point → Prop
  | infinity {p : Point} (hz : p.z = 0) : Represents p 0
  | affine {p : Point} {x y : Coordinate} (hP : curve.Nonsingular x y) (h : p.HasAffine x y) :
    Represents p (.some x y hP)

namespace Represents

variable {p p' : Point} {P P' : curve.Point}

theorem eq_zero_iff (h : Represents p P) : p.z = 0 ↔ P = 0 := by
  cases h with
  | infinity hz => exact iff_of_true hz rfl
  | affine hP h => exact iff_of_false h.z_ne_zero (Affine.Point.some_ne_zero hP)

theorem double (h : Represents p P) : Represents p.double (P + P) := by
  cases h with
  | infinity hz =>
    rw [add_zero]
    unfold Point.double
    rw [if_pos hz]
    exact .infinity rfl
  | @affine x y hP h =>
    by_cases hy : y = 0
    · rw [Affine.Point.add_self_of_Y_eq (by rw [negY_eq, hy, neg_zero])]
      refine .infinity ?_
      unfold Point.double
      rw [if_neg h.z_ne_zero, ← cast_eq_zero_iff (mul_lt _ _)]
      simp [h.ordinate, hy]
    · have hY : y ≠ curve.negY x y := by
        rw [negY_eq, ne_eq, eq_neg_self_iff]
        exact hy
      have hslope : curve.slope x x y y * (2 * y) = 3 * x ^ 2 := by
        rw [Affine.slope_of_Y_ne rfl hY, negY_eq, sub_neg_eq_add, ← two_mul]
        simp only [curve, mul_zero, zero_mul, add_zero, sub_zero]
        exact div_mul_cancel₀ _ (mul_ne_zero two_ne_zero hy)
      rw [Affine.Point.add_self_of_Y_ne hY]
      refine .affine _ ?_
      rw [addX_eq, addY_eq]
      exact h.double hy hslope

theorem sum (h : Represents p P) (h' : Represents p' P') : Represents (p.sum p') (P + P') := by
  cases h with
  | infinity hz =>
    rw [zero_add]
    unfold Point.sum
    rwa [if_pos hz]
  | @affine x y hP h =>
    cases h' with
    | infinity hz' =>
      rw [add_zero]
      unfold Point.sum
      rw [if_neg h.z_ne_zero, if_pos hz']
      exact .affine hP h
    | @affine x' y' hP' h' =>
      by_cases hxx : x = x'
      · subst hxx
        by_cases hyy : y = y'
        · subst hyy
          rw [h.sum_of_eq h']
          exact (Represents.affine hP h).double
        · rw [h.sum_of_opposite h' hyy, Affine.Point.add_of_Y_eq rfl
            ((Affine.Y_eq_of_X_eq hP.1 hP'.1 rfl).resolve_left hyy)]
          exact .infinity rfl
      · have hslope : curve.slope x x' y y' * (x - x') = y - y' := by
          rw [Affine.slope_of_X_ne hxx]
          exact div_mul_cancel₀ _ (sub_ne_zero.2 hxx)
        rw [Affine.Point.add_of_X_ne hxx]
        refine .affine _ ?_
        rw [addX_eq, addY_eq]
        exact h.sum_of_ne h' hxx hslope

/-- The bits of the scalar that are left are added to what there is. -/
theorem timesAux {bits k : Nat} (hk : k < 2 ^ bits) (h : Represents p P)
    (h' : Represents p' P') : Represents (Point.timesAux bits k p p') (P' + k • P) := by
  induction bits generalizing k p p' P P' with
  | zero =>
    obtain rfl : k = 0 := by simpa using hk
    rwa [zero_nsmul, add_zero]
  | succ bits ih =>
    unfold Point.timesAux
    split
    · next hzero => rwa [hzero, zero_nsmul, add_zero]
    · have hhalf : k / 2 < 2 ^ bits := by
        rw [Nat.pow_succ] at hk
        omega
      have hdouble : (k / 2) • (P + P) = (2 * (k / 2)) • P := by
        rw [← two_nsmul, ← mul_nsmul]
      split
      · next hodd =>
        have hrest := ih hhalf h.double (h'.sum h)
        rwa [hdouble, add_assoc, ← succ_nsmul', show 2 * (k / 2) + 1 = k by omega] at hrest
      · next heven =>
        have hrest := ih hhalf h.double h'
        rwa [hdouble, show 2 * (k / 2) = k by omega] at hrest

theorem times {k : Nat} (hk : k < 2 ^ 256) (h : Represents p P) :
    Represents (p.times k) (k • P) := by
  have hrest := h.timesAux hk (.infinity (p := Point.infinity) rfl)
  rwa [zero_add] at hrest

/-- The affine coordinates of a group element other than zero. -/
theorem toAffine? {x y : Coordinate} {hP : curve.Nonsingular x y}
    (h : Represents p (.some x y hP)) : p.toAffine? = some (x.val, y.val) := by
  cases h with
  | affine _ h => exact h.toAffine?

end Represents

/-! ## The generator -/

theorem groupOrder_pos : 0 < groupOrder := by decide

theorem groupOrder_lt : groupOrder < 2 ^ 256 := by decide

theorem nonsingular_generator :
    curve.Nonsingular (Point.generator.x : Coordinate) (Point.generator.y : Coordinate) := by
  have hcurve : mul Point.generator.y Point.generator.y =
      add (mul Point.generator.x (mul Point.generator.x Point.generator.x)) 7 := by
    decide +kernel
  have hcast := congrArg (Nat.cast : Nat → Coordinate) hcurve
  simp only [cast_mul, cast_add] at hcast
  rw [nonsingular_iff]
  push_cast at hcast
  linear_combination hcast

/-- The generator as an element of the group. -/
def generator : curve.Point := .some _ _ nonsingular_generator

theorem represents_generator : Represents Point.generator generator :=
  .affine _ (Point.hasAffine_ofAffine (by decide) (by decide))

theorem addOrderOf_generator : addOrderOf generator = groupOrder := by
  have hprime : Fact groupOrder.Prime := ⟨prime_groupOrder⟩
  refine addOrderOf_eq_prime ?_ (Affine.Point.some_ne_zero _)
  have hzero : (Point.generator.times groupOrder).z = 0 := by decide +kernel
  exact (represents_generator.times groupOrder_lt).eq_zero_iff.1 hzero

/-- Multiples of the generator vanish exactly at multiples of the order. -/
theorem nsmul_generator_eq_zero_iff {k : Nat} : k • generator = 0 ↔ groupOrder ∣ k := by
  rw [← addOrderOf_generator, addOrderOf_dvd_iff_nsmul_eq_zero]

theorem nsmul_mod_groupOrder (k : Nat) : (k % groupOrder) • generator = k • generator := by
  rw [← addOrderOf_generator, mod_addOrderOf_nsmul]

/-- A scalar between zero and the order has a multiple with coordinates. -/
theorem exists_coordinates {k : Nat} (hpos : 0 < k) (hk : k < groupOrder) :
    ∃ x y, ∃ hP : curve.Nonsingular x y, k • generator = .some x y hP ∧
      (Point.generator.times k).toAffine? = some (x.val, y.val) := by
  have hrep : Represents (Point.generator.times k) (k • generator) :=
    represents_generator.times (hk.trans groupOrder_lt)
  cases hP : k • generator with
  | zero => exact absurd (nsmul_generator_eq_zero_iff.1 hP) (Nat.not_dvd_of_pos_of_lt hpos hk)
  | some x y h =>
    rw [hP] at hrep
    exact ⟨x, y, h, rfl, hrep.toAffine?⟩

/-- Scalars below the order with one multiple are equal. -/
theorem eq_of_nsmul_eq {k k' : Nat} (hk : k < groupOrder) (hk' : k' < groupOrder)
    (h : k • generator = k' • generator) : k = k' := by
  rw [← addOrderOf_generator] at hk hk'
  exact nsmul_injOn_Iio_addOrderOf hk hk' h

/-! ## Even ordinates -/

/-- The ordinate of an opposite point has the other parity. -/
theorem val_neg_even {y : Coordinate} (h : y.val % 2 = 1) : (-y).val % 2 = 0 := by
  have hlt := y.val_lt
  have hodd := fieldOrder_odd
  rw [ZMod.neg_val, if_neg (by rintro rfl; simp at h)]
  omega

/-- At most one point with a given abscissa has an even ordinate. -/
theorem eq_of_even {x y y' : Coordinate} (hP : curve.Nonsingular x y)
    (hP' : curve.Nonsingular x y') (h : y.val % 2 = 0) (h' : y'.val % 2 = 0) : y = y' := by
  rcases Affine.Y_eq_of_X_eq hP.1 hP'.1 rfl with hyy | hyy
  · exact hyy
  · have hlt := y'.val_lt
    have hodd := fieldOrder_odd
    rw [negY_eq] at hyy
    rw [hyy, ZMod.neg_val] at h
    split at h
    · next hzero => rw [hyy, hzero, neg_zero]
    · omega

end SignetFederation.Secp256k1
