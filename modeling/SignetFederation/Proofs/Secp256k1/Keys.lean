import SignetFederation.Proofs.Secp256k1.Group
import SignetFederation.Proofs.Wire.Numbers
import SignetFederation.Secp256k1.Schnorr
import SignetFederation.Taproot.Tree

/-!
# Secret keys and their x-only keys

An x-only key does not say which of two opposite scalars is the secret, but what signs is always the
one whose multiple has the even ordinate (`SecretKey.evenScalar_spec`). So secret keys of one x-only
key make the same signatures (`Schnorr.sign_congr`) and are tweaked to the same key
(`Taproot.outputSecret?_congr`). If there is an output key, there is a secret for it
(`Taproot.exists_outputSecret`).
-/

namespace SignetFederation

open Secp256k1 WeierstrassCurve

/-! ## Abscissas -/

theorem fieldOrder_lt_bytes : fieldOrder < 256 ^ 32 := by decide

namespace XOnlyKey

theorem x_ofNat {n : Nat} (h : n < fieldOrder) : (ofNat n).x = n :=
  Bytes.ofBE_be 32 n (h.trans fieldOrder_lt_bytes)

theorem ofNat_inj {m n : Nat} (hm : m < fieldOrder) (hn : n < fieldOrder)
    (h : ofNat m = ofNat n) : m = n := by
  rw [← x_ofNat hm, h, x_ofNat hn]

end XOnlyKey

/-! ## The even scalar -/

namespace SecretKey

variable {k k' : SecretKey}

theorem xOnly_eq (k : SecretKey) : k.xOnly = XOnlyKey.ofNat k.point.1 := rfl

theorem exists_point (k : SecretKey) : ∃ x y, ∃ hP : curve.Nonsingular x y,
    k.value • generator = .some x y hP ∧ k.point = (x.val, y.val) := by
  obtain ⟨x, y, hP, hmultiple, haffine⟩ := exists_coordinates k.pos k.lt
  exact ⟨x, y, hP, hmultiple, by rw [point, haffine, Option.getD_some]⟩

/-- The scalar that signs is in range, and its multiple has the key's abscissa and an even
ordinate. -/
theorem evenScalar_spec (k : SecretKey) : Schnorr.evenScalar k.point k.value < groupOrder ∧
    ∃ x y, ∃ hP : curve.Nonsingular x y, k.point.1 = x.val ∧ y.val % 2 = 0 ∧
      Schnorr.evenScalar k.point k.value • generator = .some x y hP := by
  obtain ⟨x, y, hP, hmultiple, hpoint⟩ := k.exists_point
  have hpos := k.pos
  have hlt := k.lt
  rw [hpoint]
  unfold Schnorr.evenScalar
  split
  · next heven => exact ⟨hlt, x, y, hP, rfl, heven, hmultiple⟩
  · next hodd =>
    have hopposite : (groupOrder - k.value) • generator = -(k.value • generator) := by
      refine eq_neg_of_add_eq_zero_left ?_
      rw [← add_nsmul, Nat.sub_add_cancel hlt.le]
      exact nsmul_generator_eq_zero_iff.2 dvd_rfl
    rw [hmultiple, Affine.Point.neg_some] at hopposite
    refine ⟨by omega, x, _, (Affine.nonsingular_neg ..).2 hP, rfl, ?_, hopposite⟩
    rw [negY_eq]
    exact val_neg_even (by omega)

/-- Keys with one x-only key have the same abscissa and sign with the same scalar. -/
theorem eq_of_xOnly (h : k.xOnly = k'.xOnly) : k.point.1 = k'.point.1 ∧
    Schnorr.evenScalar k.point k.value = Schnorr.evenScalar k'.point k'.value := by
  obtain ⟨hlt, x, y, hP, hx, heven, hmultiple⟩ := k.evenScalar_spec
  obtain ⟨hlt', x', y', hP', hx', heven', hmultiple'⟩ := k'.evenScalar_spec
  have hsame : k.point.1 = k'.point.1 := by
    rw [xOnly_eq, xOnly_eq] at h
    refine XOnlyKey.ofNat_inj ?_ ?_ h
    · rw [hx]
      exact x.val_lt
    · rw [hx']
      exact x'.val_lt
  obtain rfl : x = x' := ZMod.val_injective _ (by rw [← hx, hsame, hx'])
  obtain rfl := eq_of_even hP hP' heven heven'
  exact ⟨hsame, eq_of_nsmul_eq hlt hlt' (hmultiple.trans hmultiple'.symm)⟩

end SecretKey

/-- A signature depends on the x-only key and the message alone. -/
theorem Schnorr.sign_congr {k k' : SecretKey} (h : k.xOnly = k'.xOnly) (message : Digest) :
    Schnorr.sign k message = Schnorr.sign k' message := by
  obtain ⟨hx, heven⟩ := SecretKey.eq_of_xOnly h
  simp only [Schnorr.sign, hx, heven]

/-! ## Tweaked keys -/

namespace Taproot

variable {k k' : SecretKey} {root : Digest}

/-- How far a secret key is moved for a root. -/
theorem outputSecret?_eq (k : SecretKey) (root : Digest) : outputSecret? k root =
    SecretKey.ofNat? ((Schnorr.evenScalar k.point k.value +
      Bytes.ofBE (tweakHash k.xOnly root).toBytes) % groupOrder) := rfl

/-- The tweaked key depends on the x-only key and the root alone. -/
theorem outputSecret?_congr (h : k.xOnly = k'.xOnly) (root : Digest) :
    outputSecret? k root = outputSecret? k' root := by
  rw [outputSecret?_eq, outputSecret?_eq, (SecretKey.eq_of_xOnly h).2, h]

/-- The point of an x-only key stands for the multiple of the even scalar. -/
theorem represents_point? {p : Point} (h : k.xOnly.point? = some p) :
    Represents p (Schnorr.evenScalar k.point k.value • generator) := by
  obtain ⟨_, x, y, hP, hx, heven, hmultiple⟩ := k.evenScalar_spec
  obtain ⟨y', hlift, rfl⟩ := Option.map_eq_some_iff.1 h
  rw [SecretKey.xOnly_eq, hx, XOnlyKey.x_ofNat x.val_lt] at hlift ⊢
  obtain ⟨hlt, hlt', heven', hcurve⟩ := lift?_even hlift
  have hP' : curve.Nonsingular (x.val : Coordinate) (y' : Coordinate) := nonsingular_iff.2 hcurve
  have hrep : Represents (Point.ofAffine x.val y') (.some _ _ hP') :=
    .affine hP' (Point.hasAffine_ofAffine hlt hlt')
  rw [hmultiple]
  simp only [ZMod.natCast_zmod_val] at hP' hrep
  obtain rfl := eq_of_even hP hP' heven (by rwa [ZMod.val_natCast_of_lt hlt'])
  exact hrep

/-- If the key of a secret can be tweaked, so can the secret, and what comes out is the secret of
the output key. -/
theorem exists_outputSecret {out : OutputKey} (h : outputKey? k.xOnly root = some out) :
    ∃ secret, outputSecret? k root = some secret ∧ secret.xOnly = out.key := by
  simp only [outputKey?, Option.bind_eq_bind, Option.bind_eq_some_iff] at h
  obtain ⟨_, hguard, p, hp, ⟨x, y⟩, haffine, hout⟩ := h
  cases hout
  rw [outputSecret?_eq]
  generalize Bytes.ofBE (tweakHash k.xOnly root).toBytes = t at hguard haffine ⊢
  generalize hscalar : (Schnorr.evenScalar k.point k.value + t) % groupOrder = d
  have ht : t < groupOrder := by simpa [guard] using hguard
  have hrep : Represents ((Point.generator.times t).sum p) (d • generator) := by
    rw [← hscalar, nsmul_mod_groupOrder, add_nsmul, add_comm]
    exact (represents_generator.times (ht.trans groupOrder_lt)).sum (represents_point? hp)
  have hpos : 0 < d := by
    refine Nat.pos_of_ne_zero ?_
    rintro rfl
    rw [zero_nsmul] at hrep
    rw [Point.toAffine?, if_pos (hrep.eq_zero_iff.2 rfl)] at haffine
    cases haffine
  have hlt : d < groupOrder := hscalar ▸ Nat.mod_lt _ groupOrder_pos
  refine ⟨⟨d, hpos, hlt⟩, by rw [SecretKey.ofNat?, dif_pos ⟨hpos, hlt⟩], ?_⟩
  obtain ⟨x', y', hP, hmultiple, hpoint⟩ := SecretKey.exists_point ⟨d, hpos, hlt⟩
  rw [hmultiple] at hrep
  obtain ⟨rfl, rfl⟩ := Prod.mk.inj (Option.some.inj (haffine.symm.trans hrep.toAffine?))
  rw [SecretKey.xOnly_eq, hpoint]

end Taproot

end SignetFederation
