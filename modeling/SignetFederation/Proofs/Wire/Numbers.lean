import Mathlib.Algebra.Ring.Nat
import SignetFederation.Wire.CompactSize

/-!
# Numbers and counts read back

A number that fits its width reads back from its bytes, whatever follows them, and the bytes that
are read as a number are the form of that number. The same holds of counts, whose width goes by
their size, because only the shortest form of a count is read.

Main statements: `CompactSize.decode_encode_append` and `CompactSize.eq_append_of_decode`.
-/

namespace SignetFederation

/-! ## Numbers of a fixed width -/

namespace Bytes

theorem ofLE_le (k value : Nat) (h : value < 256 ^ k) : ofLE (le k value) = value := by
  induction k generalizing value with
  | zero => simp at h; simp [le, ofLE, h]
  | succ k ih =>
    have : value / 256 < 256 ^ k := by
      apply Nat.div_lt_of_lt_mul
      rw [Nat.pow_succ] at h
      omega
    simp [le, ofLE, ih _ this]
    omega

theorem ofLE_lt (b : Bytes) : ofLE b < 256 ^ b.length := by
  induction b with
  | nil => simp [ofLE]
  | cons x r ih =>
    have hx : x.toNat < 256 := x.toNat_lt
    simp only [List.length_cons, ofLE, Nat.pow_succ]
    omega

theorem ofBE_reverse (b : Bytes) : ofBE b.reverse = ofLE b := by
  unfold ofBE
  rw [List.foldl_reverse]
  induction b with
  | nil => rfl
  | cons x r ih =>
    rw [List.foldr_cons, ih, ofLE]
    omega

theorem ofBE_be (k value : Nat) (h : value < 256 ^ k) : ofBE (be k value) = value := by
  rw [be, ofBE_reverse, ofLE_le k value h]

end Bytes

namespace Decoder

theorem natLE_append (k value : Nat) (b : Bytes) (h : value < 256 ^ k) :
    natLE k (Bytes.le k value ++ b) = .ok (value, b) := by
  have := Bytes.cut_append (Bytes.le k value) b
  rw [Bytes.length_le] at this
  simp [natLE, this, Bytes.ofLE_le k value h]

theorem eq_append_of_natLE {k value : Nat} {b rest : Bytes} (h : natLE k b = .ok (value, rest)) :
    b = Bytes.le k value ++ rest ∧ value < 256 ^ k := by
  unfold natLE at h
  split at h
  · rename_i front unread hcut
    cases h
    obtain ⟨hb, hlen⟩ := Bytes.eq_append_of_cut hcut
    subst hlen
    exact ⟨by rw [Bytes.le_ofLE, hb], Bytes.ofLE_lt front⟩
  · cases h

end Decoder

/-! ## Counts -/

namespace CompactSize

theorem wide_append {k least value : Nat} (b : Bytes) (hleast : least ≤ value)
    (hlt : value < 256 ^ k) : wide k least (Bytes.le k value ++ b) = .ok (value, b) := by
  simp only [wide, Decoder.natLE_append k value b hlt]
  rw [if_neg (by omega)]

theorem eq_append_of_wide {k least value : Nat} {b rest : Bytes}
    (h : wide k least b = .ok (value, rest)) :
    b = Bytes.le k value ++ rest ∧ least ≤ value ∧ value < 256 ^ k := by
  unfold wide at h
  split at h
  · rename_i n unread hnat
    split at h
    · cases h
    · cases h
      obtain ⟨hb, hlt⟩ := Decoder.eq_append_of_natLE hnat
      exact ⟨hb, by omega, hlt⟩
  · cases h

/-- A count reads back, whatever follows. -/
theorem decode_encode_append {n : Nat} (b : Bytes) (h : n < 2 ^ 64) :
    decode (encode n ++ b) = .ok (n, b) := by
  unfold encode
  split
  · rename_i hn
    have hx : (UInt8.ofNat n).toNat = n := by simp; omega
    have hne : ∀ m : UInt8, 0xfd ≤ m.toNat → UInt8.ofNat n ≠ m := by
      rintro m hm rfl
      omega
    simp only [List.cons_append, List.nil_append, decode]
    rw [if_neg (hne 0xff (by decide)), if_neg (hne 0xfe (by decide)),
      if_neg (hne 0xfd (by decide)), hx]
  · split
    · simpa [decode] using wide_append b (by omega) (by omega)
    · split
      · simpa [decode] using wide_append b (by omega) (by omega)
      · simpa [decode] using wide_append b (by omega) (by omega)

/-- What is read as a count is the form of that count. -/
theorem eq_append_of_decode {n : Nat} {b rest : Bytes} (h : decode b = .ok (n, rest)) :
    b = encode n ++ rest ∧ n < 2 ^ 64 := by
  cases b with
  | nil => cases h
  | cons x tail =>
    simp only [decode] at h
    split at h
    · rename_i hx
      obtain ⟨hb, hleast, hlt⟩ := eq_append_of_wide h
      refine ⟨?_, by omega⟩
      unfold encode
      rw [if_neg (by omega), if_neg (by omega), if_neg (by omega), hx, hb]
      rfl
    · split at h
      · rename_i hx
        obtain ⟨hb, hleast, hlt⟩ := eq_append_of_wide h
        refine ⟨?_, by omega⟩
        unfold encode
        rw [if_neg (by omega), if_neg (by omega), if_pos (by omega), hx, hb]
        rfl
      · split at h
        · rename_i hx
          obtain ⟨hb, hleast, hlt⟩ := eq_append_of_wide h
          refine ⟨?_, by omega⟩
          unfold encode
          rw [if_neg (by omega), if_pos (by omega), hx, hb]
          rfl
        · rename_i h1 h2 h3
          cases h
          have hlt : x.toNat < 0xfd := by
            have := x.toNat_lt
            have e1 : x.toNat ≠ 0xff := fun e => h1 (UInt8.toNat_inj.mp e)
            have e2 : x.toNat ≠ 0xfe := fun e => h2 (UInt8.toNat_inj.mp e)
            have e3 : x.toNat ≠ 0xfd := fun e => h3 (UInt8.toNat_inj.mp e)
            omega
          refine ⟨?_, by omega⟩
          unfold encode
          rw [if_pos hlt]
          simp

end CompactSize

end SignetFederation
