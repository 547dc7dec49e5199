import Mathlib.Data.List.Prime
import Mathlib.Data.Nat.Prime.Basic
import Mathlib.NumberTheory.LucasPrimality
import SignetFederation.Secp256k1.Curve

/-!
# The two primes of secp256k1

The order of the coordinate field and the order of the group are prime. Each is shown by Lucas's
test: some number has order `p - 1` modulo `p`, as it does not have the order `(p - 1) / q` for a
prime divisor `q` of `p - 1`. The large divisors are shown prime in the same way, one after another,
and the small ones by trial division. Checking all of this is a computation (`isCertified`).

Main statements: `prime_fieldOrder` and `prime_groupOrder`.
-/

namespace SignetFederation.Secp256k1

/-! ## Trial division -/

/-- Whether no number divides `n`, from `d` up to the square root of `n`; at most `steps` numbers
are tried. -/
def isRough (n : Nat) : (steps d : Nat) → Bool
  | 0, _ => false
  | steps + 1, d => n < d * d || (n % d != 0 && isRough n steps (d + 1))

theorem not_dvd_of_isRough {n steps d m : Nat} (h : isRough n steps d = true) (hd : d ≤ m)
    (hm : m * m ≤ n) : ¬ m ∣ n := by
  induction steps generalizing d with
  | zero => cases h
  | succ steps ih =>
    simp only [isRough, Bool.or_eq_true, Bool.and_eq_true, decide_eq_true_eq, bne_iff_ne] at h
    rcases h with hlt | ⟨hne, hrest⟩
    · have hsquare : d * d ≤ m * m := Nat.mul_le_mul hd hd
      omega
    · rcases Nat.eq_or_lt_of_le hd with rfl | hlt
      · exact fun hdvd => hne (Nat.mod_eq_zero_of_dvd hdvd)
      · exact ih hrest hlt

theorem prime_of_isRough {n steps : Nat} (htwo : 2 ≤ n) (h : isRough n steps 2 = true) :
    n.Prime :=
  Nat.prime_def_le_sqrt.2 ⟨htwo, fun _ hm hsqrt => not_dvd_of_isRough h hm (Nat.le_sqrt.1 hsqrt)⟩

/-! ## Lucas's test -/

/-- A power modulo `m`, for an exponent of at most `bits` bits. -/
def powMod (m : Nat) : (bits base e : Nat) → Nat
  | 0, _, _ => 1 % m
  | bits + 1, base, e =>
    if e = 0 then 1 % m
    else powMod m bits (base * base % m) (e / 2) * (if e % 2 = 1 then base else 1) % m

theorem powMod_eq (m : Nat) {bits base e : Nat} (he : e < 2 ^ bits) :
    powMod m bits base e = base ^ e % m := by
  induction bits generalizing base e with
  | zero =>
    obtain rfl : e = 0 := by simpa using he
    rfl
  | succ bits ih =>
    have hhalf : e / 2 < 2 ^ bits := by
      rw [Nat.pow_succ] at he
      omega
    unfold powMod
    split
    · next hzero => rw [hzero, pow_zero]
    · rw [ih hhalf, ← Nat.pow_mod, Nat.mod_mul_mod, ← sq, ← pow_mul]
      split
      · next hodd => rw [← pow_succ, show 2 * (e / 2) + 1 = e by omega]
      · next heven => rw [mul_one, show 2 * (e / 2) = e by omega]

/-- A number, one that should generate its units, and the factors of its predecessor with their
exponents. -/
structure LucasStep where
  number : Nat
  base : Nat
  factors : List (Nat × Nat)

namespace LucasStep

/-- Whether a step passes the test, given some primes; small factors are tried directly. -/
def passes (primes : List Nat) (s : LucasStep) : Bool :=
  2 ≤ s.number && s.number < 2 ^ 256 &&
    (s.factors.map fun f => f.1 ^ f.2).prod == s.number - 1 &&
    powMod s.number 256 s.base (s.number - 1) == 1 &&
    s.factors.all fun f => (primes.contains f.1 || (2 ≤ f.1 && isRough f.1 512 2)) &&
      powMod s.number 256 s.base ((s.number - 1) / f.1) != 1

/-- Whether each of some steps passes, given the numbers of those before it. -/
def areCertified (primes : List Nat) : List LucasStep → Bool
  | [] => true
  | s :: steps => s.passes primes && areCertified (s.number :: primes) steps

theorem cast_pow_eq_one_iff {m : Nat} (hm : 2 ≤ m) {base e : Nat} (he : e < 2 ^ 256) :
    (base : ZMod m) ^ e = 1 ↔ powMod m 256 base e = 1 := by
  rw [powMod_eq m he, ← Nat.cast_pow, ← Nat.cast_one, ZMod.natCast_eq_natCast_iff',
    Nat.mod_eq_of_lt (show 1 < m by omega)]

theorem prime_of_passes {primes : List Nat} {s : LucasStep} (hprimes : ∀ q ∈ primes, q.Prime)
    (h : s.passes primes = true) : s.number.Prime := by
  simp only [passes, Bool.and_eq_true, Bool.or_eq_true, decide_eq_true_eq, beq_iff_eq, bne_iff_ne,
    List.all_eq_true, List.contains_iff_mem] at h
  obtain ⟨⟨⟨⟨htwo, hlt⟩, hprod⟩, hone⟩, hfactors⟩ := h
  refine lucas_primality s.number s.base ((cast_pow_eq_one_iff htwo (by omega)).2 hone) ?_
  intro q hq hdvd
  -- A prime divisor of the product is one of the factors.
  obtain ⟨_, hpower, hqr⟩ := hq.prime.dvd_prod_iff.1 (hprod ▸ hdvd)
  obtain ⟨⟨r, k⟩, hr, rfl⟩ := List.mem_map.1 hpower
  obtain ⟨hprime, hne⟩ : _ ∧ powMod s.number 256 s.base ((s.number - 1) / r) ≠ 1 :=
    hfactors (r, k) hr
  have hrprime : r.Prime := hprime.elim (hprimes r) fun hsmall => prime_of_isRough hsmall.1 hsmall.2
  obtain rfl : q = r := (Nat.prime_dvd_prime_iff_eq hq hrprime).1 (hq.dvd_of_dvd_pow hqr)
  have hle : (s.number - 1) / q ≤ s.number - 1 := Nat.div_le_self _ _
  exact fun hpow => hne ((cast_pow_eq_one_iff htwo (by omega)).1 hpow)

theorem prime_of_areCertified {primes : List Nat} {steps : List LucasStep}
    (hprimes : ∀ q ∈ primes, q.Prime) (h : areCertified primes steps = true) :
    ∀ s ∈ steps, s.number.Prime := by
  induction steps generalizing primes with
  | nil => simp
  | cons s steps ih =>
    obtain ⟨hs, hsteps⟩ := Bool.and_eq_true_iff.1 h
    have hprime := prime_of_passes hprimes hs
    have hmore : ∀ q ∈ s.number :: primes, q.Prime := by
      rintro q (_ | ⟨_, hq⟩)
      · exact hprime
      · exact hprimes q hq
    rintro s' (_ | ⟨_, hs'⟩)
    · exact hprime
    · exact ih hmore hsteps s' hs'

end LucasStep

/-! ## The certificates -/

/-- The way to the order of the field. -/
def fieldSteps : List LucasStep := [
  ⟨13331831, 13, [(2, 1), (5, 1), (971, 1), (1373, 1)]⟩,
  ⟨173378833005251801, 6, [(2, 3), (5, 2), (2621, 1), (24809, 1), (13331831, 1)]⟩,
  ⟨22149492674086928081353, 5, [(2, 3), (3, 1), (5323, 1), (173378833005251801, 1)]⟩,
  ⟨132896956044521568488119, 6, [(2, 1), (3, 1), (22149492674086928081353, 1)]⟩,
  ⟨1206781, 10, [(2, 2), (3, 1), (5, 1), (20113, 1)]⟩,
  ⟨7240687, 3, [(2, 1), (3, 1), (1206781, 1)]⟩,
  ⟨107590001, 3, [(2, 4), (5, 4), (7, 1), (29, 1), (53, 1)]⟩,
  ⟨255515944373312847190720520512484175977, 3, [(2, 3), (7, 2), (11, 1), (1627, 1), (2657, 1),
    (4423, 1), (41201, 1), (96557, 1), (7240687, 1), (107590001, 1)]⟩,
  ⟨205115282021455665897114700593932402728804164701536103180137503955397371, 10, [(2, 1), (3, 1),
    (5, 1), (29, 2), (31, 1), (7723, 1), (132896956044521568488119, 1),
    (255515944373312847190720520512484175977, 1)]⟩,
  ⟨fieldOrder, 3, [(2, 1), (3, 1), (7, 1), (13441, 1),
    (205115282021455665897114700593932402728804164701536103180137503955397371, 1)]⟩]

/-- The way to the order of the group. -/
def groupSteps : List LucasStep := [
  ⟨4681609, 23, [(2, 3), (3, 1), (97, 1), (2011, 1)]⟩,
  ⟨107361793816595537, 3, [(2, 4), (16699, 1), (85831, 1), (4681609, 1)]⟩,
  ⟨44706919, 6, [(2, 1), (3, 1), (797, 1), (9349, 1)]⟩,
  ⟨174723607534414371449, 3, [(2, 3), (17, 1), (59, 1), (4051, 1), (120233, 1), (44706919, 1)]⟩,
  ⟨305873, 3, [(2, 4), (7, 1), (2731, 1)]⟩,
  ⟨545358713, 5, [(2, 3), (41, 1), (59, 1), (28181, 1)]⟩,
  ⟨1627771, 3, [(2, 1), (3, 1), (5, 1), (29, 1), (1871, 1)]⟩,
  ⟨297159362677, 2, [(2, 2), (3, 2), (11, 1), (461, 1), (1627771, 1)]⟩,
  ⟨29047611873442575647497758179, 2, [(2, 1), (293, 1), (305873, 1), (545358713, 1),
    (297159362677, 1)]⟩,
  ⟨341948486974166000522343609283189, 2, [(2, 2), (3, 3), (109, 1),
    (29047611873442575647497758179, 1)]⟩,
  ⟨groupOrder, 7, [(2, 6), (3, 1), (149, 1), (631, 1), (107361793816595537, 1),
    (174723607534414371449, 1), (341948486974166000522343609283189, 1)]⟩]

/-- The order of the coordinate field is prime. -/
theorem prime_fieldOrder : fieldOrder.Prime :=
  LucasStep.prime_of_areCertified (by simp)
    (show LucasStep.areCertified [] fieldSteps = true by decide +kernel) _
    (List.mem_of_getElem? (show fieldSteps[9]? = some _ from rfl))

/-- The order of the group is prime. -/
theorem prime_groupOrder : groupOrder.Prime :=
  LucasStep.prime_of_areCertified (by simp)
    (show LucasStep.areCertified [] groupSteps = true by decide +kernel) _
    (List.mem_of_getElem? (show groupSteps[10]? = some _ from rfl))

end SignetFederation.Secp256k1
