import Mathlib.Data.List.Basic
import Mathlib.Data.List.Nodup
import Mathlib.Data.Nat.Bitwise
import SignetFederation.Descriptor.Checksum
import SignetFederation.Proofs.Outcome

/-!
# What a checksum catches

The remainder of a body is linear in its coefficients (`step_xor`), and a coefficient that is zero
loses nothing of the remainder before it (`step_injective`). Eight coefficients fit into a remainder
before anything leaves it at the top (`eq_of_foldl_step`). So two bodies that differ in a stretch
whose coefficients are at most eight have different remainders, however long they are. A code
shows in its own coefficient and in that of its group of three, and two neighbouring groups have
eight coefficients.

Main statement: `eq_of_ofChars` (no change of up to four neighbouring characters keeps the checksum).
-/

namespace SignetFederation.Descriptor.Checksum

/-! ## One coefficient -/

/-- A generator, if the bit that calls for it is set. -/
def given (bit : Bool) (generator : BitVec 40) : BitVec 40 := if bit then generator else 0#40

/-- What the five bits at the top of a remainder put back into it. -/
def feedback (r : BitVec 40) : BitVec 40 :=
  given (r.getLsbD 35) 0xf5dee51989 ^^^ given (r.getLsbD 36) 0xa9fdca3312 ^^^
    given (r.getLsbD 37) 0x1bab10e32d ^^^ given (r.getLsbD 38) 0x3706b1677a ^^^
    given (r.getLsbD 39) 0x644d626ffd

theorem given_xor (a b : Bool) (g : BitVec 40) : given (a ^^ b) g = given a g ^^^ given b g := by
  cases a <;> cases b <;> simp [given]

theorem feedback_xor (r s : BitVec 40) : feedback (r ^^^ s) = feedback r ^^^ feedback s := by
  simp only [feedback, BitVec.getLsbD_xor, given_xor]
  ac_rfl

theorem step_eq (r : BitVec 40) (c : Nat) :
    step r c = (r <<< 5) ^^^ BitVec.ofNat 40 c ^^^ feedback r := by
  have hput : ∀ (b : Bool) (g s : BitVec 40), (if b then s ^^^ g else s) = s ^^^ given b g := by
    intro b g s
    cases b <;> simp [given]
  simp only [step, generators, List.foldl_cons, List.foldl_nil, hput, feedback]
  ac_rfl

/-- **A step is linear.** What was there and what comes in can be followed apart. -/
theorem step_xor (r s : BitVec 40) (c : Nat) : step (r ^^^ s) c = step r 0 ^^^ step s c := by
  simp only [step_eq, feedback_xor, BitVec.shiftLeft_xor_distrib]
  rw [BitVec.xor_zero]
  ac_rfl

/-- Only the remainder without any of the five bits gets nothing back in its lowest places. -/
theorem given_eq_zero : ∀ a b c d e : Bool,
    (given a 0xf5dee51989 ^^^ given b 0xa9fdca3312 ^^^ given c 0x1bab10e32d ^^^
      given d 0x3706b1677a ^^^ given e 0x644d626ffd).setWidth 5 = 0#5 →
    a = false ∧ b = false ∧ c = false ∧ d = false ∧ e = false := by
  decide

theorem feedback_of_lt {r : BitVec 40} (h : r.toNat < 32 ^ 7) : feedback r = 0#40 := by
  have hbit : ∀ i, 35 ≤ i → r.getLsbD i = false := fun i hi =>
    Nat.testBit_lt_two_pow (Nat.lt_of_lt_of_le h (Nat.pow_le_pow_right (by decide : 0 < 2) hi))
  simp only [feedback, given, hbit, Nat.le_refl, Nat.reduceLeDiff, Bool.false_eq_true, if_false,
    BitVec.xor_zero]

/-- A step on a remainder with room at its top writes the coefficient behind it. -/
theorem toNat_step {r : BitVec 40} {c : Nat} (hr : r.toNat < 32 ^ 7) (hc : c < 32) :
    (step r c).toNat = 32 * r.toNat + c := by
  have hsum : 32 * r.toNat + c < 2 ^ 40 := by omega
  rw [step_eq, feedback_of_lt hr, BitVec.xor_zero, BitVec.toNat_xor, BitVec.toNat_shiftLeft,
    BitVec.toNat_ofNat, Nat.mod_eq_of_lt (by omega : c < 2 ^ 40), Nat.shiftLeft_eq,
    Nat.mod_eq_of_lt (by omega)]
  refine Nat.eq_of_testBit_eq fun i => ?_
  have hleft := Nat.testBit_two_pow_mul_add r.toNat (i := 5) (b := 0) (by decide) i
  have hright := Nat.testBit_two_pow_mul_add r.toNat (i := 5) (b := c) hc i
  rw [Nat.mul_comm, Nat.testBit_xor, show 2 ^ 5 * r.toNat = 2 ^ 5 * r.toNat + 0 from rfl, hleft]
  refine Eq.trans ?_ hright.symm
  by_cases hi : i < 5
  · simp [hi]
  · have hci : c.testBit i = false := Nat.testBit_lt_two_pow
      (Nat.lt_of_lt_of_le hc (Nat.pow_le_pow_right (by decide : 0 < 2) (by omega : 5 ≤ i)))
    simp [hi, hci]

/-- A remainder is zero if nothing of it is left after a step. -/
theorem eq_zero_of_step {r : BitVec 40} (h : step r 0 = 0#40) : r = 0#40 := by
  have hlow : (step r 0).setWidth 5 = (feedback r).setWidth 5 := by
    have hshift : (r <<< 5).setWidth 5 = 0#5 := by
      ext i hi
      simp
    simp [step_eq, BitVec.setWidth_xor, hshift]
  rw [h] at hlow
  obtain ⟨h35, h36, h37, h38, h39⟩ := given_eq_zero _ _ _ _ _ hlow.symm
  have hlt : r.toNat < 2 ^ 35 := by
    refine Nat.lt_pow_two_of_testBit _ fun i hi => ?_
    rcases Nat.lt_or_ge i 40 with hi' | hi'
    · have hcases : i = 35 ∨ i = 36 ∨ i = 37 ∨ i = 38 ∨ i = 39 := by omega
      rcases hcases with rfl | rfl | rfl | rfl | rfl <;> assumption
    · exact BitVec.getLsbD_of_ge r i hi'
  have hnat := toNat_step (c := 0) hlt (by decide)
  rw [h] at hnat
  exact BitVec.eq_of_toNat_eq (by simpa using hnat.symm)

/-- **A step loses nothing**: whatever the coefficient, it leads from different remainders to
different ones. -/
theorem step_injective {r s : BitVec 40} {c : Nat} (h : step r c = step s c) : r = s := by
  have hr := step_xor r 0#40 c
  have hs := step_xor s 0#40 c
  rw [BitVec.xor_zero] at hr hs
  have hzero : step (r ^^^ s) 0 = 0#40 := by
    rw [step_xor, BitVec.xor_eq_zero_iff]
    rw [hr, hs] at h
    exact BitVec.xor_left_inj _ |>.1 h
  exact BitVec.xor_eq_zero_iff.1 (eq_zero_of_step hzero)

/-! ## Rows of coefficients -/

theorem foldl_step_injective {r s : BitVec 40} {cs : List Nat}
    (h : cs.foldl step r = cs.foldl step s) : r = s := by
  induction cs generalizing r s with
  | nil => exact h
  | cons c cs ih => exact step_injective (ih h)

/-- The remainder after a row: what the row leaves of the one before it, and the row's own. -/
theorem foldl_step_xor (r s : BitVec 40) (cs : List Nat) :
    cs.foldl step (r ^^^ s) = (cs.map fun _ => 0).foldl step r ^^^ cs.foldl step s := by
  induction cs generalizing r s with
  | nil => rfl
  | cons c cs ih => rw [List.foldl_cons, step_xor, ih, List.map_cons, List.foldl_cons, List.foldl_cons]

/-- Nothing leaves a remainder at the top before the ninth coefficient, so up to there it tells all
coefficients. -/
theorem eq_of_foldl_step {cs ds : List Nat} {r s : BitVec 40} {n : Nat} (hr : r.toNat < 32 ^ n)
    (hs : s.toNat < 32 ^ n) (hroom : n + cs.length ≤ 8) (hlen : cs.length = ds.length)
    (hcs : ∀ c ∈ cs, c < 32) (hds : ∀ d ∈ ds, d < 32) (h : cs.foldl step r = ds.foldl step s) :
    r = s ∧ cs = ds := by
  induction cs generalizing ds r s n with
  | nil =>
    rw [List.eq_nil_of_length_eq_zero hlen.symm] at h ⊢
    exact ⟨h, rfl⟩
  | cons c cs ih =>
    obtain ⟨d, ds, rfl⟩ := List.exists_cons_of_length_eq_add_one hlen.symm
    obtain ⟨hc, hcs⟩ := List.forall_mem_cons.1 hcs
    obtain ⟨hd, hds⟩ := List.forall_mem_cons.1 hds
    simp only [List.length_cons, Nat.add_right_cancel_iff] at hroom hlen
    have hpow : 32 ^ n ≤ 32 ^ 7 := Nat.pow_le_pow_right (by decide) (by omega)
    have hrc := toNat_step (Nat.lt_of_lt_of_le hr hpow) hc
    have hsd := toNat_step (Nat.lt_of_lt_of_le hs hpow) hd
    have hnext : 32 ^ (n + 1) = 32 * 32 ^ n := by rw [Nat.pow_succ, Nat.mul_comm]
    obtain ⟨hstep, rfl⟩ := ih (n := n + 1) (by omega) (by omega) (by omega) hlen hcs hds h
    rw [hstep, hsd] at hrc
    exact ⟨BitVec.eq_of_toNat_eq (by omega), by rw [show c = d by omega]⟩

/-- Two rows of at most eight coefficients, read after the same remainder, are told apart. -/
theorem eq_of_foldl_step_same {cs ds : List Nat} (r : BitVec 40) (hroom : cs.length ≤ 8)
    (hlen : cs.length = ds.length) (hcs : ∀ c ∈ cs, c < 32) (hds : ∀ d ∈ ds, d < 32)
    (h : cs.foldl step r = ds.foldl step r) : cs = ds := by
  have hcs' := foldl_step_xor r 0#40 cs
  have hds' := foldl_step_xor r 0#40 ds
  rw [BitVec.xor_zero] at hcs' hds'
  have hzeros : (cs.map fun _ => 0) = ds.map fun _ => 0 := by
    rw [List.map_const', List.map_const', hlen]
  rw [hcs', hds', hzeros] at h
  exact (eq_of_foldl_step (n := 0) (by decide) (by decide) (by omega) hlen hcs hds
    (BitVec.xor_right_inj _ |>.1 h)).2

/-! ## The coefficients of a row of codes -/

/-- The coefficients of a row of codes, in the order in which they are absorbed. -/
def coefficients : List Nat → List Nat
  | x :: y :: z :: rest =>
    x % 32 :: y % 32 :: z % 32 :: (x / 32 * 9 + y / 32 * 3 + z / 32) :: coefficients rest
  | [x, y] => [x % 32, y % 32, x / 32 * 3 + y / 32]
  | [x] => [x % 32, x / 32]
  | [] => []

theorem absorb_eq (r : BitVec 40) (codes : List Nat) :
    absorb r codes = (coefficients codes).foldl step r := by
  fun_induction absorb r codes with
  | case1 r x y z rest ih => rw [ih]; rfl
  | case2 r x y => rfl
  | case3 r x => rfl
  | case4 r => rfl

/-- Whole groups of three have their coefficients to themselves. -/
theorem coefficients_append {xs : List Nat} (h : xs.length % 3 = 0) (ys : List Nat) :
    coefficients (xs ++ ys) = coefficients xs ++ coefficients ys := by
  fun_induction coefficients xs with
  | case1 x y z rest ih =>
    have hrest : rest.length % 3 = 0 := by
      simp only [List.length_cons] at h
      omega
    simp only [List.cons_append, coefficients, ih hrest]
  | case2 x y => simp at h
  | case3 x => simp at h
  | case4 => rfl

theorem length_coefficients_le (xs : List Nat) : 3 * (coefficients xs).length ≤ 4 * xs.length + 2 := by
  fun_induction coefficients xs with
  | case1 x y z rest ih =>
    simp only [List.length_cons]
    omega
  | case2 x y => simp
  | case3 x => simp
  | case4 => simp

/-- The number of coefficients only depends on that of the codes. -/
theorem length_coefficients_congr {xs ys : List Nat} (h : xs.length = ys.length) :
    (coefficients xs).length = (coefficients ys).length := by
  fun_induction coefficients xs generalizing ys with
  | case1 x y z rest ih =>
    obtain ⟨x', y', z', rest', rfl⟩ : ∃ x' y' z' rest', ys = x' :: y' :: z' :: rest' := by
      match ys, h with
      | x' :: y' :: z' :: rest', _ => exact ⟨x', y', z', rest', rfl⟩
    simp only [List.length_cons, Nat.add_right_cancel_iff] at h
    simp only [coefficients, List.length_cons, ih h]
  | case2 x y =>
    match ys, h with
    | [x', y'], _ => rfl
  | case3 x =>
    match ys, h with
    | [x'], _ => rfl
  | case4 => rw [List.eq_nil_of_length_eq_zero h.symm]; rfl

theorem lt_of_mem_coefficients {xs : List Nat} (h : ∀ x ∈ xs, x < 96) :
    ∀ c ∈ coefficients xs, c < 32 := by
  fun_induction coefficients xs with
  | case1 x y z rest ih =>
    simp only [List.forall_mem_cons] at h ⊢
    obtain ⟨hx, hy, hz, hrest⟩ := h
    exact ⟨by omega, by omega, by omega, by omega, ih hrest⟩
  | case2 x y =>
    simp only [List.forall_mem_cons] at h ⊢
    exact ⟨by omega, by omega, by omega, by simp⟩
  | case3 x =>
    simp only [List.forall_mem_cons] at h ⊢
    exact ⟨by omega, by omega, by simp⟩
  | case4 => simp

/-- The coefficients tell the codes. -/
theorem eq_of_coefficients {xs ys : List Nat} (hlen : xs.length = ys.length)
    (hxs : ∀ x ∈ xs, x < 96) (hys : ∀ y ∈ ys, y < 96) (h : coefficients xs = coefficients ys) :
    xs = ys := by
  fun_induction coefficients xs generalizing ys with
  | case1 x y z rest ih =>
    match ys, hlen with
    | x' :: y' :: z' :: rest', hlen =>
      simp only [List.forall_mem_cons] at hxs hys
      simp only [coefficients, List.cons.injEq] at h
      simp only [List.length_cons, Nat.add_right_cancel_iff] at hlen
      obtain ⟨hx, hy, hz, hgroup, hrest⟩ := h
      rw [ih hlen hxs.2.2.2 hys.2.2.2 hrest, show x = x' by omega, show y = y' by omega,
        show z = z' by omega]
  | case2 x y =>
    match ys, hlen with
    | [x', y'], _ =>
      simp only [List.forall_mem_cons] at hxs hys
      simp only [coefficients, List.cons.injEq] at h
      rw [show x = x' by omega, show y = y' by omega]
  | case3 x =>
    match ys, hlen with
    | [x'], _ =>
      simp only [List.forall_mem_cons] at hxs hys
      simp only [coefficients, List.cons.injEq] at h
      rw [show x = x' by omega]
  | case4 => exact (List.eq_nil_of_length_eq_zero hlen.symm).symm

/-! ## Changed stretches -/

theorem remainder_eq (codes : List Nat) : remainder codes =
    (coefficients codes ++ List.replicate 8 0).foldl step 1#40 ^^^ 1#40 := by
  rw [remainder, absorb_eq, List.foldl_append]
  rfl

/-- A change within two groups that follow each other changes the remainder. -/
theorem eq_of_remainder_of_groups {before xs ys after : List Nat} (hbefore : before.length % 3 = 0)
    (hlen : xs.length = ys.length) (hle : xs.length ≤ 6)
    (hwhole : xs.length % 3 = 0 ∨ after = []) (hxs : ∀ x ∈ xs, x < 96) (hys : ∀ y ∈ ys, y < 96)
    (h : remainder (before ++ (xs ++ after)) = remainder (before ++ (ys ++ after))) : xs = ys := by
  have hsplit : ∀ zs : List Nat, zs.length = xs.length →
      coefficients (before ++ (zs ++ after)) =
        coefficients before ++ (coefficients zs ++ coefficients after) := by
    intro zs hzs
    rw [coefficients_append hbefore]
    rcases hwhole with hwhole | rfl
    · rw [coefficients_append (hzs ▸ hwhole)]
    · simp [coefficients]
  rw [remainder_eq, remainder_eq, BitVec.xor_left_inj, hsplit xs rfl, hsplit ys hlen.symm] at h
  simp only [List.foldl_append, ← List.append_assoc] at h
  -- what follows the stretch is absorbed without loss, so the remainders differ there already
  have hstretch := foldl_step_injective (foldl_step_injective h)
  have hroom := length_coefficients_le xs
  refine eq_of_coefficients hlen hxs hys ?_
  exact eq_of_foldl_step_same _ (by omega) (length_coefficients_congr hlen)
    (lt_of_mem_coefficients hxs) (lt_of_mem_coefficients hys) hstretch

/-- **A change of up to four neighbouring codes changes the remainder**, wherever it is and however
long the row: it lies within two groups that follow each other. -/
theorem eq_of_remainder {before xs ys after : List Nat} (hlen : xs.length = ys.length)
    (hle : xs.length ≤ 4) (hrow : ∀ x ∈ before ++ (xs ++ after), x < 96) (hys : ∀ y ∈ ys, y < 96)
    (h : remainder (before ++ (xs ++ after)) = remainder (before ++ (ys ++ after))) : xs = ys := by
  simp only [List.forall_mem_append] at hrow
  obtain ⟨hbefore, hxs, hafter⟩ := hrow
  -- the two groups: what is left of the last group before the change, and enough of what follows
  let start := before.length / 3 * 3
  let more := 6 - (before.drop start).length - xs.length
  have hgroups : ∀ zs : List Nat, before ++ (zs ++ after) =
      before.take start ++ ((before.drop start ++ (zs ++ after.take more)) ++ after.drop more) := by
    intro zs
    simp only [List.append_assoc, List.take_append_drop]
    rw [← List.append_assoc (before.take start), List.take_append_drop]
  rw [hgroups xs, hgroups ys] at h
  have hstart : start ≤ before.length := Nat.div_mul_le_self _ _
  have hrest : (before.drop start).length < 3 := by
    simp only [List.length_drop, start]
    omega
  have hsmall : ∀ zs : List Nat, (∀ z ∈ zs, z < 96) →
      ∀ z ∈ before.drop start ++ (zs ++ after.take more), z < 96 := by
    intro zs hzs z hz
    simp only [List.mem_append] at hz
    rcases hz with hz | hz | hz
    · exact hbefore z (List.mem_of_mem_drop hz)
    · exact hzs z hz
    · exact hafter z (List.mem_of_mem_take hz)
  have heq : before.drop start ++ (xs ++ after.take more) =
      before.drop start ++ (ys ++ after.take more) := by
    refine eq_of_remainder_of_groups ?_ ?_ ?_ ?_ (hsmall xs hxs) (hsmall ys hys) h
    · simp only [List.length_take, Nat.min_eq_left hstart, start]
      omega
    · simp [hlen]
    · simp only [List.length_append, List.length_take, more]
      omega
    · simp only [List.length_append, List.length_take, List.drop_eq_nil_iff, more]
      omega
  simpa using heq

/-! ## The symbols of a checksum -/

/-- The symbols that write a remainder. -/
def symbolsOf (r : BitVec 40) : List Char :=
  (List.range 8).map fun i => symbols.getD (symbolValue r i) 'q'

@[simp] theorem length_symbolsOf (r : BitVec 40) : (symbolsOf r).length = 8 := by
  simp [symbolsOf]

theorem length_symbols : symbols.length = 32 := by decide +kernel

theorem nodup_symbols : symbols.Nodup := by decide +kernel

theorem symbolValue_lt (r : BitVec 40) (i : Nat) : symbolValue r i < symbols.length := by
  rw [length_symbols]
  exact Nat.mod_lt _ (by decide)

theorem mem_symbolsOf {r : BitVec 40} {c : Char} (h : c ∈ symbolsOf r) : c ∈ symbols := by
  obtain ⟨i, _, rfl⟩ := List.mem_map.1 h
  rw [List.getD_eq_getElem _ _ (symbolValue_lt r i)]
  exact List.getElem_mem _

/-- Eight symbols hold the whole remainder. -/
theorem symbolsOf_injective {r s : BitVec 40} (h : symbolsOf r = symbolsOf s) : r = s := by
  have hvalue : ∀ i < 8, symbolValue r i = symbolValue s i := by
    intro i hi
    have hget := List.map_inj_left.1 h i (List.mem_range.2 hi)
    rw [List.getD_eq_getElem _ _ (symbolValue_lt r i),
      List.getD_eq_getElem _ _ (symbolValue_lt s i)] at hget
    exact nodup_symbols.getElem_inj_iff.1 hget
  have hbit : ∀ (t : BitVec 40) (j : Nat), j < 40 →
      t.getLsbD j = (symbolValue t (7 - j / 5)).testBit (j % 5) := by
    intro t j hj
    have hplace : 5 * (7 - (7 - j / 5)) + j % 5 = j := by omega
    rw [symbolValue, BitVec.toNat_ushiftRight, show 32 = 2 ^ 5 from rfl, Nat.testBit_mod_two_pow,
      Nat.testBit_shiftRight, hplace, decide_eq_true (Nat.mod_lt j (by decide)), Bool.true_and]
    rfl
  refine BitVec.eq_of_getLsbD_eq fun j hj => ?_
  rw [hbit r j hj, hbit s j hj, hvalue _ (by omega)]

/-! ## The codes of a row of characters -/

theorem length_alphabet : alphabet.length = 95 := by decide +kernel

theorem lt_of_code? {c : Char} {n : Nat} (h : code? c = some n) : n < 96 := by
  obtain ⟨hn, _⟩ := List.idxOf?_eq_some_iff.1 h
  rw [length_alphabet] at hn
  exact Nat.lt_succ_of_lt hn

theorem code?_injective {c d : Char} {n : Nat} (hc : code? c = some n) (hd : code? d = some n) :
    c = d := by
  obtain ⟨_, hc, _⟩ := List.idxOf?_eq_some_iff.1 hc
  obtain ⟨_, hd, _⟩ := List.idxOf?_eq_some_iff.1 hd
  exact hc.symm.trans hd

theorem codesOnto_eq_ok_iff {acc codes : List Nat} {cs : List Char} :
    codesOnto acc cs = .ok codes ↔
      ∃ ns, cs.map code? = ns.map some ∧ codes = acc.reverse ++ ns := by
  fun_induction codesOnto acc cs with
  | case1 acc =>
    rw [Except.ok.injEq, List.map_nil]
    constructor
    · rintro rfl
      exact ⟨[], rfl, (List.append_nil _).symm⟩
    · rintro ⟨ns, hns, rfl⟩
      rw [List.map_eq_nil_iff.1 hns.symm, List.append_nil]
  | case2 acc c rest n hc ih =>
    rw [ih, List.map_cons, hc, List.reverse_cons]
    simp only [List.append_assoc]
    constructor
    · rintro ⟨ns, hns, rfl⟩
      exact ⟨n :: ns, by rw [hns, List.map_cons], rfl⟩
    · rintro ⟨_ | ⟨m, ns⟩, h, rfl⟩
      · cases h
      · obtain ⟨hm, hns⟩ := List.cons.inj h
        exact ⟨ns, hns, by rw [Option.some.inj hm]; rfl⟩
  | case3 acc c rest hc =>
    constructor
    · nofun
    · rintro ⟨_ | ⟨m, ns⟩, h, _⟩
      · cases h
      · rw [List.map_cons, hc] at h
        cases (List.cons.inj h).1

theorem ofChars_eq_ok_iff {body sum : List Char} :
    ofChars body = .ok sum ↔
      ∃ codes : List Nat, body.map code? = codes.map some ∧ sum = symbolsOf (remainder codes) := by
  unfold ofChars
  rw [bind_eq_ok_iff]
  simp only [codesOnto_eq_ok_iff, List.reverse_nil, List.nil_append, pure_eq_ok_iff]
  constructor
  · rintro ⟨_, ⟨codes, hcodes, rfl⟩, rfl⟩
    exact ⟨_, hcodes, rfl⟩
  · rintro ⟨codes, hcodes, rfl⟩
    exact ⟨codes, ⟨codes, hcodes, rfl⟩, rfl⟩

/-- A checksum is a row of eight symbols. -/
theorem length_and_mem_of_ofChars {body sum : List Char} (h : ofChars body = .ok sum) :
    sum.length = 8 ∧ ∀ c ∈ sum, c ∈ symbols := by
  obtain ⟨codes, _, rfl⟩ := ofChars_eq_ok_iff.1 h
  exact ⟨length_symbolsOf _, fun c hc => mem_symbolsOf hc⟩

theorem lt_of_codes {cs : List Char} {codes : List Nat} (h : cs.map code? = codes.map some) :
    ∀ n ∈ codes, n < 96 := by
  intro n hn
  have hmem : some n ∈ cs.map code? := h ▸ List.mem_map_of_mem hn
  obtain ⟨c, _, hc⟩ := List.mem_map.1 hmem
  exact lt_of_code? hc

theorem eq_of_codes {cs ds : List Char} {codes : List Nat} (hcs : cs.map code? = codes.map some)
    (hds : ds.map code? = codes.map some) : cs = ds := by
  induction cs generalizing ds codes with
  | nil =>
    rw [List.map_eq_nil_iff.1 hcs.symm] at hds
    exact (List.map_eq_nil_iff.1 hds).symm
  | cons c cs ih =>
    cases codes with
    | nil => cases List.map_eq_nil_iff.1 hcs
    | cons n codes =>
      cases ds with
      | nil => cases List.map_eq_nil_iff.1 hds.symm
      | cons d ds =>
        obtain ⟨hc, hcs⟩ := List.cons.inj hcs
        obtain ⟨hd, hds⟩ := List.cons.inj hds
        rw [code?_injective hc hd, ih hcs hds]

/-- **No change of up to four neighbouring characters keeps the checksum.** -/
theorem eq_of_ofChars {before xs ys after sum : List Char} (hlen : xs.length = ys.length)
    (hle : xs.length ≤ 4) (hx : ofChars (before ++ (xs ++ after)) = .ok sum)
    (hy : ofChars (before ++ (ys ++ after)) = .ok sum) : xs = ys := by
  obtain ⟨codes, hcodes, rfl⟩ := ofChars_eq_ok_iff.1 hx
  obtain ⟨codes', hcodes', hsum⟩ := ofChars_eq_ok_iff.1 hy
  have hbound := lt_of_codes hcodes
  have hbound' := lt_of_codes hcodes'
  simp only [List.map_append] at hcodes hcodes'
  obtain ⟨ns, rest, rfl, hns, hrest⟩ := List.map_eq_append_iff.1 hcodes.symm
  obtain ⟨ms, ks, rfl, hms, hks⟩ := List.map_eq_append_iff.1 hrest
  obtain ⟨ns', rest', rfl, hns', hrest'⟩ := List.map_eq_append_iff.1 hcodes'.symm
  obtain ⟨ms', ks', rfl, hms', hks'⟩ := List.map_eq_append_iff.1 hrest'
  have hsome : Function.Injective (List.map (some : Nat → Option Nat)) :=
    List.map_injective_iff.2 (Option.some_injective Nat)
  obtain rfl := hsome (hns.trans hns'.symm)
  obtain rfl := hsome (hks.trans hks'.symm)
  have hlength : ∀ {cs : List Char} {zs : List Nat}, zs.map some = cs.map code? →
      zs.length = cs.length := fun h => by simpa using congrArg List.length h
  have hmid := hlength hms
  have hmid' := hlength hms'
  simp only [List.forall_mem_append] at hbound'
  obtain rfl := eq_of_remainder (by omega) (by omega) hbound hbound'.2.1 (symbolsOf_injective hsum)
  exact eq_of_codes hms.symm hms'.symm

end SignetFederation.Descriptor.Checksum
