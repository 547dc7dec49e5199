import SignetFederation.Chain.Script
import SignetFederation.Proofs.Wire.Numbers

/-!
# Scripts read back

Writing a row of instructions and reading it gives the row, as long as no push is too long and no
operation has the code of a push (`instructions?_ofInstructions`). Instructions that were read are
of that kind whatever form their pushes had (`canonical_of_instructions?`), so writing a script anew
never changes what it says.
-/

namespace SignetFederation.Script

/-- An instruction that is read as it is written. -/
def Canonical : Instruction → Prop
  | .push data => data.length < pushLimit
  | .op code => 0x4e < code

/-! ## One instruction -/

theorem readPush_append {k : Nat} {data : Bytes} (h : data.length < 256 ^ k) (rest : Bytes) :
    readPush k (Bytes.le k data.length ++ (data ++ rest)) = some (data, rest) := by
  have hcut := Bytes.cut_append (Bytes.le k data.length) (data ++ rest)
  rw [Bytes.length_le] at hcut
  unfold readPush
  rw [hcut]
  simp only [Bytes.ofLE_le k _ h]
  exact Bytes.cut_append data rest

theorem readFirst_op {code : UInt8} (h : 0x4e < code) (rest : Bytes) :
    readFirst code rest = some (.op code, rest) := by
  have hc : 0x4e < code.toNat := h
  have hne : ∀ d : UInt8, d.toNat ≤ 0x4e → code ≠ d := by
    rintro d hd rfl
    omega
  have hlt : ¬ code < 0x4c := fun hlt => by
    have : code.toNat < 0x4c := hlt
    omega
  simp [readFirst, hlt, hne 0x4c (by decide), hne 0x4d (by decide), hne 0x4e (by decide)]

/-- A push is read back in each of its four forms. -/
theorem readFirst_push {data : Bytes} (h : data.length < pushLimit) :
    ∃ code tail, push data = code :: tail ∧
      ∀ rest, readFirst code (tail ++ rest) = some (.push data, rest) := by
  unfold push
  simp only
  by_cases h1 : data.length < 76
  · refine ⟨UInt8.ofNat data.length, data, by simp [h1], fun rest => ?_⟩
    have hn : (UInt8.ofNat data.length).toNat = data.length := by
      rw [UInt8.toNat_ofNat']
      omega
    have hlt : UInt8.ofNat data.length < 0x4c := by
      rw [UInt8.lt_iff_toNat_lt, hn]
      exact h1
    simp [readFirst, hlt, hn, Bytes.cut_append]
  by_cases h2 : data.length < 0x100
  · refine ⟨0x4c, Bytes.le 1 data.length ++ data, by simp [h1, h2, Bytes.le], fun rest => ?_⟩
    rw [List.append_assoc]
    simp [readFirst, readPush_append (k := 1) h2 rest]
  by_cases h3 : data.length < 0x10000
  · refine ⟨0x4d, Bytes.le 2 data.length ++ data, by simp [h1, h2, h3], fun rest => ?_⟩
    rw [List.append_assoc]
    simp [readFirst, readPush_append (k := 2) h3 rest]
  · refine ⟨0x4e, Bytes.le 4 data.length ++ data, by simp [h1, h2, h3], fun rest => ?_⟩
    rw [List.append_assoc]
    simp [readFirst, readPush_append (k := 4) h rest]

/-- The first byte of a written instruction tells how to read the others. -/
theorem readFirst_write {i : Instruction} (h : Canonical i) :
    ∃ code tail, write i = code :: tail ∧ ∀ rest, readFirst code (tail ++ rest) = some (i, rest) := by
  cases i with
  | push data => exact readFirst_push h
  | op code => exact ⟨code, [], rfl, fun rest => readFirst_op h rest⟩

theorem length_of_cut {n : Nat} {b front rest : Bytes} (h : Bytes.cut n b = some (front, rest)) :
    front.length = n := (Bytes.eq_append_of_cut h).2

theorem length_of_readPush {k : Nat} {b data rest : Bytes} (h : readPush k b = some (data, rest)) :
    data.length < 256 ^ k := by
  unfold readPush at h
  split at h
  · next n rest' hcut =>
    rw [length_of_cut h, ← length_of_cut hcut]
    exact Bytes.ofLE_lt n
  · cases h

/-- What is read is read again as it is written. -/
theorem canonical_of_readFirst {code : UInt8} {b rest : Bytes} {i : Instruction}
    (h : readFirst code b = some (i, rest)) : Canonical i := by
  unfold readFirst at h
  simp only at h
  split at h
  · next hlt =>
    obtain ⟨⟨data, rest'⟩, hcut, heq⟩ := Option.map_eq_some_iff.1 h
    cases heq
    have hc : code.toNat < 0x4c := hlt
    have := length_of_cut hcut
    change data.length < pushLimit
    unfold pushLimit
    omega
  · next hlt =>
    have hpush : ∀ k, k ≤ 4 → (readPush k b).map (fun p => (Instruction.push p.1, p.2)) =
        some (i, rest) → Canonical i := by
      intro k hk h
      obtain ⟨⟨data, rest'⟩, hread, heq⟩ := Option.map_eq_some_iff.1 h
      cases heq
      exact Nat.lt_of_lt_of_le (length_of_readPush hread) (Nat.pow_le_pow_right (by decide) hk)
    split at h
    · exact hpush 1 (by decide) h
    · next h1 =>
      split at h
      · exact hpush 2 (by decide) h
      · next h2 =>
        split at h
        · exact hpush 4 (by decide) h
        · next h3 =>
          cases h
          simp only [UInt8.lt_iff_toNat_lt, ← UInt8.toNat_inj] at hlt h1 h2 h3
          change 0x4e < code.toNat
          simp at hlt h1 h2 h3
          omega

/-! ## Whole scripts -/

theorem readOnto_ofInstructions {is : List Instruction} (h : ∀ i ∈ is, Canonical i) {fuel : Nat}
    (hfuel : (ofInstructions is).length ≤ fuel) (acc : List Instruction) :
    readOnto fuel acc (ofInstructions is) = some (acc.reverse ++ is) := by
  induction is generalizing fuel acc with
  | nil => cases fuel <;> simp [ofInstructions, readOnto]
  | cons i is ih =>
    obtain ⟨hi, his⟩ := List.forall_mem_cons.1 h
    obtain ⟨code, tail, hwrite, hread⟩ := readFirst_write hi
    have hcons : ofInstructions (i :: is) = code :: (tail ++ ofInstructions is) := by
      rw [ofInstructions, List.flatMap_cons, hwrite]
      rfl
    rw [hcons] at hfuel ⊢
    obtain _ | fuel := fuel
    · cases hfuel
    · have hle : (ofInstructions is).length ≤ fuel := by
        simp only [List.length_cons, List.length_append] at hfuel
        omega
      simp only [readOnto, hread, ih his hle, List.reverse_cons, List.append_assoc,
        List.singleton_append]

/-- **Scripts read back**: writing instructions and reading them gives the same instructions. -/
theorem instructions?_ofInstructions {is : List Instruction} (h : ∀ i ∈ is, Canonical i) :
    instructions? (ofInstructions is) = some is := readOnto_ofInstructions h (Nat.le_refl _) []

theorem canonical_of_readOnto {fuel : Nat} {acc is : List Instruction} {b : Bytes}
    (h : readOnto fuel acc b = some is) (hacc : ∀ i ∈ acc, Canonical i) : ∀ i ∈ is, Canonical i := by
  fun_induction readOnto fuel acc b with
  | case1 _ acc =>
    cases h
    exact fun i hi => hacc i (List.mem_reverse.1 hi)
  | case2 => cases h
  | case3 acc fuel code rest i rest' hread ih =>
    exact ih h (List.forall_mem_cons.2 ⟨canonical_of_readFirst hread, hacc⟩)
  | case4 => cases h

/-- The instructions that were read first come first. -/
theorem prefix_of_readOnto {fuel : Nat} {acc is : List Instruction} {b : Bytes}
    (h : readOnto fuel acc b = some is) : ∃ more, is = acc.reverse ++ more := by
  fun_induction readOnto fuel acc b with
  | case1 _ acc =>
    cases h
    exact ⟨[], (List.append_nil _).symm⟩
  | case2 => cases h
  | case3 acc fuel code rest i rest' hread ih =>
    obtain ⟨more, rfl⟩ := ih h
    exact ⟨i :: more, by simp⟩
  | case4 => cases h

theorem canonical_of_instructions? {s : Script} {is : List Instruction}
    (h : instructions? s = some is) : ∀ i ∈ is, Canonical i := canonical_of_readOnto h nofun

end SignetFederation.Script
