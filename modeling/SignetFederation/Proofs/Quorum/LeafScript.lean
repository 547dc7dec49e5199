import SignetFederation.Proofs.Script.Tapscript
import SignetFederation.Quorum.Basic

/-!
# What the leaf script of a quorum checks

The leaf script read as instructions (`instructions?_multisigScript`), and its run: every key takes
one item from the stack and adds one to a count if the item is a signature. At most two items more
than those still to be checked are on the stack at any time, so the limit is kept. The end of the
run depends only on whether all items may stand for their keys and on how many are not empty
(`eval_multisigScript`).
-/

namespace SignetFederation.Quorum

open Tapscript

/-! ## The instructions of the leaf -/

/-- The instructions for one key: push it and check the item below. -/
def keyInstructions (code : UInt8) (key : XOnlyKey) : List Instruction :=
  [.push key.bytes.toBytes, .op code]

/-- The instructions that compare the count with a threshold. -/
def thresholdInstructions (threshold : Nat) : List Instruction :=
  [pushNumber threshold, .op Script.opNumEqual]

/-- The instructions of the leaf script. -/
def leafInstructions (keys : List XOnlyKey) (threshold : Nat) : List Instruction :=
  (match keys with
    | [] => []
    | first :: rest =>
      keyInstructions Script.opCheckSig first ++
        rest.flatMap (keyInstructions Script.opCheckSigAdd)) ++
    thresholdInstructions threshold

theorem ofInstructions_append (is js : List Instruction) :
    Script.ofInstructions (is ++ js) = Script.ofInstructions is ++ Script.ofInstructions js :=
  List.flatMap_append

theorem ofInstructions_leafInstructions (keys : List XOnlyKey) (threshold : Nat) :
    Script.ofInstructions (leafInstructions keys threshold) = multisigScript keys threshold := by
  have hkey : ∀ code key, Script.ofInstructions (keyInstructions code key) =
      Script.push key.bytes.toBytes ++ [code] := fun code key => by
    simp [Script.ofInstructions, keyInstructions, Script.write]
  have hrest : ∀ rest, Script.ofInstructions
      (rest.flatMap (keyInstructions Script.opCheckSigAdd)) = furtherKeys rest := by
    intro rest
    unfold Script.ofInstructions furtherKeys
    rw [List.flatMap_assoc]
    exact congrArg rest.flatMap (funext (hkey Script.opCheckSigAdd))
  have hend : Script.ofInstructions (thresholdInstructions threshold) =
      Script.pushNat threshold ++ [Script.opNumEqual] := by
    simp [Script.ofInstructions, thresholdInstructions, write_pushNumber]
    rfl
  unfold leafInstructions multisigScript
  rw [ofInstructions_append, hend, List.append_assoc]
  congr 1
  cases keys with
  | nil => rfl
  | cons first rest =>
    simp only
    rw [ofInstructions_append, hkey, hrest, List.append_assoc]
    rfl

theorem canonical_keyInstructions {code : UInt8} (h : 0x4e < code) (key : XOnlyKey) :
    ∀ i ∈ keyInstructions code key, Script.Canonical i := by
  intro i hi
  simp only [keyInstructions, List.mem_cons, List.not_mem_nil, or_false] at hi
  rcases hi with rfl | rfl
  · change key.bytes.toBytes.length < Script.pushLimit
    rw [key.bytes.length_eq]
    decide
  · exact h

/-- Reading the leaf script gives its instructions. -/
theorem instructions?_multisigScript {keys : List XOnlyKey} {threshold : Nat}
    (h : threshold < 2 ^ 31) :
    Script.instructions? (multisigScript keys threshold) = some (leafInstructions keys threshold) := by
  rw [← ofInstructions_leafInstructions]
  refine Script.instructions?_ofInstructions fun i hi => ?_
  rcases List.mem_append.1 hi with hi | hi
  · cases keys with
    | nil => cases hi
    | cons first rest =>
      rcases List.mem_append.1 hi with hi | hi
      · exact canonical_keyInstructions (by decide) first i hi
      · obtain ⟨key, _, hi⟩ := List.mem_flatMap.1 hi
        exact canonical_keyInstructions (by decide) key i hi
  · simp only [thresholdInstructions, List.mem_cons, List.not_mem_nil, or_false] at hi
    rcases hi with rfl | rfl
    · exact canonical_pushNumber h
    · change 0x4e < Script.opNumEqual
      decide

/-! ## Its run -/

section Run

variable (verifies : (key item : Bytes) → Bool)

/-- Whether an item may stand for a key: it is empty or a signature by the key. -/
def counts (key : XOnlyKey) (item : Bytes) : Bool := item.isEmpty || verifies key.bytes.toBytes item

/-- Whether every item may stand for its key. -/
def allCount (keys : List XOnlyKey) (items : List Bytes) : Bool :=
  (keys.zip items).all fun e => counts verifies e.1 e.2

theorem allCount_cons (key : XOnlyKey) (keys : List XOnlyKey) (item : Bytes) (items : List Bytes) :
    allCount verifies (key :: keys) (item :: items) =
      (counts verifies key item && allCount verifies keys items) := rfl

theorem allCount_iff {keys : List XOnlyKey} {items : List Bytes} :
    allCount verifies keys items = true ↔
      ∀ (i : Nat) (key : XOnlyKey) (item : Bytes), keys[i]? = some key → items[i]? = some item →
        counts verifies key item = true := by
  unfold allCount
  rw [List.all_eq_true]
  constructor
  · intro h i key item hkey hitem
    have hzip : (keys.zip items)[i]? = some (key, item) :=
      List.getElem?_zip_eq_some.2 ⟨hkey, hitem⟩
    exact h (key, item) (List.mem_of_getElem? hzip)
  · rintro h ⟨key, item⟩ hmem
    obtain ⟨i, hi⟩ := List.mem_iff_getElem?.1 hmem
    obtain ⟨hkey, hitem⟩ := List.getElem?_zip_eq_some.1 hi
    exact h i key item hkey hitem

/-- The items of a stack, the one at the bottom first, belong to the keys in reverse. -/
theorem allCount_reverse_iff {keys : List XOnlyKey} {items : List Bytes}
    (h : items.length = keys.length) : allCount verifies keys items.reverse = true ↔
      ∀ (i : Nat) (key : XOnlyKey), keys[i]? = some key →
        ∃ item, items[keys.length - 1 - i]? = some item ∧
          (item = [] ∨ verifies key.bytes.toBytes item = true) := by
  have hindex : ∀ {i : Nat} {key : XOnlyKey}, keys[i]? = some key →
      items.reverse[i]? = items[keys.length - 1 - i]? := by
    intro i key hkey
    have hi := (List.getElem?_eq_some_iff.1 hkey).1
    rw [List.getElem?_reverse (by omega), h]
  rw [allCount_iff]
  constructor
  · intro hall i key hkey
    have hi := (List.getElem?_eq_some_iff.1 hkey).1
    have hlt : keys.length - 1 - i < items.length := by omega
    have hitem := List.getElem?_eq_getElem hlt
    refine ⟨_, hitem, ?_⟩
    have hcounts := hall i key _ hkey ((hindex hkey).trans hitem)
    rwa [counts, Bool.or_eq_true, List.isEmpty_iff] at hcounts
  · intro hall i key item hkey hitem
    obtain ⟨item', hitem', hcounts⟩ := hall i key hkey
    cases ((hindex hkey).symm.trans hitem).symm.trans hitem'
    rwa [counts, Bool.or_eq_true, List.isEmpty_iff]

/-- The number of items that are not empty. -/
def given (items : List Bytes) : Nat := items.countP fun item => !item.isEmpty

theorem given_cons (item : Bytes) (items : List Bytes) :
    given (item :: items) = (!item.isEmpty).toNat + given items := by
  unfold given
  cases item with
  | nil => simp
  | cons => simp [Nat.add_comm]

theorem given_reverse (items : List Bytes) : given items.reverse = given items :=
  List.countP_reverse

theorem given_le_length (items : List Bytes) : given items ≤ items.length := List.countP_le_length

/-- Checking an item under a key of a quorum. -/
theorem checkSignature_key (key : XOnlyKey) (item : Bytes) :
    checkSignature verifies key.bytes.toBytes item =
      if counts verifies key item then .ok (!item.isEmpty) else .error .signature := by
  have hlen := key.bytes.length_eq
  have hne : key.bytes.toBytes ≠ [] := fun h => by
    rw [h] at hlen
    cases hlen
  unfold checkSignature counts
  cases item with
  | nil => simp [hne]
  | cons => cases verifies key.bytes.toBytes _ <;> simp [hne, hlen]

/-- The first key leaves the count of its item. -/
theorem run_firstKey {key : XOnlyKey} {item : Bytes} {items : List Bytes} {is : List Instruction}
    (hlimit : items.length + 2 ≤ stackLimit) :
    run verifies (keyInstructions Script.opCheckSig key ++ is) (item :: items) =
      if counts verifies key item then
        run verifies is (encode (!item.isEmpty).toNat :: items)
      else .error .signature := by
  unfold keyInstructions
  rw [List.cons_append, run_cons verifies (by simp; omega)]
  simp only [step]
  rw [List.cons_append, run_cons verifies (by simp; omega)]
  simp only [step, if_true, checkSignature_key]
  by_cases hc : counts verifies key item = true
  · simp only [if_pos hc, List.nil_append]
  · simp only [if_neg hc]

/-- A further key adds the count of its item. -/
theorem run_furtherKey {key : XOnlyKey} {c : Nat} {item : Bytes} {items : List Bytes}
    {is : List Instruction} (hc : c < 2 ^ 31) (hlimit : items.length + 3 ≤ stackLimit) :
    run verifies (keyInstructions Script.opCheckSigAdd key ++ is) (encode c :: item :: items) =
      if counts verifies key item then
        run verifies is (encode (c + (!item.isEmpty).toNat : Nat) :: items)
      else .error .signature := by
  unfold keyInstructions
  rw [List.cons_append, run_cons verifies (by simp; omega)]
  simp only [step]
  rw [List.cons_append, run_cons verifies (by simp; omega)]
  have hop : Script.opCheckSigAdd ≠ Script.opCheckSig := by decide
  simp only [step, if_neg hop, if_true, number?_encode (n := c) (by omega), checkSignature_key]
  by_cases hc : counts verifies key item = true
  · simp only [if_pos hc, List.nil_append, Int.natCast_add]
  · simp only [if_neg hc]

/-- The further keys take the items one by one; the count is that of those before. -/
theorem run_furtherKeys {keys : List XOnlyKey} {items : List Bytes} {c : Nat}
    {is : List Instruction} (hlen : items.length = keys.length) (hc : c + keys.length < 2 ^ 31)
    (hlimit : items.length + 2 ≤ stackLimit) :
    run verifies (keys.flatMap (keyInstructions Script.opCheckSigAdd) ++ is) (encode c :: items) =
      if allCount verifies keys items then
        run verifies is [encode (c + given items : Nat)]
      else .error .signature := by
  -- every key replaces count and item by the new count, so `c` grows along the induction
  induction keys generalizing items c with
  | nil =>
    rw [List.length_eq_zero_iff.1 hlen]
    simp [allCount, given]
  | cons key keys ih =>
    cases items with
    | nil => cases hlen
    | cons item items =>
      simp only [List.length_cons] at hlen hc hlimit
      rw [List.flatMap_cons, List.append_assoc, run_furtherKey verifies (by omega) (by omega)]
      have hle : (!item.isEmpty).toNat ≤ 1 := Bool.toNat_le _
      rw [allCount_cons, given_cons]
      by_cases hcount : counts verifies key item = true
      · rw [if_pos hcount, ih (by omega) (by omega) (by omega), hcount, Bool.true_and, Nat.add_assoc]
      · rw [if_neg hcount, Bool.eq_false_iff.2 hcount, Bool.false_and, if_neg Bool.false_ne_true]

theorem run_threshold {threshold c : Nat} (ht : threshold < 2 ^ 31) (hc : c < 2 ^ 31) :
    run verifies (thresholdInstructions threshold) [encode c] =
      .ok [if c = threshold then [1] else []] := by
  obtain ⟨item, hstep, hitem⟩ := step_pushNumber verifies ht [encode c]
  unfold thresholdInstructions
  rw [run_cons verifies (by simp [stackLimit]), hstep]
  simp only
  rw [run_cons verifies (by simp [stackLimit])]
  have hop : Script.opNumEqual ≠ Script.opCheckSig := by decide
  have hop' : Script.opNumEqual ≠ Script.opCheckSigAdd := by decide
  simp only [step, if_neg hop, if_neg hop', if_true, number?_encode (n := c) (by omega), hitem,
    Int.ofNat_inj]
  rw [run, if_neg (by simp [stackLimit])]

/-- **The end of the leaf script**: with one item for each key, the last key's at the bottom, it
ends for a wrong signature, or leaves whether as many items as the threshold says are not empty. -/
theorem eval_multisigScript {keys : List XOnlyKey} {threshold : Nat} {items : List Bytes}
    (hkeys : 0 < keys.length) (hmax : keys.length ≤ maxSigners) (ht : threshold < 2 ^ 31)
    (hlen : items.length = keys.length) :
    eval verifies (multisigScript keys threshold) items =
      if allCount verifies keys items.reverse then
        .ok [if given items = threshold then [1] else []]
      else .error .signature := by
  rw [← given_reverse]
  rw [← List.length_reverse] at hlen
  unfold eval
  rw [instructions?_multisigScript ht]
  simp only
  generalize items.reverse = stack at hlen ⊢
  unfold maxSigners at hmax
  match keys, stack with
  | [], _ => cases hkeys
  | _ :: _, [] => cases hlen
  | first :: rest, item :: stack =>
    simp only [List.length_cons] at hlen hmax
    have hlimit : stack.length + 2 ≤ stackLimit := by
      unfold stackLimit
      omega
    have hle : (!item.isEmpty).toNat ≤ 1 := Bool.toNat_le _
    have hcount := given_le_length stack
    unfold leafInstructions
    simp only [List.append_assoc]
    rw [run_firstKey verifies hlimit, run_furtherKeys verifies (by omega) (by omega) hlimit,
      run_threshold verifies ht (by omega), allCount_cons, given_cons]
    by_cases hfirst : counts verifies first item = true
    · rw [if_pos hfirst, hfirst, Bool.true_and]
    · rw [if_neg hfirst, Bool.eq_false_iff.2 hfirst, Bool.false_and, if_neg Bool.false_ne_true]

/-- What the leaf script of a quorum does with one item for each key. -/
theorem eval_script (q : Quorum) {items : List Bytes}
    (h : items.length = q.signers.length) :
    eval verifies q.script items =
      if allCount verifies q.signers items.reverse then
        .ok [if given items = q.threshold then [1] else []]
      else .error .signature := by
  have hmax := q.signers_le
  rw [q.script_eq]
  refine eval_multisigScript verifies (Nat.lt_of_lt_of_le q.threshold_pos q.threshold_le) hmax ?_ h
  exact Nat.lt_of_le_of_lt (Nat.le_trans q.threshold_le hmax) (by decide)

theorem succeeds_script_iff (q : Quorum)
    {items : List Bytes} (h : items.length = q.signers.length) :
    Tapscript.succeeds verifies q.script items = true ↔
      given items = q.threshold ∧ allCount verifies q.signers items.reverse = true := by
  unfold Tapscript.succeeds
  rw [eval_script verifies q h]
  by_cases hall : allCount verifies q.signers items.reverse = true
  · rw [if_pos hall]
    by_cases hgiven : given items = q.threshold
    · simp [hgiven, hall, truthy]
    · simp [hgiven, truthy]
  · simp [hall]

end Run

end SignetFederation.Quorum
