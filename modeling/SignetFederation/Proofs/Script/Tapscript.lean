import SignetFederation.Proofs.Script.Reading

/-!
# What a leaf script means

The rules of BIP342 for the instructions that leaf scripts consist of. An empty signature counts as
none, one that verifies counts as one, and any other ends the script; numbers have a sign bit and at
most four bytes; neither the items that a script starts with nor those after any of its steps may be
more than a thousand. Which signatures verify under which keys is a parameter.

Main statements: `number?_encode` and `number?_numberBytes` (numbers that are written are read back)
and `step_pushNumber`.
-/

namespace SignetFederation.Tapscript

/-- Why a script ends before its last instruction. -/
inductive Abort where
  | unreadable
  | stackLimit
  | missingItem
  | number
  | publicKey
  | signature
  | operation (code : UInt8)
  deriving DecidableEq

/-- The items of a stack, the top one first. -/
abbrev Stack := List Bytes

/-- A stack never holds more items. -/
def stackLimit : Nat := 1000

/-! ## Numbers and truth -/

/-- The number that an item stands for: its bytes least significant first, with the sign in the
highest bit. -/
def number? (item : Bytes) : Option Int :=
  if 4 < item.length then none
  else if item = [] then some 0
  else
    let half := 2 ^ (8 * item.length - 1)
    let n := Bytes.ofLE item
    some (if n < half then n else -((n : Int) - half))

/-- The number of bytes of a number that is not zero: they have a bit left for the sign. -/
def width (n : Int) : Nat := (n.natAbs.log2 + 1) / 8 + 1

/-- The shortest item that stands for a number. -/
def encode (n : Int) : Bytes :=
  if n = 0 then []
  else Bytes.le (width n) (n.natAbs + if n < 0 then 2 ^ (8 * width n - 1) else 0)

/-- Whether an item counts as true: some byte of it is not zero, and not only the sign bit is
set. -/
def truthy : Bytes → Bool
  | [] => false
  | [last] => last != 0 && last != 0x80
  | byte :: rest => byte != 0 || truthy rest

/-! ## Execution -/

section Execution

variable (verifies : (key item : Bytes) → Bool)

/-- Whether an item counts as a signature: an empty one does not, and one that is wrong ends the
script. A key of unknown length accepts everything. -/
def checkSignature (key item : Bytes) : Except Abort Bool :=
  if key = [] then .error .publicKey
  else if item = [] then .ok false
  else if key.length ≠ 32 then .ok true
  else if verifies key item then .ok true
  else .error .signature

/-- The stack after one instruction. -/
def step : Instruction → Stack → Except Abort Stack
  | .push data, stack => .ok (data :: stack)
  | .op code, stack =>
    if code = Script.opCheckSig then
      match stack with
      | key :: item :: rest =>
        match checkSignature verifies key item with
        | .ok valid => .ok (encode valid.toNat :: rest)
        | .error why => .error why
      | _ => .error .missingItem
    else if code = Script.opCheckSigAdd then
      match stack with
      | key :: count :: item :: rest =>
        match number? count with
        | none => .error .number
        | some n =>
          match checkSignature verifies key item with
          | .ok valid => .ok (encode (n + valid.toNat) :: rest)
          | .error why => .error why
      | _ => .error .missingItem
    else if code = Script.opNumEqual then
      match stack with
      | b :: a :: rest =>
        match number? a, number? b with
        | some m, some n => .ok ((if m = n then [1] else []) :: rest)
        | _, _ => .error .number
      | _ => .error .missingItem
    else if 0x51 ≤ code ∧ code ≤ 0x60 then .ok (encode (code.toNat - 0x50) :: stack)
    else .error (.operation code)

/-- The stack after a row of instructions. -/
def run : List Instruction → Stack → Except Abort Stack
  | [], stack => if stackLimit < stack.length then .error .stackLimit else .ok stack
  | i :: is, stack =>
    if stackLimit < stack.length then .error .stackLimit
    else
      match step verifies i stack with
      | .ok stack => run is stack
      | .error why => .error why

/-- The stack after a script that starts with some items, the one at the bottom first. -/
def eval (script : Script) (items : List Bytes) : Except Abort Stack :=
  match script.instructions? with
  | some is => run verifies is items.reverse
  | none => .error .unreadable

/-- Whether a script succeeds: one item is left, and it counts as true. -/
def succeeds (script : Script) (items : List Bytes) : Bool :=
  match eval verifies script items with
  | .ok [item] => truthy item
  | _ => false

end Execution

/-! ## Numbers read back -/

/-- The number of an item of `w` bytes; `half` is its sign bit. -/
theorem number?_le {w n half : Nat} (hpos : 0 < w) (hw : w ≤ 4) (hhalf : half = 2 ^ (8 * w - 1))
    (h : n < 2 * half) :
    number? (Bytes.le w n) = some (if n < half then (n : Int) else -((n : Int) - half)) := by
  have hbytes : 256 ^ w = 2 * half := by
    rw [hhalf, ← Nat.pow_succ', show 256 = 2 ^ 8 from rfl, ← Nat.pow_mul]
    congr 1
    omega
  have hne : Bytes.le w n ≠ [] := fun hnil => by
    have := congrArg List.length hnil
    rw [Bytes.length_le, List.length_nil] at this
    omega
  simp only [number?, Bytes.length_le, if_neg (Nat.not_lt.2 hw), if_neg hne,
    Bytes.ofLE_le w n (hbytes ▸ h), ← hhalf]

theorem width_pos (n : Int) : 0 < width n := Nat.succ_pos _

theorem width_le {n : Int} (h0 : n ≠ 0) (h : n.natAbs < 2 ^ 31) : width n ≤ 4 := by
  have : n.natAbs.log2 < 31 := (Nat.log2_lt (Int.natAbs_ne_zero.2 h0)).2 h
  unfold width
  omega

theorem natAbs_lt_width (n : Int) : n.natAbs < 2 ^ (8 * width n - 1) := by
  refine Nat.lt_of_lt_of_le Nat.lt_log2_self (Nat.pow_le_pow_right (by decide) ?_)
  unfold width
  omega

/-- Numbers of up to four bytes are read back. -/
theorem number?_encode {n : Int} (h : n.natAbs < 2 ^ 31) : number? (encode n) = some n := by
  by_cases h0 : n = 0
  · simp [h0, encode, number?]
  · have hlt := natAbs_lt_width n
    have hread := fun m => number?_le (n := m) (width_pos n) (width_le h0 h) rfl
    unfold encode
    rw [if_neg h0]
    generalize 2 ^ (8 * width n - 1) = half at hlt hread ⊢
    by_cases hneg : n < 0
    · rw [if_pos hneg, hread _ (by omega), if_neg (by omega)]
      congr 1
      omega
    · rw [if_neg hneg, hread _ (by omega), if_pos (by omega)]
      congr 1
      omega

/-- The bytes of a natural number in a script are as many as it needs with a sign bit. -/
theorem ofLE_numberBytes {fuel k n : Nat} (hk : k < fuel) (h : n < 128 * 256 ^ k) :
    Bytes.ofLE (Script.numberBytes fuel n) = n ∧ (Script.numberBytes fuel n).length ≤ k + 1 ∧
      (0 < n → n < 2 ^ (8 * (Script.numberBytes fuel n).length - 1)) := by
  induction fuel generalizing k n with
  | zero => cases hk
  | succ fuel ih =>
    unfold Script.numberBytes
    by_cases h0 : n = 0
    · simp [h0, Bytes.ofLE]
    by_cases h1 : n < 128
    · have hn : n % 256 = n := by omega
      simp [h0, h1, Bytes.ofLE, hn]
    obtain _ | k := k
    · omega
    by_cases h2 : n < 256
    · have hn : n % 256 = n := by omega
      simp [h0, h1, h2, Bytes.ofLE, hn]
      omega
    · have hrest : n / 256 < 128 * 256 ^ k := by
        rw [Nat.pow_succ] at h
        omega
      obtain ⟨hvalue, hlength, hlt⟩ := ih (Nat.lt_of_succ_lt_succ hk) hrest
      have hpos : 0 < n / 256 := by omega
      specialize hlt hpos
      rw [if_neg h0, if_neg h1, if_neg h2]
      generalize Script.numberBytes fuel (n / 256) = bytes at hvalue hlength hlt ⊢
      have hbytes : 0 < bytes.length := by
        cases bytes with
        | nil => simp at hlt; omega
        | cons => exact Nat.succ_pos _
      refine ⟨?_, Nat.succ_le_succ hlength, fun _ => ?_⟩
      · rw [Bytes.ofLE, hvalue, UInt8.toNat_ofNat']
        omega
      · have hpow : 2 ^ (8 * (bytes.length + 1) - 1) = 256 * 2 ^ (8 * bytes.length - 1) := by
          rw [show 256 = 2 ^ 8 from rfl, ← Nat.pow_add]
          congr 1
          omega
        rw [List.length_cons, hpow]
        omega

/-- Numbers in scripts are read as what they are. -/
theorem number?_numberBytes {n : Nat} (h : n < 2 ^ 31) :
    number? (Script.numberBytes 9 n) = some (n : Int) := by
  obtain ⟨hvalue, hlength, hlt⟩ := ofLE_numberBytes (by decide : 3 < 9) h
  unfold number?
  rw [if_neg (Nat.not_lt.2 hlength)]
  split
  · next hnil =>
    rw [hnil, Bytes.ofLE] at hvalue
    simp [← hvalue]
  · next hne =>
    have hpos : 0 < n := by
      refine Nat.pos_of_ne_zero ?_
      rintro rfl
      exact hne rfl
    simp only [hvalue, if_pos (hlt hpos)]

/-! ## Steps of the instructions in leaf scripts -/

/-- The instruction that pushes a natural number. -/
def pushNumber (n : Nat) : Instruction :=
  if n = 0 then .push []
  else if n ≤ 16 then .op (UInt8.ofNat (0x50 + n))
  else .push (Script.numberBytes 9 n)

theorem write_pushNumber (n : Nat) : Script.write (pushNumber n) = Script.pushNat n := by
  unfold pushNumber Script.pushNat
  by_cases h0 : n = 0
  · simp [h0, Script.write, Script.push]
  · by_cases h16 : n ≤ 16 <;> simp [h0, h16, Script.write]

theorem canonical_pushNumber {n : Nat} (h : n < 2 ^ 31) : Script.Canonical (pushNumber n) := by
  unfold pushNumber
  by_cases h0 : n = 0
  · rw [if_pos h0]
    exact Nat.succ_pos _
  · by_cases h16 : n ≤ 16
    · rw [if_neg h0, if_pos h16]
      change 0x4e < (UInt8.ofNat (0x50 + n)).toNat
      rw [UInt8.toNat_ofNat']
      omega
    · rw [if_neg h0, if_neg h16]
      have hlength := (ofLE_numberBytes (by decide : 3 < 9) h).2.1
      exact Nat.lt_of_le_of_lt hlength (by decide)

section Steps

variable (verifies : (key item : Bytes) → Bool)

/-- The limit is looked at before an instruction. -/
theorem run_cons {i : Instruction} {is : List Instruction} {stack : Stack}
    (h : stack.length ≤ stackLimit) :
    run verifies (i :: is) stack =
      match step verifies i stack with
      | .ok stack => run verifies is stack
      | .error why => .error why := by
  rw [run, if_neg (Nat.not_lt.2 h)]

theorem step_pushNumber {n : Nat} (h : n < 2 ^ 31) (stack : Stack) :
    ∃ item, step verifies (pushNumber n) stack = .ok (item :: stack) ∧
      number? item = some (n : Int) := by
  unfold pushNumber
  by_cases h0 : n = 0
  · refine ⟨[], ?_, ?_⟩
    · simp [h0, step]
    · simp [h0, number?]
  by_cases h16 : n ≤ 16
  · refine ⟨encode n, ?_, number?_encode (by omega)⟩
    have hcode : (UInt8.ofNat (0x50 + n)).toNat = 0x50 + n := by
      rw [UInt8.toNat_ofNat']
      omega
    have hne : ∀ d : UInt8, 0x60 < d.toNat → UInt8.ofNat (0x50 + n) ≠ d := by
      rintro d hd rfl
      omega
    have hrange : 0x51 ≤ UInt8.ofNat (0x50 + n) ∧ UInt8.ofNat (0x50 + n) ≤ 0x60 := by
      simp only [UInt8.le_iff_toNat_le, hcode]
      constructor
      · change 0x51 ≤ 0x50 + n
        omega
      · change 0x50 + n ≤ 0x60
        omega
    have hvalue : ((0x50 + n : Nat) : Int) - 0x50 = n := by omega
    simp only [if_neg h0, if_pos h16, step, if_neg (hne Script.opCheckSig (by decide)),
      if_neg (hne Script.opCheckSigAdd (by decide)), if_neg (hne Script.opNumEqual (by decide)),
      if_pos hrange, hcode, hvalue]
  · exact ⟨_, by simp [h0, h16, step], number?_numberBytes h⟩

end Steps

end SignetFederation.Tapscript
