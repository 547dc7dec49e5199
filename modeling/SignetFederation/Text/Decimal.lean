/-!
# Decimal numbers in text

A number is read from an optional plus sign and at least one ASCII digit; leading zeros are allowed,
anything else is refused, and so is a value that does not lie below the bound of its type. Main
statement: a printed number reads back (`read?_toDigits`).
-/

namespace SignetFederation.Decimal

/-- The value of an ASCII digit. -/
def digit? (c : Char) : Option Nat :=
  if 48 ≤ c.toNat ∧ c.toNat ≤ 57 then some (c.toNat - 48) else none

/-- The value of a row of digits that continues the number `acc`. -/
def valueFrom (acc : Nat) : List Char → Option Nat
  | [] => some acc
  | c :: rest =>
    match digit? c with
    | some d => valueFrom (10 * acc + d) rest
    | none => none

/-- The value of a row of one or more digits. -/
def value? (cs : List Char) : Option Nat := if cs = [] then none else valueFrom 0 cs

/-- The number below `bound` that a row of characters writes. -/
def read? (bound : Nat) (cs : List Char) : Option Nat :=
  let digits := match cs with
    | '+' :: rest => rest
    | other => other
  match value? digits with
  | some n => if n < bound then some n else none
  | none => none

/-- Numbers of this many bits lie below it. -/
abbrev bound64 : Nat := 18446744073709551616

/-- Numbers of this many bits lie below it. -/
abbrev bound32 : Nat := 4294967296

theorem digit?_digitChar {d : Nat} (h : d < 10) : digit? (Nat.digitChar d) = some d := by
  have : ∀ d : Fin 10, digit? (Nat.digitChar d.val) = some d.val := by decide
  exact this ⟨d, h⟩

theorem valueFrom_append (acc : Nat) (xs ys : List Char) :
    valueFrom acc (xs ++ ys) = (valueFrom acc xs).bind fun n => valueFrom n ys := by
  induction xs generalizing acc with
  | nil => rfl
  | cons c rest ih =>
    simp only [List.cons_append, valueFrom]
    cases digit? c with
    | none => rfl
    | some d => exact ih _

theorem valueFrom_toDigits (n : Nat) : valueFrom 0 (Nat.toDigits 10 n) = some n := by
  induction n using Nat.strongRecOn with
  | _ n ih =>
    by_cases h : n < 10
    · rw [Nat.toDigits_of_lt_base h]
      simp [valueFrom, digit?_digitChar h]
    · have hb : 10 ≤ n := by omega
      rw [Nat.toDigits_of_base_le (by decide) hb, valueFrom_append, ih (n / 10) (by omega)]
      have hd : n % 10 < 10 := Nat.mod_lt _ (by decide)
      simp only [Option.bind_some, valueFrom, digit?_digitChar hd]
      congr 1
      omega

/-- A printed number reads back. -/
theorem read?_toDigits {bound n : Nat} (h : n < bound) :
    read? bound (Nat.toDigits 10 n) = some n := by
  have hne : Nat.toDigits 10 n ≠ [] := Nat.toDigits_ne_nil
  have hv := valueFrom_toDigits n
  revert hne hv
  generalize Nat.toDigits 10 n = cs
  intro hne hv
  match cs, hne with
  | '+' :: rest, _ => simp [valueFrom, digit?] at hv
  | c :: rest, _ =>
    have hc : c ≠ '+' := by
      rintro rfl
      simp [valueFrom, digit?] at hv
    simp [read?, value?, hc, hv, h]

end SignetFederation.Decimal
