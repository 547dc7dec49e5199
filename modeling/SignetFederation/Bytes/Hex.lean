import SignetFederation.Bytes

/-!
# Hexadecimal text

Two digits per byte, high half first. Writing uses lower-case digits; reading takes either case and
refuses any other character and an odd number of digits. Main statement: `decode?_encode`.
-/

namespace SignetFederation.Hex

/-- The digit for a value below sixteen. -/
def digit (n : Nat) : Char :=
  if n < 10 then Char.ofNat (48 + n) else Char.ofNat (87 + n)

/-- The value of a digit of either case. -/
def value? (c : Char) : Option Nat :=
  let n := c.toNat
  if 48 ≤ n ∧ n ≤ 57 then some (n - 48)
  else if 97 ≤ n ∧ n ≤ 102 then some (n - 87)
  else if 65 ≤ n ∧ n ≤ 70 then some (n - 55)
  else none

/-- Whether a character is a hexadecimal digit. -/
def isDigit (c : Char) : Bool := (value? c).isSome

/-- The digits of a byte string. -/
def digits (b : Bytes) : List Char :=
  b.flatMap fun x => [digit (x.toNat / 16), digit (x.toNat % 16)]

/-- The text of a byte string. -/
def encode (b : Bytes) : String :=
  b.foldl (fun s x => (s.push (digit (x.toNat / 16))).push (digit (x.toNat % 16))) ""

/-- The bytes that a row of digits writes, prepended in reverse to `acc`. -/
def decodeOnto (acc : Bytes) : List Char → Option Bytes
  | [] => some acc.reverse
  | [_] => none
  | a :: b :: rest =>
    match value? a, value? b with
    | some x, some y => decodeOnto (UInt8.ofNat (16 * x + y) :: acc) rest
    | _, _ => none

/-- The bytes that a text writes, if it is hexadecimal. -/
def decode? (s : String) : Option Bytes := decodeOnto [] s.toList

theorem value?_digit : ∀ n : Fin 16, value? (digit n.val) = some n.val := by decide

theorem toList_encode (b : Bytes) : (encode b).toList = digits b := by
  have general : ∀ (b : Bytes) (s : String),
      (b.foldl (fun s x => (s.push (digit (x.toNat / 16))).push (digit (x.toNat % 16))) s).toList
        = s.toList ++ digits b := by
    intro b
    induction b with
    | nil => intro s; simp [digits]
    | cons x r ih => intro s; simp [ih, digits]
  simpa [encode] using general b ""

theorem decodeOnto_digits (b acc : Bytes) : decodeOnto acc (digits b) = some (acc.reverse ++ b) := by
  induction b generalizing acc with
  | nil => simp [digits, decodeOnto]
  | cons x r ih =>
    have hx : x.toNat < 256 := x.toNat_lt
    have high := value?_digit ⟨x.toNat / 16, by omega⟩
    have low := value?_digit ⟨x.toNat % 16, by omega⟩
    have back : UInt8.ofNat (16 * (x.toNat / 16) + x.toNat % 16) = x := by
      rw [Nat.div_add_mod]; exact UInt8.ofNat_toNat
    simp only [digits, List.flatMap_cons, List.cons_append, List.nil_append, decodeOnto] at *
    rw [high, low]
    simp only [back, ih]
    simp

/-- What was written reads back. -/
theorem decode?_encode (b : Bytes) : decode? (encode b) = some b := by
  simp [decode?, toList_encode, decodeOnto_digits]

end SignetFederation.Hex
