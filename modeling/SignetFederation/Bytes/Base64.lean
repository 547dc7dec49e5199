import SignetFederation.Bytes

/-!
# Base64 text

The standard alphabet with padding. Three bytes are written as four symbols; a last group of one or
two bytes is filled up with `=`. Reading is strict: a wrong length, a misplaced `=`, a symbol
outside the alphabet or a last symbol with unused bits set is refused, so a byte string has exactly
one written form.
-/

namespace SignetFederation.Base64

/-- The symbol for a value below 64. -/
def symbol (n : Nat) : Char :=
  if n < 26 then Char.ofNat (65 + n)
  else if n < 52 then Char.ofNat (71 + n)
  else if n < 62 then Char.ofNat (n - 4)
  else if n = 62 then '+' else '/'

/-- The value of a symbol. -/
def value? (c : Char) : Option Nat :=
  let n := c.toNat
  if 65 ≤ n ∧ n ≤ 90 then some (n - 65)
  else if 97 ≤ n ∧ n ≤ 122 then some (n - 71)
  else if 48 ≤ n ∧ n ≤ 57 then some (n + 4)
  else if n = 43 then some 62
  else if n = 47 then some 63
  else none

/-- The text written so far, continued with a byte string. -/
def encodeOnto (s : String) : Bytes → String
  | [] => s
  | [a] =>
    let n := a.toNat * 16
    (((s.push (symbol (n / 64))).push (symbol (n % 64))).push '=').push '='
  | [a, b] =>
    let n := (a.toNat * 256 + b.toNat) * 4
    (((s.push (symbol (n / 4096))).push (symbol (n / 64 % 64))).push (symbol (n % 64))).push '='
  | a :: b :: c :: rest =>
    let n := a.toNat * 65536 + b.toNat * 256 + c.toNat
    encodeOnto ((((s.push (symbol (n / 262144))).push (symbol (n / 4096 % 64))).push
      (symbol (n / 64 % 64))).push (symbol (n % 64))) rest

/-- The text of a byte string. -/
def encode (b : Bytes) : String := encodeOnto "" b

/-- The bytes of the last four symbols, which may be padded. -/
def decodeLast (a b c d : Char) : Option Bytes := do
  let x ← value? a
  let y ← value? b
  if c = '=' then
    if d = '=' ∧ y % 16 = 0 then some [UInt8.ofNat (x * 4 + y / 16)] else none
  else
    let z ← value? c
    if d = '=' then
      if z % 4 = 0 then some [UInt8.ofNat (x * 4 + y / 16), UInt8.ofNat (y * 16 + z / 4)] else none
    else
      let w ← value? d
      some [UInt8.ofNat (x * 4 + y / 16), UInt8.ofNat (y * 16 + z / 4), UInt8.ofNat (z * 64 + w)]

/-- The bytes that a row of symbols writes, prepended in reverse to `acc`. -/
def decodeOnto (acc : Bytes) : List Char → Option Bytes
  | [] => some acc.reverse
  | [a, b, c, d] => (decodeLast a b c d).map fun last => acc.reverse ++ last
  | a :: b :: c :: d :: rest =>
    match value? a, value? b, value? c, value? d with
    | some x, some y, some z, some w =>
      decodeOnto (UInt8.ofNat (z * 64 + w) :: UInt8.ofNat (y * 16 + z / 4)
        :: UInt8.ofNat (x * 4 + y / 16) :: acc) rest
    | _, _, _, _ => none
  | _ => none

/-- The bytes that a text writes, if it is strict Base64. -/
def decode? (s : String) : Option Bytes := decodeOnto [] s.toList

end SignetFederation.Base64
