import SignetFederation.Digest.Sha256

/-!
# Base58 text

A byte string as a number in base 58, with a leading `1` for every leading zero byte. Keys are
written with four bytes of a double hash behind them, which the reader checks and takes off.
-/

namespace SignetFederation.Base58

/-- The digits in the order of their values. -/
def alphabet : List Char := "123456789ABCDEFGHJKLMNPQRSTUVWXYZabcdefghijkmnopqrstuvwxyz".toList

/-- The number that a row of digits continues. -/
def valueFrom (acc : Nat) : List Char → Option Nat
  | [] => some acc
  | c :: rest =>
    match alphabet.idxOf? c with
    | some d => valueFrom (58 * acc + d) rest
    | none => none

/-- How many bytes a number takes. -/
def width (n : Nat) : Nat := if n = 0 then 0 else n.log2 / 8 + 1

/-- The bytes that a text writes. -/
def decode? (s : String) : Option Bytes :=
  let cs := s.toList
  (valueFrom 0 cs).map fun n =>
    List.replicate (cs.takeWhile (· == '1')).length 0 ++ Bytes.be (width n) n

/-- The digits of a number before those already written. -/
def digitsOnto (acc : List Char) (n : Nat) : List Char :=
  if n = 0 then acc else digitsOnto (alphabet.getD (n % 58) '1' :: acc) (n / 58)

/-- The text of a byte string. -/
def encode (b : Bytes) : String :=
  String.ofList (List.replicate (b.takeWhile (· == 0)).length '1' ++ digitsOnto [] (Bytes.ofBE b))

/-- The four bytes that guard a byte string. -/
def guardBytes (b : Bytes) : Bytes := (doubleSha256 b).toBytes.take 4

/-- The text of a byte string with its guard. -/
def encodeCheck (b : Bytes) : String := encode (b ++ guardBytes b)

/-- The bytes that a text with a guard writes. -/
def decodeCheck? (s : String) : Option Bytes :=
  (decode? s).bind fun b =>
    let body := b.take (b.length - 4)
    if 4 ≤ b.length ∧ guardBytes body = b.drop (b.length - 4) then some body else none

end SignetFederation.Base58
