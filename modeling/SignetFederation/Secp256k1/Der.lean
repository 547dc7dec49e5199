import SignetFederation.Secp256k1.Curve
import SignetFederation.Bytes

/-!
# ECDSA signatures in DER

A pair of scalars as an ASN.1 sequence of two integers. The reader takes the definite lengths of
DER, at most one leading zero byte before a high bit, and nothing after the sequence; a scalar that
is negative or not below the group order is read as zero. The writer uses as few bytes as possible.
-/

namespace SignetFederation.Der

open Secp256k1

/-- The two scalars of a signature. -/
structure Signature where
  r : Nat
  s : Nat
  deriving DecidableEq

/-- A definite length and the rest. A long form must be needed, have no leading zero byte and fit
the bytes that follow. -/
def length? : Bytes → Option (Nat × Bytes)
  | [] => none
  | b :: rest =>
    if b = 0xff then none
    else if b < 0x80 then some (b.toNat, rest)
    else if b = 0x80 then none
    else
      let size := b.toNat - 0x80
      match Bytes.cut size rest with
      | none => none
      | some (digits, after) =>
        if digits.head? = some 0 ∨ size > 8 then none
        else
          let n := Bytes.ofBE digits
          if n < 128 ∨ n > after.length then none else some (n, after)

/-- An integer, as a scalar, and the rest. -/
def integer? : Bytes → Option (Nat × Bytes)
  | 0x02 :: rest =>
    match length? rest with
    | none => none
    | some (n, rest) =>
      if n = 0 then none
      else
        match Bytes.cut n rest with
        | none => none
        | some (digits, after) =>
          let first := digits.headD 0
          let second := (digits.drop 1).headD 0
          if first = 0x00 ∧ n > 1 ∧ second < 0x80 then none
          else if first = 0xff ∧ n > 1 ∧ second ≥ 0x80 then none
          else
            let value := Bytes.ofBE digits
            some (if first ≥ 0x80 ∨ value ≥ groupOrder then 0 else value, after)
  | _ => none

/-- The signature that a byte string writes. -/
def decode? : Bytes → Option Signature
  | 0x30 :: rest =>
    match length? rest with
    | none => none
    | some (n, rest) =>
      if n = rest.length then
        match integer? rest with
        | none => none
        | some (r, rest) =>
          match integer? rest with
          | some (s, []) => some ⟨r, s⟩
          | _ => none
      else none
  | _ => none

/-- A scalar as an integer of as few bytes as possible. -/
def integer (n : Nat) : Bytes :=
  let digits := (Bytes.be 32 n).dropWhile (· == 0)
  let digits := if digits.headD 0x80 ≥ 0x80 then 0 :: digits else digits
  0x02 :: UInt8.ofNat digits.length :: digits

/-- The DER form of a signature. -/
def encode (g : Signature) : Bytes :=
  let body := integer g.r ++ integer g.s
  0x30 :: UInt8.ofNat body.length :: body

end SignetFederation.Der
