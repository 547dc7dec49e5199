import SignetFederation.Text.Fields

/-!
# Descriptor checksums

A descriptor may carry eight symbols after a `#` that detect typing errors. The body is turned into
numbers below 32, two thirds of a character's class going into a number of its own after every
third character, and those numbers are the coefficients of a polynomial over the field of 32
elements; the checksum is its remainder modulo a fixed generator of degree eight.

`crates/quorum-core/src/quorum/descriptor.rs`:

| here | there |
| --- | --- |
| `Checksum.alphabet` | `INPUT_CHARSET` (`descriptor.rs:5-6`) |
| `Checksum.symbols` | `CHECKSUM_CHARSET` (`descriptor.rs:7`) |
| `Checksum.generators` | `GENERATOR` (`descriptor.rs:8-14`) |
| `Checksum.absorb` | the loop of `polymod` (`descriptor.rs:16-28`) |
| `Checksum.codesOnto` | `expand` (`descriptor.rs:30-52`) |
| `checksum` | `descriptor_checksum` (`descriptor.rs:55-63`) |
| `withChecksum` | `with_checksum` (`descriptor.rs:66-68`) |
| `stripChecksum` | `strip_checksum` (`descriptor.rs:71-91`) |
-/

namespace SignetFederation.Descriptor

/-- Why a descriptor text is refused. -/
inductive Fault where
  | invalidCharacter (c : Char)
  | checksumLength (bytes : Nat)
  | checksumMismatch (provided computed : String)
  | notFunction (body : String)
  | noLeaf
  | notMultiA (leaf : String)
  | badThreshold (text : String)
  | noPrivateKey
  deriving DecidableEq

/-- The wording of a fault. -/
def Fault.message : Fault → String
  | invalidCharacter c => "invalid character '" ++ String.singleton c ++ "'"
  | checksumLength n => "expected 8 character checksum, not " ++ toString n ++ " characters"
  | checksumMismatch provided computed =>
    "provided checksum '" ++ provided ++ "' does not match computed checksum '" ++ computed ++ "'"
  | notFunction body => "'" ++ body ++ "' is not a valid descriptor function"
  | noLeaf => "tr() descriptor must commit to a multi_a leaf"
  | notMultiA leaf => "tr(): '" ++ leaf ++ "' is not a multi_a leaf"
  | badThreshold text => "multi_a(): threshold '" ++ text ++ "' is not a number"
  | noPrivateKey => "descriptor holds no private key"

namespace Checksum

/-- The characters of a body, in the order of their codes. -/
def alphabet : List Char :=
  ("0123456789()[],'/*abcdefgh@:$%\x7b\x7d" ++
    "IJKLMNOPQRSTUVWXYZ&+-.;<=>?!^_|~" ++
    "ijklmnopqrstuvwxyzABCDEFGH\x60#\"\\ ").toList

/-- The characters of a checksum, in the order of their values. -/
def symbols : List Char := "qpzry9x8gf2tvdw0s3jn54khce6mua7l".toList

/-- The code of a character. -/
def code? (c : Char) : Option Nat := alphabet.idxOf? c

/-- What the five bits that leave the remainder at its top put back into it. -/
def generators : List (BitVec 40) :=
  [0xf5dee51989, 0xa9fdca3312, 0x1bab10e32d, 0x3706b1677a, 0x644d626ffd]

/-- The remainder after one more coefficient. -/
def step (remainder : BitVec 40) (coefficient : Nat) : BitVec 40 :=
  let shifted := (remainder <<< 5) ^^^ BitVec.ofNat 40 coefficient
  let put (i : Nat) (g : BitVec 40) (r : BitVec 40) : BitVec 40 :=
    if remainder.getLsbD (35 + i) then r ^^^ g else r
  (generators.foldl (fun (acc : Nat × BitVec 40) g => (acc.1 + 1, put acc.1 g acc.2)) (0, shifted)).2

/-- The remainder after the characters with the given codes. The low five bits of a code are a
coefficient; the classes of three characters make one more. -/
def absorb (remainder : BitVec 40) : List Nat → BitVec 40
  | x :: y :: z :: rest =>
    absorb (step (step (step (step remainder (x % 32)) (y % 32)) (z % 32))
      (x / 32 * 9 + y / 32 * 3 + z / 32)) rest
  | [x, y] => step (step (step remainder (x % 32)) (y % 32)) (x / 32 * 3 + y / 32)
  | [x] => step (step remainder (x % 32)) (x / 32)
  | [] => remainder

/-- The remainder of a body with room for the checksum. -/
def remainder (codes : List Nat) : BitVec 40 :=
  (List.replicate 8 0).foldl step (absorb 1 codes) ^^^ 1

/-- The value of the `i`-th symbol of a checksum. -/
def symbolValue (remainder : BitVec 40) (i : Nat) : Nat :=
  ((remainder >>> (5 * (7 - i))).toNat) % 32

/-- The codes of a row of characters, after those already found in reverse. -/
def codesOnto (acc : List Nat) : List Char → Except Fault (List Nat)
  | [] => .ok acc.reverse
  | c :: rest =>
    match code? c with
    | some n => codesOnto (n :: acc) rest
    | none => .error (.invalidCharacter c)

/-- The eight symbols for a row of characters. -/
def ofChars (body : List Char) : Except Fault (List Char) := do
  let codes ← codesOnto [] body
  let r := remainder codes
  return (List.range 8).map fun i => symbols.getD (symbolValue r i) 'q'

end Checksum

/-- The checksum of a body. -/
def checksum (body : String) : Except Fault String := do
  return String.ofList (← Checksum.ofChars body.toList)

/-- A body with its checksum. -/
def withChecksum (body : String) : Except Fault String := do
  return body ++ "#" ++ (← checksum body)

/-- The body of a text, whose checksum has to be right if there is one. -/
def stripChecksum (text : String) : Except Fault String :=
  match Text.cutFirst '#' text.toList with
  | none => .ok text
  | some (body, given) => do
    let body := String.ofList body
    let given := String.ofList given
    if given.utf8ByteSize ≠ 8 then throw (.checksumLength given.utf8ByteSize)
    let computed ← checksum body
    if given ≠ computed then throw (.checksumMismatch given computed)
    return body

end SignetFederation.Descriptor
