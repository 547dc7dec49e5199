import SignetFederation.Wire.CompactSize

/-!
# Scripts

A script is a byte string of instructions: a push of data, or an operation of one byte. A push of
fewer than 76 bytes is its length and the data; longer ones have a length of one, two or four bytes
behind an operation byte. Writing a push takes the shortest of these forms; reading takes any.
-/

namespace SignetFederation

/-- A script in its serialized form. -/
abbrev Script := Bytes

/-- One step of a script. -/
inductive Instruction where
  | push (data : Bytes)
  | op (code : UInt8)
  deriving DecidableEq

namespace Script

/-- The operation that marks an output as unspendable. -/
def opReturn : UInt8 := 0x6a

/-- The operation that checks a signature. -/
def opCheckSig : UInt8 := 0xac

/-- The operation that checks a signature and adds one to a counter if there is one. -/
def opCheckSigAdd : UInt8 := 0xba

/-- The operation that compares two numbers. -/
def opNumEqual : UInt8 := 0x9c

/-- No push holds this many bytes. -/
def pushLimit : Nat := 0x100000000

/-- The shortest push of a byte string. -/
def push (data : Bytes) : Script :=
  let n := data.length
  (if n < 76 then [UInt8.ofNat n]
    else if n < 0x100 then [0x4c, UInt8.ofNat n]
    else if n < 0x10000 then 0x4d :: Bytes.le 2 n
    else 0x4e :: Bytes.le 4 n) ++ data

/-- The bytes of a positive number on the stack: least significant first, with a further zero byte
where the high bit would read as a sign. -/
def numberBytes : (fuel : Nat) → (n : Nat) → Bytes
  | 0, _ => []
  | fuel + 1, n =>
    if n = 0 then []
    else if n < 128 then [UInt8.ofNat n]
    else if n < 256 then [UInt8.ofNat n, 0]
    else UInt8.ofNat n :: numberBytes fuel (n / 256)

/-- The push of a natural number; those up to sixteen have operations of their own. -/
def pushNat (n : Nat) : Script :=
  if n = 0 then [0x00]
  else if n ≤ 16 then [UInt8.ofNat (0x50 + n)]
  else push (numberBytes 9 n)

/-- The serialized form of an instruction. -/
def write : Instruction → Script
  | .push data => push data
  | .op code => [code]

/-- The data of a push whose length has `k` bytes, and what follows. -/
def readPush (k : Nat) (b : Bytes) : Option (Bytes × Bytes) :=
  match Bytes.cut k b with
  | some (n, rest) => Bytes.cut (Bytes.ofLE n) rest
  | none => none

/-- The first instruction after its first byte, and what follows. -/
def readFirst (code : UInt8) (rest : Bytes) : Option (Instruction × Bytes) :=
  let pushed := (fun (p : Bytes × Bytes) => (Instruction.push p.1, p.2))
  if code < 0x4c then (Bytes.cut code.toNat rest).map pushed
  else if code = 0x4c then (readPush 1 rest).map pushed
  else if code = 0x4d then (readPush 2 rest).map pushed
  else if code = 0x4e then (readPush 4 rest).map pushed
  else some (.op code, rest)

/-- The instructions of a script after those already read, which are given last first. -/
def readOnto : (fuel : Nat) → (acc : List Instruction) → Bytes → Option (List Instruction)
  | _, acc, [] => some acc.reverse
  | 0, _, _ :: _ => none
  | fuel + 1, acc, code :: rest =>
    match readFirst code rest with
    | some (i, rest) => readOnto fuel (i :: acc) rest
    | none => none

/-- The instructions of a script, unless its last push is cut short. -/
def instructions? (s : Script) : Option (List Instruction) := readOnto s.length [] s

/-- The script of a row of instructions. -/
def ofInstructions (is : List Instruction) : Script := is.flatMap write

end Script

end SignetFederation
