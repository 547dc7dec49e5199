import SignetFederation.Signet.Spend
import SignetFederation.Signing.Update

/-!
# Solutions

A solution is what spends the virtual output of a block: a script and a witness. For a quorum the
witness is one signature for the key path, or a stack for the leaf: a signature or nothing for each
key, the last key first, then the leaf script and the control block.

`crates/quorum-core/src/solution.rs`:

| here | there |
| --- | --- |
| `Solution` | `SignetSolution` (`solution.rs:20-23`) |
| `Solution.encode` | `SignetSolution::to_bytes` (`solution.rs:27-31`) |
| `Solution.commitmentSection` | `SignetSolution::commitment_section` (`solution.rs:34-38`) |
| `Solution.ofBytes` | `SignetSolution::from_bytes` (`solution.rs:41-52`) |
| `Solution.ofCommitmentSection` | `SignetSolution::from_commitment_section` (`solution.rs:55-60`) |
| `Solution.ofPsbt` | `SignetSolution::from_psbt` (`solution.rs:63-81`) |
| `Solution.buildWitness` | `build_witness` (`solution.rs:85-130`) |
| `Solution.leafSignatures` | its loop over the leaf signatures (`solution.rs:100-112`) |
| `Solution.leafWitness` | its stack for the leaf (`solution.rs:121-129`) |
| `Solution.checkWitness` | `check_witness` (`solution.rs:133-187`) |
| `Solution.isSignatureLength` | `is_signature_length` (`solution.rs:190-192`) |
| `Psbt.finish`, `finishInPlace` | `finalize_psbt` (`solution.rs:196-210`) |
| `Psbt.commitmentSection` | `extract_solution` (`solution.rs:214-218`) |
| `Block.embed` | `embed_solution` (`signet.rs:167-169`) |
-/

namespace SignetFederation

/-- What spends the virtual output of a block. -/
structure Solution where
  scriptSig : Script
  witness : Witness
  deriving DecidableEq

namespace Solution

/-- The serialized form. -/
def encode (s : Solution) : Bytes := CompactSize.encodeBytes s.scriptSig ++ Witness.encode s.witness

/-- The serialized form behind the signet header, as it is pushed into a block. -/
def commitmentSection (s : Solution) : Bytes := Commitment.header ++ s.encode

/-- Reads a solution. -/
def decode : Decoder Solution := fun b =>
  match CompactSize.boundedBytes b with
  | .error e => .error e
  | .ok (scriptSig, b) =>
    match Witness.decode b with
    | .error e => .error e
    | .ok (witness, b) => .ok (⟨scriptSig, witness⟩, b)

/-- The solution that a whole byte string writes. -/
def ofBytes (b : Bytes) : Except Error Solution :=
  match decode b with
  | .ok (s, []) => .ok s
  | .ok (_, x :: rest) => .error (.block (.trailing (x :: rest).length))
  | .error why => .error (.block (.unreadable why))

/-- The solution that a section writes behind the signet header. -/
def ofCommitmentSection (b : Bytes) : Except Error Solution :=
  if Commitment.header.isPrefixOf b then ofBytes (b.drop Commitment.header.length)
  else .error (.block .noHeader)

/-- The witness item of a key: its signature if the key is among those that count. -/
def stackItem (signed : List (Nat × TapSignature)) (i : Nat) : Bytes :=
  match signed.lookup i with
  | some s => s.encode
  | none => []

/-- The leaf signatures of an input with the places of their keys, in the order of the keys. -/
def leafSignatures (q : Quorum) (input : Psbt.Input) : List (Nat × TapSignature) :=
  q.signers.zipIdx.filterMap fun e =>
    (input.tapScriptSignatures.get? ⟨e.1, q.leafHash⟩).map fun s => (e.2, s)

/-- The witness for the leaf out of as many signatures as the threshold asks for, the first ones in
the order of the keys. -/
def leafWitness (q : Quorum) (signed : List (Nat × TapSignature)) : Witness :=
  (List.range q.signers.length).reverse.map (stackItem signed) ++
    [q.script, q.controlBlock.encode]

/-- The witness out of the signatures of an input. -/
def buildWitness (q : Quorum) (input : Psbt.Input) : Except Error Witness :=
  match input.tapKeySignature with
  | some s => .ok [s.encode]
  | none =>
    if !q.ownsLeaves input then .error (.scriptMismatch .leafScript)
    else
      let signed := (leafSignatures q input).take q.threshold
      if signed.length < q.threshold then
        .error (.incompleteSignatures q.threshold signed.length)
      else .ok (leafWitness q signed)

/-- Whether an item has the length of a signature. -/
def isSignatureLength (item : Bytes) : Bool := item.length == 64 || item.length == 65

/-- Checks a finished witness against the quorum. -/
def checkWitness (q : Quorum) (w : Witness) : Except Error Unit := do
  match w with
  | [item] => if !isSignatureLength item then throw (.scriptMismatch .keyPathWitness)
  | _ =>
    let n := q.signers.length
    if w.length ≠ n + 2 then throw (.scriptMismatch (.witnessCount w.length (n + 2)))
    if w[n]? ≠ some q.script then throw (.scriptMismatch .witnessScript)
    if w[n + 1]? ≠ some q.controlBlock.encode then throw (.scriptMismatch .witnessControlBlock)
    let items := (w.take n).filter fun item => !item.isEmpty
    match items.find? fun item => !isSignatureLength item with
    | some item => throw (.scriptMismatch (.witnessSignature item.length))
    | none => pure ()
    if q.threshold < items.length then
      throw (.scriptMismatch (.tooManySignatures items.length q.threshold))
    if items.length < q.threshold then
      throw (.incompleteSignatures q.threshold items.length)

/-- The solution in a PSBT: the finished one of its first input, or the one that the signatures
make. -/
def ofPsbt (q : Quorum) (p : Psbt) : Except Error Solution := do
  match p.inputs with
  | [] => throw (.psbt .noInputs)
  | input :: _ =>
    let witness ← match input.finalWitness with
      | some w => do
        checkWitness q w
        pure w
      | none => buildWitness q input
    return ⟨input.finalScriptSig.getD [], witness⟩

end Solution

namespace Psbt

/-- The input with a solution in place of everything that served to find it. -/
def Input.finish (i : Input) (s : Solution) : Input :=
  { i with
    finalScriptSig := some s.scriptSig
    finalWitness := some s.witness
    tapKeySignature := none
    tapScriptSignatures := ∅
    tapScripts := ∅
    tapKeyOrigins := ∅
    tapInternalKey := none
    tapMerkleRoot := none
    sighashType := none }

/-- The PSBT with the solution of its first input in its final form. -/
def finish (p : Psbt) (q : Quorum) : Except Error Psbt := do
  let s ← Solution.ofPsbt q p
  return { p with inputs := p.inputs.modifyHead fun i => i.finish s }

/-- Finishes a PSBT where it is kept. The solution is found before anything is written, so a PSBT that
has none stays as it is. -/
def finishInPlace (p : Psbt) (q : Quorum) : Psbt × Except Error Unit :=
  match Solution.ofPsbt q p with
  | .error why => (p, .error why)
  | .ok s => ({ p with inputs := p.inputs.modifyHead fun i => i.finish s }, .ok ())

/-- The section that the solution of a PSBT makes. -/
def commitmentSection (p : Psbt) (q : Quorum) : Except Error Bytes := do
  return (← Solution.ofPsbt q p).commitmentSection

end Psbt

/-- The block with a solution. -/
def Block.embed (b : Block) (s : Solution) : Except Error Block := b.embedSection s.commitmentSection

end SignetFederation
