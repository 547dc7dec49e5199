import SignetFederation.Signing.Signer

/-!
# Signing rounds

A round gathers the signatures of a quorum for one PSBT. Each slot is filled once; any later
signature for it has to be the same. What a partial PSBT brings is taken in a fixed order, and the
first part that is wrong ends the round for good. A signature that is taken is kept twice: in its
slot and in the first input of the round's PSBT.

`crates/quorum-core/src/sign/round.rs`:

| here | there |
| --- | --- |
| `RoundState` | `RoundState` (`round.rs:20-27`) |
| `Round` | `SigningRound` (`round.rs:35-43`) |
| `Round.start` | `SigningRound::new` (`round.rs:47-68`) |
| `Round.state` | `SigningRound::state` (`round.rs:71-84`) |
| `Round.isComplete` | `SigningRound::is_complete` (`round.rs:87-90`) |
| `Round.signatureCount` | `SigningRound::signature_count` (`round.rs:93-95`) |
| `Round.scriptCount` | `SigningRound::script_signature_count` (`round.rs:97-99`) |
| `Round.signedSlots` | `SigningRound::signed_slots` (`round.rs:102-114`) |
| `Round.apply` | `SigningRound::apply` (`round.rs:131-136`) |
| `Round.merge` | `SigningRound::merge` and `ensure_active` (`round.rs:139-181`, `:206-211`) |
| `Round.contributions` | what the two loops of `merge` take, one by one (`round.rs:148-176`) |
| `Round.takeAll` | the early returns of these loops (`round.rs:148-176`) |
| `Round.collect` | `SigningRound::collect` (`round.rs:187-204`) |
| `Round.mergeQueue` | its loop, with what has come by the deadline as a list (`round.rs:189-203`) |
| `Round.place` | `SigningRound::accept` (`round.rs:213-250`) |
| `Round.fill` | the stores at its end (`round.rs:234-247`) |
| `Round.check` | `SigningRound::verify` (`round.rs:252-263`) |
| `Round.fail` | `SigningRound::fail` (`round.rs:265-269`) |
-/

namespace SignetFederation

/-- How far a round has come. -/
inductive RoundState where
  | collecting (signatures required : Nat)
  | complete
  | failed (reason : String)
  deriving DecidableEq

/-- A signing round. -/
structure Round where
  quorum : Quorum
  psbt : Psbt
  hashes : Sighashes
  keyPath : Option TapSignature
  script : List (Option TapSignature)
  length_script : script.length = quorum.signers.length
  failure : Option String

namespace Round

/-- A round without signatures. -/
def unsigned (q : Quorum) (p : Psbt) (hashes : Sighashes) : Round :=
  ⟨q, p, hashes, none, List.replicate q.signers.length none, by simp, none⟩

/-- The signature in a slot. -/
def signature? (r : Round) : Slot → Option TapSignature
  | .keyPath => r.keyPath
  | .script i => r.script[i]?.join

/-- The number of filled script slots. -/
def scriptCount (r : Round) : Nat := r.script.countP Option.isSome

/-- The number of filled slots. -/
def signatureCount (r : Round) : Nat := r.scriptCount + r.keyPath.isSome.toNat

/-- Whether the signatures satisfy the key path or the leaf. -/
def isComplete (r : Round) : Bool :=
  r.failure.isNone && (r.keyPath.isSome || decide (r.quorum.threshold ≤ r.scriptCount))

/-- How far the round has come. -/
def state (r : Round) : RoundState :=
  match r.failure with
  | some reason => .failed reason
  | none =>
    if r.isComplete then .complete else .collecting r.signatureCount r.quorum.threshold

/-- The places of the filled ones in a row of script slots that begins at `index`. -/
def filledFrom (index : Nat) : List (Option TapSignature) → List Slot
  | [] => []
  | some _ :: rest => .script index :: filledFrom (index + 1) rest
  | none :: rest => filledFrom (index + 1) rest

/-- The filled slots in key order. -/
def signedSlots (r : Round) : List Slot :=
  (if r.keyPath.isSome then [.keyPath] else []) ++ filledFrom 0 r.script

/-- The round, failed for a reason that is kept. -/
def fail (r : Round) (why : Error) : Round := { r with failure := some why.message }

/-- The round with a signature in one of the quorum's slots and in its PSBT. -/
def fill (r : Round) (s : TapSignature) (slot : Slot) : Round :=
  match r.quorum.keyFor slot with
  | none => r
  | some key =>
    let psbt := { r.psbt with
      inputs := r.psbt.inputs.modifyHead fun i => i.withSignature r.quorum slot key s }
    match slot with
    | .keyPath => { r with psbt, keyPath := some s }
    | .script i =>
      { r with psbt, script := r.script.set i (some s), length_script := by simp [r.length_script] }

/-- The key that signatures for a slot verify against. -/
def verifyingKey? (q : Quorum) : Slot → Option XOnlyKey
  | .keyPath => some q.outputKey
  | .script i => q.signers[i]?

/-- Whether a signature is good for a slot. -/
def check (q : Quorum) (hashes : Sighashes) (slot : Slot) (s : TapSignature) :
    Except SignatureFault Unit :=
  if s.coverage ≠ .all then .error (.coverage s.coverage)
  else
    match verifyingKey? q slot with
    | some key =>
      if Schnorr.verify key (hashes.forSlot slot) s.signature then .ok () else .error .unverified
    | none => .error .unverified

/-- Puts a signature into a slot: the one that is there already changes nothing, a bad one or a
second one is refused. -/
def place (r : Round) (slot : Slot) (s : TapSignature) : Except Error Round :=
  if r.signature? slot = some s then .ok r
  else
    match check r.quorum r.hashes slot s with
    | .error why => .error (.invalidSignature slot why)
    | .ok () =>
      if (r.signature? slot).isSome then .error (.conflictingSignature slot) else .ok (r.fill s slot)

/-- A signature for the leaf and its slot, if leaf and key are the quorum's. -/
def leafContribution (q : Quorum) (e : LeafSigner × TapSignature) :
    Except Error (Slot × TapSignature) :=
  if e.1.leaf ≠ q.leafHash then .error (.scriptMismatch (.leafHash e.1.key e.1.leaf))
  else
    match q.slotOf e.1.key with
    | some (.script i) => .ok (.script i, e.2)
    | _ => .error (.foreignSigner e.1.key)

/-- What an input brings, in the order in which it is taken: leaf scripts that are not the quorum's,
the signature for the key path, the signatures for the leaf. -/
def contributions (q : Quorum) (i : Psbt.Input) : List (Except Error (Slot × TapSignature)) :=
  (if i.tapScripts.entries.all fun e => e.2.1 == q.script then []
    else [.error (.scriptMismatch .foreignLeafScript)]) ++
    (match i.tapKeySignature with
      | some s => [.ok (.keyPath, s)]
      | none => []) ++
    i.tapScriptSignatures.entries.map (leafContribution q)

/-- Takes what a partial PSBT brings. The first wrong part fails the round; what was taken before it
stays. -/
def takeAll (r : Round) : List (Except Error (Slot × TapSignature)) → Round × Except Error Unit
  | [] => (r, .ok ())
  | .error why :: _ => (r.fail why, .error why)
  | .ok (slot, s) :: rest =>
    match r.place slot s with
    | .ok r => takeAll r rest
    | .error why => (r.fail why, .error why)

/-- Merges the signatures of a partial PSBT into the round. -/
def merge (r : Round) (p : Psbt) : Round × Except Error RoundState :=
  match r.failure with
  | some reason => (r, .error (.roundFailed reason))
  | none =>
    if p.unsigned ≠ r.psbt.unsigned then (r, .error (.psbt .otherTransaction))
    else
      match p.inputs with
      | [] => (r, .error (.psbt .partialWithoutInputs))
      | i :: _ =>
        match r.takeAll (contributions r.quorum i) with
        | (r, .ok ()) => (r, .ok r.state)
        | (r, .error why) => (r, .error why)

/-- The PSBT without signatures of its first input. -/
def withoutSignatures (p : Psbt) : Psbt :=
  { p with
    inputs := p.inputs.modifyHead fun i =>
      { i with tapKeySignature := none, tapScriptSignatures := ∅ } }

/-- A round for a PSBT, with the signatures that it carries. -/
def start (q : Quorum) (p : Psbt) : Except Error Round := do
  let base ← q.update p
  let hashes ← q.sighashes base
  match (unsigned q (withoutSignatures base) hashes).merge p with
  | (r, .ok _) => return r
  | (_, .error why) => throw why

/-- Lets a signer fill its slot. -/
def apply (r : Round) (s : PsbtSigner) : Round × Except Error RoundState :=
  match r.failure with
  | some reason => (r, .error (.roundFailed reason))
  | none =>
    match s.sign r.psbt with
    | .error why => (r, .error why)
    | .ok p => r.merge p

/-- Merges the PSBTs of a queue until the round is complete; those for other transactions are
skipped. A queue that runs out first is closed, or stays silent until the time is over. The part of
the queue that was not taken is left. -/
def mergeQueue (closed : Bool) (timeout : Timespan) :
    Round → List Psbt → Round × List Psbt × Except Error Unit
  | r, [] =>
    if r.isComplete then (r, [], .ok ())
    else
      match r.failure with
      | some reason => (r, [], .error (.roundFailed reason))
      | none =>
        (r, [], .error (if closed then .relay .channelClosed else .collectionTimeout timeout))
  | r, p :: rest =>
    if r.isComplete then (r, p :: rest, .ok ())
    else
      match r.failure with
      | some reason => (r, p :: rest, .error (.roundFailed reason))
      | none =>
        match r.merge p with
        | (r, .ok _) => mergeQueue closed timeout r rest
        | (r, .error (.psbt _)) => mergeQueue closed timeout r rest
        | (r, .error why) => (r, rest, .error why)

/-- Collects PSBTs from a queue for some time. The deadline is set before anything else, even if the
round is complete. -/
def collect (now : Uptime) (closed : Bool) (timeout : Timespan) (r : Round) (queue : List Psbt) :
    Except ClockOverflow (Round × List Psbt × Except Error Unit) :=
  match now.after? timeout with
  | none => .error ⟨⟩
  | some _ => .ok (mergeQueue closed timeout r queue)

end Round

end SignetFederation
