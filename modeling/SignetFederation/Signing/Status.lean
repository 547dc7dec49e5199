import SignetFederation.Bytes.Base64
import SignetFederation.Json.Form
import SignetFederation.Psbt.Codec
import SignetFederation.Signing.Session

/-!
# The status of a session

The JSON form of a round's state, and of the status in which a node reports a session: its nonce,
the round's state, the number of signatures and the merged PSBT in Base64.

`crates`:

| here | there |
| --- | --- |
| `RoundState.countsReader` | the JSON form of `RoundState` (`quorum-core/src/sign/round.rs:18-27`) |
| `SessionStatus` | `SessionStatus` (`psbt-relay-client/src/lib.rs:221-227`) |
| `SessionStatus.readPsbt` | `SessionStatus::psbt` (`psbt-relay-client/src/lib.rs:231-236`) |
| `SessionStatus.ofRound` | the answer of `get_session` (`psbt-relay-svc/src/main.rs:368-373`) |
-/

namespace SignetFederation

namespace RoundState

/-- The counts of a round that is under way, as far as they were read. -/
structure Counts where
  signatures : Option Nat
  required : Option Nat

/-- Reads the counts of a round that is under way. -/
def countsReader : Json.Reader RoundState :=
  Json.record [
      Json.count "signatures" Counts.signatures fun v s => { s with signatures := some v },
      Json.count "required" Counts.required fun v s => { s with required := some v }]
    ⟨none, none⟩ (fun s => do return .collecting (← s.signatures) (← s.required)) false

/-- Reads the reason of a failed round. -/
def reasonReader : Json.Reader RoundState :=
  Json.record [Json.member "reason" id fun v _ => some v] none
    (fun reason => reason.map RoundState.failed) false

instance : JsonForm RoundState where
  toJson
    | .collecting signatures required =>
      .obj [("collecting", .obj [("signatures", .nat signatures), ("required", .nat required)])]
    | .complete => .str "complete"
    | .failed reason => .obj [("failed", .obj [("reason", .str reason)])]
  reader := Json.choice [("collecting", .carrying countsReader), ("complete", .bare .complete),
    ("failed", .carrying reasonReader)]

end RoundState

/-- The status of a session as a node reports it. -/
structure SessionStatus where
  nonce : UInt64
  state : RoundState
  signatures : Nat
  psbt : String
  deriving DecidableEq

namespace SessionStatus

/-- The status of a round. -/
def ofRound (nonce : UInt64) (r : Round) : SessionStatus :=
  ⟨nonce, r.state, r.signatureCount, Base64.encode r.psbt.encode⟩

/-- The PSBT that the status carries. -/
def readPsbt (s : SessionStatus) : Except Error Psbt :=
  match (Base64.decode? s.psbt).bind Psbt.decode? with
  | some p => .ok p
  | none => .error (.psbt .unreadable)

/-- The fields of a status, as far as they were read. -/
structure Partial where
  nonce : Option UInt64
  state : Option RoundState
  signatures : Option Nat
  psbt : Option String

/-- The fields of a status. -/
def fields : List (Json.Field Partial) := [
  Json.member "nonce" Partial.nonce fun v s => { s with nonce := some v },
  Json.member "state" Partial.state fun v s => { s with state := some v },
  Json.count "signatures" Partial.signatures fun v s => { s with signatures := some v },
  Json.member "psbt" Partial.psbt fun v s => { s with psbt := some v }]

/-- The status whose fields were read. -/
def Partial.finish (s : Partial) : Option SessionStatus := do
  return ⟨← s.nonce, ← s.state, ← s.signatures, ← s.psbt⟩

instance : JsonForm SessionStatus where
  toJson s := .obj [("nonce", JsonForm.toJson s.nonce), ("state", JsonForm.toJson s.state),
    ("signatures", .nat s.signatures), ("psbt", .str s.psbt)]
  reader := Json.record fields ⟨none, none, none, none⟩ Partial.finish false

end SessionStatus

end SignetFederation
