import SignetFederation.Bytes.Hex
import SignetFederation.Command.Line
import SignetFederation.Relay.Engine
import SignetFederation.Signing.Signer
import SignetFederation.Signet.Spend

/-!
# Settings of a relay service

A service is told on its command line how to relay and for which signet: by the challenge, by the
descriptor of the quorum, or by both, which then have to agree. A descriptor with a secret key makes
the service a signer.

`crates/psbt-relay-svc/src/main.rs`:

| here | there |
| --- | --- |
| `ServiceSettings` | `Args` (`main.rs:35-71`) |
| `ServiceSettings.policy` | the policy of `build_state` (`main.rs:143-148`) |
| `ServiceSetup` | `Setup` (`main.rs:102-105`) |
| `ServiceSetup.resolve` | `resolve_setup` (`main.rs:107-140`) |
| `ServiceSetup.signer` | the signer of `build_state` (`main.rs:151-155`) |
-/

namespace SignetFederation

open Command (CommandSpec OptionSpec ValueKind Stop)

/-- The settings of a relay service. -/
structure ServiceSettings where
  listen : String
  peers : List String
  challenge : Option String
  descriptor : Option String
  window : Nat
  ttl : Nat
  dedup : DedupKey
  flood : Bool
  retry : Nat
  deriving DecidableEq

namespace ServiceSettings

/-- An option with a value, which may be left out. -/
def option (name : String) (letter : Option Char) (value : ValueKind)
    (standard environment : Option String) (about : String) : OptionSpec :=
  ⟨name, letter, some value, false, false, standard, environment, about⟩

/-- The options of the service. -/
def options : List OptionSpec := [
  option "listen" (some 'l') .any (some "0.0.0.0:8080") none "Listen address",
  { option "peer" (some 'p') .any none none "Peer relay WebSocket URLs" with
    repeats := true },
  option "signet-challenge" none .any none (some "SIGNET_CHALLENGE")
    "Signet challenge (hex) this node enforces",
  option "descriptor" none .any none (some "SIGNER_DESCRIPTOR")
    "Quorum descriptor, optionally holding this node's private key",
  option "window" none .number (some "1024") none
    "Number of recently seen messages remembered for deduplication",
  option "ttl" none .number (some "3600") none "Seconds a seen message is remembered",
  option "dedup" none (.oneOf [DedupKey.nonce.text, DedupKey.nonceAndSigners.text])
    (some "nonce-and-signers") none "Dedup key: \"nonce\" or \"nonce-and-signers\"",
  ⟨"no-flood", none, none, false, false, none, none, "Do not forward messages to other peers"⟩,
  option "retry" none .number (some "5") none "Seconds between outbound reconnection attempts"]

/-- The command line of the service. -/
def spec : CommandSpec :=
  ⟨"psbt-relay-svc", "Relay node for partially signed signet block templates", options, none, none⟩

/-- The settings that a command line writes. -/
def ofLine (environment : String → Option String) (line : List String) :
    Except Stop ServiceSettings := do
  let g ← spec.readAll environment line
  return {
    listen := (g.value? "listen").getD "0.0.0.0:8080"
    peers := g.values "peer"
    challenge := g.value? "signet-challenge"
    descriptor := g.value? "descriptor"
    window := (g.number? "window").getD 1024
    ttl := (g.number? "ttl").getD 3600
    dedup := ((g.value? "dedup").bind DedupKey.ofText?).getD .nonceAndSigners
    flood := !g.has "no-flood"
    retry := (g.number? "retry").getD 5 }

/-- How a service with these settings relays. -/
def policy (s : ServiceSettings) : RelayPolicy := ⟨s.window, some (.ofSeconds s.ttl), s.dedup, s.flood⟩

end ServiceSettings

/-- Why a service does not start. -/
inductive SetupFault where
  | badDescriptor (why : Error)
  | badChallenge
  | noChallenge
  | mismatch (ofDescriptor given : Bytes)
  | noSigner (why : Error)
  deriving DecidableEq

/-- The wording of a setup fault. -/
def SetupFault.message : SetupFault → String
  | badDescriptor _ => "invalid signer descriptor"
  | badChallenge => "invalid signet challenge"
  | noChallenge => "either --signet-challenge or --descriptor is required"
  | mismatch own given =>
    "descriptor challenge " ++ Hex.encode own ++ " does not match signet challenge " ++
      Hex.encode given
  | noSigner why => why.message

/-- The signet that a service relays for. -/
structure ServiceSetup where
  challenge : Bytes
  descriptor : Option QuorumDescriptor

namespace ServiceSetup

/-- The setup of a challenge in hexadecimal and a descriptor. -/
def resolve (challenge descriptor : Option String) : Except SetupFault ServiceSetup := do
  let d ← match descriptor with
    | some text => some <$> (QuorumDescriptor.parse text).mapError .badDescriptor
    | none => .ok none
  let c ← match challenge, d with
    | some hex, _ =>
      match Hex.decode? hex with
      | some c => .ok c
      | none => .error .badChallenge
    | none, some d => .ok d.challenge
    | none, none => .error .noChallenge
  match d with
  | some d => if d.challenge ≠ c then throw (.mismatch d.challenge c)
  | none => pure ()
  return ⟨c, d⟩

/-- The quorum, if it is known. -/
def quorum (s : ServiceSetup) : Option Quorum := s.descriptor.map QuorumDescriptor.quorum

/-- The signer whose secret key the descriptor holds, if it holds one. -/
def signer (s : ServiceSetup) : Except SetupFault (Option LocalSigner) :=
  match s.descriptor with
  | none => .ok none
  | some d =>
    if d.localSlot.isSome then
      match LocalSigner.ofDescriptor d with
      | .ok signer => .ok (some signer)
      | .error why => .error (.noSigner why)
    else .ok none

end ServiceSetup

end SignetFederation
