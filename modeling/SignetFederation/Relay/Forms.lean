import SignetFederation.Json.Form
import SignetFederation.Relay.Engine

/-!
# Written forms of relay data

The JSON forms of spans of time, of dedup rules, of relay policies and of messages. A span is a
record that knows no other members; its nanoseconds may exceed a second as long as the seconds stay
below 2⁶⁴.

`crates/psbt-relay/src`:

| here | there |
| --- | --- |
| `JsonForm DedupKey` | the JSON form of `DedupKey` (`engine.rs:18-26`) |
| `RelayPolicy.fields` | that of `RelayPolicy` (`engine.rs:50-59`) |
| `SignetPsbtMessage.fields` | that of `SignetPsbtMessage` (`message.rs:27-37`) |
-/

namespace SignetFederation

namespace Timespan

/-- The parts of a span, as far as they were read. -/
structure Partial where
  seconds : Option Nat
  nanos : Option Nat

/-- The parts of a span. -/
def fields : List (Json.Field Partial) := [
  Json.count "secs" Partial.seconds fun v s => { s with seconds := some v },
  Json.field "nanos" Partial.nanos (fun v s => { s with nanos := some v })
    (Json.natural 4294967296)]

/-- The span whose parts were read, if its seconds stay below 2⁶⁴. -/
def Partial.finish (s : Partial) : Option Timespan := do
  let t := ofNanos ((← s.seconds) * 1000000000 + (← s.nanos))
  if t.seconds < 18446744073709551616 then some t else none

instance : JsonForm Timespan where
  toJson t := .obj [("secs", .nat t.seconds), ("nanos", .nat t.nanos)]
  reader := Json.record fields ⟨none, none⟩ Partial.finish true

end Timespan

instance : JsonForm DedupKey where
  toJson d := .str d.text
  reader := Json.choice [(DedupKey.nonce.text, .bare .nonce),
    (DedupKey.nonceAndSigners.text, .bare .nonceAndSigners)]

namespace RelayPolicy

/-- The fields of a policy, as far as they were read. -/
structure Partial where
  capacity : Option Nat
  ttl : Option (Option Timespan)
  dedup : Option DedupKey
  flood : Option Bool

/-- The fields of a policy. -/
def fields : List (Json.Field Partial) := [
  Json.count "capacity" Partial.capacity fun v s => { s with capacity := some v },
  Json.field "ttl" Partial.ttl (fun v s => { s with ttl := some v })
    (Json.optional JsonForm.reader),
  Json.member "dedup" Partial.dedup fun v s => { s with dedup := some v },
  Json.member "flood" Partial.flood fun v s => { s with flood := some v }]

/-- The policy whose fields were read; a time to live may be missing. -/
def Partial.finish (s : Partial) : Option RelayPolicy := do
  return ⟨← s.capacity, s.ttl.join, ← s.dedup, ← s.flood⟩

instance : JsonForm RelayPolicy where
  toJson p := .obj [("capacity", .nat p.capacity),
    ("ttl", match p.ttl with
      | some t => JsonForm.toJson t
      | none => .null),
    ("dedup", JsonForm.toJson p.dedup), ("flood", .bool p.flood)]
  reader := Json.record fields ⟨none, none, none, none⟩ Partial.finish false

end RelayPolicy

namespace SignetPsbtMessage

/-- The fields of a message, as far as they were read. -/
structure Partial where
  nonce : Option UInt64
  psbt : Option Bytes
  blockTemplate : Option Bytes
  signers : Option (List UInt64)

/-- The fields of a message. -/
def fields : List (Json.Field Partial) := [
  Json.member "nonce" Partial.nonce fun v s => { s with nonce := some v },
  Json.member "psbt" Partial.psbt fun v s => { s with psbt := some v },
  Json.member "block_template" Partial.blockTemplate fun v s => { s with blockTemplate := some v },
  Json.member "signers_short_ids" Partial.signers fun v s => { s with signers := some v }]

/-- The message whose fields were read. -/
def Partial.finish (s : Partial) : Option SignetPsbtMessage := do
  return ⟨← s.nonce, ← s.psbt, ← s.blockTemplate, ← s.signers⟩

instance : JsonForm SignetPsbtMessage where
  toJson m := .obj [("nonce", JsonForm.toJson m.nonce), ("psbt", JsonForm.toJson m.psbt),
    ("block_template", JsonForm.toJson m.blockTemplate),
    ("signers_short_ids", JsonForm.toJson m.signers)]
  reader := Json.record fields ⟨none, none, none, none⟩ Partial.finish false

end SignetPsbtMessage

end SignetFederation
