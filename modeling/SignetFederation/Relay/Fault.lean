import SignetFederation.Bytes.Hex
import SignetFederation.Wire.Decoder

/-!
# What goes wrong in the relay

A received byte string may be cut short or malformed, a frame may belong to another network or
carry another command, and a frame may have nowhere to go.

`crates/psbt-relay/src`:

| here | there |
| --- | --- |
| `RelayFault` | `RelayError` (`error.rs:9-22`) |
| `RelayFault.ofDecode` | its `From<encode::Error>` (`error.rs:26-36`) |
| `MalformedFault` | the refusals of `SignetPsbtMessage::decode` (`message.rs:73-85`) |
-/

namespace SignetFederation

/-- The four bytes that tell networks apart. -/
abbrev Magic := FixedBytes 4

/-- The text of a network's magic. -/
def Magic.text (m : Magic) : String := Hex.encode m.toBytes

/-- Why a complete byte string is not a message. -/
inductive MalformedFault where
  | tooLong (bytes limit : Nat)
  | trailing (bytes : Nat)
  | unreadable (why : DecodeFault)
  | badPsbt
  deriving DecidableEq

/-- The wording of a malformed message. -/
def MalformedFault.message : MalformedFault → String
  | tooLong n limit =>
    "message of " ++ toString n ++ " bytes exceeds the " ++ toString limit ++ " byte limit"
  | trailing n => toString n ++ " trailing bytes"
  | unreadable why => why.message
  | badPsbt => "PSBT does not decode"

/-- Why a relay step failed. -/
inductive RelayFault where
  | truncated
  | malformed (why : MalformedFault)
  | unexpectedCommand (name : String)
  | wrongNetwork (expected actual : Magic)
  | unknownPeer (peer : Nat)
  | inboxClosed
  | channelClosed
  deriving DecidableEq

/-- The wording of a relay fault. -/
def RelayFault.message : RelayFault → String
  | truncated => "Truncated message: " ++ DecodeFault.endOfData.message
  | malformed why => "Malformed message: " ++ why.message
  | unexpectedCommand name => "Unexpected command '" ++ name ++ "'"
  | wrongNetwork expected actual =>
    "Wrong network: expected magic " ++ expected.text ++ ", got " ++ actual.text
  | unknownPeer peer => "Unknown peer: " ++ toString peer
  | inboxClosed => "Transport error: inbox closed"
  | channelClosed => "partial PSBT channel closed"

/-- The relay fault of a byte string that does not decode. -/
def RelayFault.ofDecode : DecodeFault → RelayFault
  | .endOfData => truncated
  | why => malformed (.unreadable why)

end SignetFederation
