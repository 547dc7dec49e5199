import SignetFederation.Relay.Message
import SignetFederation.Relay.Payload

/-!
# Frames

A frame wraps a payload for the network: the network's magic, a command, and the payload's length
and checksum before the payload. Messages of the relay travel under a command of their own.

`crates/psbt-relay/src/message.rs`:

| here | there |
| --- | --- |
| `SignetPsbtMessage.command` | `COMMAND` (`message.rs:21`) |
| `SignetPsbtMessage.toFrame` | `SignetPsbtMessage::to_frame` (`message.rs:101-112`) |
| `SignetPsbtMessage.ofFrame` | `SignetPsbtMessage::from_frame` (`message.rs:115-129`) |
-/

namespace SignetFederation

/-- A payload under a command. -/
structure Frame where
  magic : Magic
  command : Bytes
  payload : Bytes
  deriving DecidableEq

namespace Frame

/-- The number of bytes for the command. -/
def commandWidth : Nat := 12

/-- The checksum of a payload. -/
def checksum (payload : Bytes) : Bytes := (doubleSha256 payload).toBytes.take 4

/-- The serialized form. -/
def encode (f : Frame) : Bytes :=
  f.magic.toBytes ++ f.command ++ List.replicate (commandWidth - f.command.length) 0 ++
    Bytes.le 4 f.payload.length ++ checksum f.payload ++ f.payload

/-- Reads a command: ASCII characters, filled up with zero bytes. -/
def decodeCommand : Decoder Bytes := do
  let raw ← Decoder.take commandWidth
  let command := (raw.reverse.dropWhile (· == 0)).reverse
  if command.all (· < 128) then return command else throw .badCommand

/-- Reads a payload behind its length and checksum. -/
def decodePayload : Decoder Bytes := do
  let n ← Decoder.natLE 4
  let sum ← Decoder.take 4
  let payload ← Decoder.take n
  if checksum payload = sum then return payload else throw .badChecksum

/-- The name of a command, as far as it is well known. -/
def commandName (command : Bytes) : String :=
  match Payload.wellKnown.find? fun e => e.1.toUTF8.toList = command with
  | some e => e.1
  | none => "unknown"

/-- Checks that the payload of a well-known command has the form that belongs to it. -/
def checkPayload (command payload : Bytes) : Except DecodeFault Unit :=
  match Payload.wellKnown.find? fun e => e.1.toUTF8.toList = command with
  | some e => e.2.whole payload
  | none => .ok ()

/-- Reads a frame. -/
def decode : Decoder Frame := do
  let magic ← Decoder.fixed 4
  let command ← decodeCommand
  let payload ← decodePayload
  match checkPayload command payload with
  | .ok () => return ⟨magic, command, payload⟩
  | .error why => throw why

end Frame

namespace SignetPsbtMessage

/-- The command of relay messages. -/
def command : Bytes := "signetpsbt".toUTF8.toList

/-- The message in a frame for a network. -/
def toFrame (m : SignetPsbtMessage) (magic : Magic) : Bytes :=
  Frame.encode ⟨magic, command, m.encode⟩

/-- The message in a frame, which has to be for the given network. -/
def ofFrame (frame : Bytes) (magic : Magic) : Except RelayFault SignetPsbtMessage :=
  match Frame.decode.whole frame with
  | .error why => .error (.ofDecode why)
  | .ok f =>
    if f.magic ≠ magic then .error (.wrongNetwork magic f.magic)
    else if f.command ≠ command then .error (.unexpectedCommand (Frame.commandName f.command))
    else decode f.payload

end SignetPsbtMessage

end SignetFederation
