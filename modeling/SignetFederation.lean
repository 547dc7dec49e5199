import SignetFederation.Bytes
import SignetFederation.Bytes.Base58
import SignetFederation.Bytes.Base64
import SignetFederation.Bytes.Bech32
import SignetFederation.Bytes.Hex
import SignetFederation.Chain.Block
import SignetFederation.Chain.Merkle
import SignetFederation.Chain.Script
import SignetFederation.Chain.Transaction
import SignetFederation.Command.Files
import SignetFederation.Command.Help
import SignetFederation.Command.Line
import SignetFederation.Command.Signer
import SignetFederation.Command.Tasks
import SignetFederation.Descriptor.Checksum
import SignetFederation.Descriptor.Grammar
import SignetFederation.Digest.Blake3
import SignetFederation.Digest.Ripemd160
import SignetFederation.Digest.Sha256
import SignetFederation.Digest.Sha512
import SignetFederation.Digest.SipHash
import SignetFederation.Error
import SignetFederation.Json.Form
import SignetFederation.Json.Reader
import SignetFederation.Json.Value
import SignetFederation.Keys.Expression
import SignetFederation.Keys.Extended
import SignetFederation.Main
import SignetFederation.Psbt.Basic
import SignetFederation.Psbt.Codec
import SignetFederation.Psbt.Pairs
import SignetFederation.Quorum.Basic
import SignetFederation.Quorum.Descriptor
import SignetFederation.Quorum.Forms
import SignetFederation.Quorum.Setup
import SignetFederation.Quorum.Slot
import SignetFederation.Relay.Engine
import SignetFederation.Relay.Fault
import SignetFederation.Relay.Forms
import SignetFederation.Relay.Frame
import SignetFederation.Relay.Message
import SignetFederation.Relay.Network
import SignetFederation.Relay.Node
import SignetFederation.Relay.Payload
import SignetFederation.Relay.Window
import SignetFederation.Secp256k1.Curve
import SignetFederation.Secp256k1.Der
import SignetFederation.Secp256k1.Key
import SignetFederation.Secp256k1.Schnorr
import SignetFederation.Service.Http
import SignetFederation.Service.Node
import SignetFederation.Service.Settings
import SignetFederation.Signet.Commitment
import SignetFederation.Signet.Solution
import SignetFederation.Signet.Spend
import SignetFederation.Signing.Round
import SignetFederation.Signing.Session
import SignetFederation.Signing.Signer
import SignetFederation.Signing.Status
import SignetFederation.Signing.Update
import SignetFederation.SortedMap
import SignetFederation.Taproot.LeafTree
import SignetFederation.Taproot.Sighash
import SignetFederation.Taproot.Signature
import SignetFederation.Taproot.Tree
import SignetFederation.Text.Blank
import SignetFederation.Text.Decimal
import SignetFederation.Text.Fields
import SignetFederation.Text.Hidden
import SignetFederation.Text.Quoted
import SignetFederation.Timespan
import SignetFederation.Wire.CompactSize
import SignetFederation.Wire.Decoder
import SignetFederation.Proofs.Wire.Numbers
import SignetFederation.Proofs.Wire.Decoders
import SignetFederation.Proofs.Wire.Endings
import SignetFederation.Proofs.Signing.Slots
import SignetFederation.Proofs.Signing.Merging
import SignetFederation.Proofs.Signing.Confluence
import SignetFederation.Proofs.Signing.Runs
import SignetFederation.Proofs.Signing.Prepared
import SignetFederation.Proofs.Signing.Extraction
import SignetFederation.Proofs.Signing.LocalSigner
import SignetFederation.Proofs.Signing.Sessions
import SignetFederation.Proofs.Script.Reading
import SignetFederation.Proofs.Script.Tapscript
import SignetFederation.Proofs.Quorum.LeafScript
import SignetFederation.Proofs.Signet.LeafWitness
import SignetFederation.Proofs.Signet.Sections
import SignetFederation.Proofs.Signet.Embedding
import SignetFederation.Proofs.Service.Processing
import SignetFederation.Proofs.Service.Emission
import SignetFederation.Proofs.Relay.Framing
import SignetFederation.Proofs.Relay.Truncation
import SignetFederation.Proofs.Relay.WireForm
import SignetFederation.Proofs.Relay.Windows
import SignetFederation.Proofs.Relay.Decisions
import SignetFederation.Proofs.Relay.Recording
import SignetFederation.Proofs.Relay.Spread
import SignetFederation.Proofs.Relay.Hearing
import SignetFederation.Proofs.Relay.Accounts
import SignetFederation.Proofs.Relay.Flooding
import SignetFederation.Proofs.Signing.Honesty
import SignetFederation.Proofs.Secp256k1.Primes
import SignetFederation.Proofs.Secp256k1.Field
import SignetFederation.Proofs.Secp256k1.Group
import SignetFederation.Proofs.Secp256k1.Keys
import SignetFederation.Proofs.Signing.Workflows
import SignetFederation.Proofs.Service.Resigning
import SignetFederation.Proofs.Service.Exchange
import SignetFederation.Proofs.Service.Queues
import SignetFederation.Proofs.Service.Station
import SignetFederation.Proofs.Service.Gossip
import SignetFederation.Proofs.Service.Completion
import SignetFederation.Proofs.Service.Gathering
import SignetFederation.Proofs.Command.Combining
import SignetFederation.Proofs.Descriptor.Remainder
import SignetFederation.Proofs.Descriptor.Grammar
import SignetFederation.Proofs.Descriptor.Spelling
import SignetFederation.Proofs.Keys.Expressions
import SignetFederation.Proofs.Quorum.Parsing
import SignetFederation.Proofs.Descriptor.Typos
import SignetFederation.Proofs.Quorum.Setup
import SignetFederation.Proofs.Quorum.Views
import SignetFederation.Proofs.Quorum.Rereading
import SignetFederation.Proofs.Signing.Joining
import SignetFederation.Proofs.Signing.Failures
import SignetFederation.Proofs.Relay.Histories
import SignetFederation.Proofs.Relay.Calendar
import SignetFederation.Proofs.Signet.Replacing
import SignetFederation.Proofs.Signet.Finishing
import SignetFederation.Proofs.Signet.WireForm
import SignetFederation.Proofs.Signet.Layout
import SignetFederation.Proofs.Signing.Additions
import SignetFederation.Proofs.Signet.ScriptSig
import SignetFederation.Proofs.Signing.Collecting
import SignetFederation.Proofs.Quorum.LeafIdentity
import SignetFederation.Proofs.Relay.Identity
import SignetFederation.Proofs.Relay.Hashing
import SignetFederation.Proofs.Service.Sending
import SignetFederation.Proofs.Service.PeerEvents
import SignetFederation.Proofs.Service.PeerLogs
