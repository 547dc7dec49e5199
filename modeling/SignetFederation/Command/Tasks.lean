import SignetFederation.Bytes.Base64
import SignetFederation.Command.Files
import SignetFederation.Command.Signer
import SignetFederation.Quorum.Forms
import SignetFederation.Signet.Solution
import SignetFederation.Signet.Spend
import SignetFederation.Signing.Round

/-!
# What the signer's commands do

A task reads files by their names and answers with the files it writes and the lines it prints, or
with the reason why it cannot be done; then nothing is printed. An argument for a block, a PSBT or a
descriptor is the name of a file or the text itself.

`crates/quorum-signer/src/main.rs`:

| here | there |
| --- | --- |
| `Signer.run` | the cases of `main` (`main.rs:146-179`) |
| `Signer.keygen` | `run_keygen` (`main.rs:184-208`) |
| `Signer.describe` | `run_descriptor` (`main.rs:210-235`) |
| `Signer.sign` | `run_sign` (`main.rs:237-242`) |
| `Signer.combine`, `mergeAll` | `run_combine` (`main.rs:244-257`) |
| `Signer.embed` | `run_embed` (`main.rs:259-264`) |
| `Signer.infoLines` | `show_info` (`main.rs:302-316`) |
| `Signer.readDescriptor` | `load_descriptor` (`main.rs:318-328`) |
| `Signer.input` | `read_input` (`main.rs:331-337`) |
| `Signer.readBlock` | `read_block` (`main.rs:339-342`) |
| `Signer.readPsbt` | `read_psbt` (`main.rs:344-349`) |
| `Signer.psbtText` | `encode_psbt` (`main.rs:351-353`) |
-/

namespace SignetFederation.Command

/-- Why a task cannot be done. -/
inductive TaskFault where
  | federation (why : Error)
  | noFile (name : String)
  | noDescriptor
  | badSummary
  | badHex
  | badBlock (why : DecodeFault)
  | badBase64
  | badPsbt
  | badSeed
  | unwritable
  | noRelay (address : String)
  deriving DecidableEq

/-- The wording of a task's fault. -/
def TaskFault.message : TaskFault → String
  | federation why => why.message
  | noFile name => "cannot read " ++ name
  | noDescriptor => "no --descriptor given and no quorum.json in the data directory"
  | badSummary => "quorum.json does not parse"
  | badHex => "block must be hex encoded"
  | badBlock why => "block does not decode: " ++ why.message
  | badBase64 => "PSBT must be base64 encoded"
  | badPsbt => "PSBT does not decode"
  | badSeed => "seed gives no key"
  | unwritable => "cannot write to the data directory"
  | noRelay address => "cannot connect to " ++ address

/-- What a task does: it makes a directory, writes files and prints lines, in this order. -/
structure Report where
  directory : Option String
  files : List (String × String)
  lines : List String
  deriving DecidableEq

namespace Report

/-- A report that only prints. -/
def print (lines : List String) : Report := ⟨none, [], lines⟩

/-- What is printed. -/
def output (r : Report) : String := r.lines.foldl (fun out l => out ++ l ++ "\n") ""

/-- Writes files up to the first one that cannot be written. -/
def writeAll : List (String × String) → Files → Files × Bool
  | [], f => (f, true)
  | (name, content) :: rest, f =>
    match f.write name content with
    | some f => writeAll rest f
    | none => (f, false)

/-- Makes the directory and writes the files of a report, as far as possible. -/
def perform (r : Report) (f : Files) : Files × Bool :=
  match r.directory with
  | none => writeAll r.files f
  | some d =>
    match f.makeDirectory d with
    | some f => writeAll r.files f
    | none => (f, false)

end Report

/-- The contents of files by their names. -/
abbrev Lookup := String → Option String

namespace Signer

/-- The text of a file, or the argument itself if it names none; without blanks at the ends. -/
def input (look : Lookup) (argument : String) : String :=
  Text.trimmed ((look argument).getD argument)

/-- The names that a task looks up. -/
def names (i : Invocation) : List String :=
  let descriptor := i.descriptor.getD (join i.directory "quorum.json")
  match i.task with
  | .keygen _ => []
  | .describe _ keys => [keys.getD (join i.directory "keys.json")]
  | .genpsbt block => [descriptor, block]
  | .sign psbt => [descriptor, psbt]
  | .combine psbts => descriptor :: psbts
  | .solution psbt => [descriptor, psbt]
  | .embed block psbt => [descriptor, block, psbt]
  | .relay block _ => [descriptor, block]
  | .info => [descriptor]

/-- The number of seeds that a task uses. -/
def seedCount (i : Invocation) : Nat :=
  match i.task with
  | .keygen signers => signers + 1
  | _ => 0

/-- The block of an argument. -/
def readBlock (look : Lookup) (argument : String) : Except TaskFault Block :=
  match Hex.decode? (input look argument) with
  | none => .error .badHex
  | some b => (Block.ofBytes? b).mapError .badBlock

/-- The PSBT of an argument. -/
def readPsbt (look : Lookup) (argument : String) : Except TaskFault Psbt :=
  match Base64.decode? (input look argument) with
  | none => .error .badBase64
  | some b =>
    match Psbt.decode? b with
    | some p => .ok p
    | none => .error .badPsbt

/-- The text of a PSBT. -/
def psbtText (p : Psbt) : String := Base64.encode p.encode

/-- The descriptor that was given, or the one in the data directory. -/
def readDescriptor (look : Lookup) (i : Invocation) : Except TaskFault QuorumDescriptor :=
  match i.descriptor with
  | some argument => (QuorumDescriptor.parse (input look argument)).mapError .federation
  | none =>
    match look (join i.directory "quorum.json") with
    | none => .error .noDescriptor
    | some text =>
      match (JsonForm.read text : Except Json.Fault QuorumInfo) with
      | .error _ => .error .badSummary
      | .ok info => (QuorumDescriptor.parse info.descriptor).mapError .federation

/-- The key pair of a seed: the first keys below the master key, in extended form. -/
def keyPair (seed : Bytes) : Except TaskFault SignerKeyPair :=
  match ExtendedSecret.ofSeed? .test seed with
  | some x => .ok ⟨some (x.text ++ "/0"), x.toPublic.text ++ "/0"⟩
  | none => .error .badSeed

/-- Makes key pairs for the internal key and some signers. -/
def keygen (seeds : Nat → Bytes) (i : Invocation) (signers : Nat) : Except TaskFault Report := do
  let members ← (List.range (signers + 1)).mapM fun k => keyPair (seeds k)
  return ⟨some i.directory, [(join i.directory "keys.json", KeyFile.render members)],
    ["Generated " ++ toString members.length ++ " key pairs (internal key + " ++
      toString signers ++ " signers)"]⟩

/-- Sets up the quorum of a key file. -/
def describe (look : Lookup) (i : Invocation) (threshold : Nat) (keys : Option String) :
    Except TaskFault Report := do
  let name := keys.getD (join i.directory "keys.json")
  let some text := look name | throw (.noFile name)
  let members ← (KeyFile.parse text).mapError .federation
  let d ← (Setup.build members threshold).mapError .federation
  let views ← (Setup.views members threshold).mapError .federation
  let info := QuorumInfo.ofDescriptor d threshold (members.length - 1)
  let file (v : SignerView) : String × String :=
    (join i.directory ("signer." ++ toString v.slot.keyIndex ++ ".descriptor"), v.descriptor)
  return ⟨some i.directory,
    (join i.directory "quorum.json", (JsonForm.toJson info).pretty) :: views.map file,
    ["Descriptor: " ++ info.descriptor, "Challenge: " ++ info.challenge,
      "Address: " ++ info.address]⟩

/-- Signs a PSBT with the secret key of a descriptor. -/
def sign (d : QuorumDescriptor) (p : Psbt) : Except Error Psbt := do
  (← LocalSigner.ofDescriptor d).sign p

/-- Merges PSBTs one after another into a round. -/
def mergeAll (look : Lookup) : Round → List String → Except TaskFault Round
  | r, [] => .ok r
  | r, argument :: rest => do
    match r.merge (← readPsbt look argument) with
    | (r, .ok _) => mergeAll look r rest
    | (_, .error why) => throw (.federation why)

/-- Merges PSBTs into one. -/
def combine (look : Lookup) (d : QuorumDescriptor) : List String → Except TaskFault Psbt
  | [] => .error (.federation (.psbt .noInputs))
  | first :: rest => do
    let r ← (Round.start d.quorum (← readPsbt look first)).mapError .federation
    return (← mergeAll look r rest).psbt

/-- Puts the solution of a signed PSBT into its block. -/
def embed (d : QuorumDescriptor) (b : Block) (p : Psbt) : Except Error Block := do
  b.embed (← Solution.ofPsbt d.quorum p)

/-- What there is to know about a descriptor. -/
def infoLines (d : QuorumDescriptor) : List String :=
  let q := d.quorum
  ["Quorum Info:",
    "  Threshold: " ++ toString q.threshold,
    "  Signers: " ++ toString q.signers.length,
    "  Internal Key: " ++ q.internal.text,
    "  Challenge: " ++ Hex.encode q.challenge,
    "  Address: " ++ q.address .signet,
    "  Magic: " ++ (signetMagic q.challenge).text,
    "  Local Signer: " ++ (match d.localSlot with
      | some slot => slot.text
      | none => "none")]

/-- Does what an invocation asks for, except on the relay network, which is not reached from
here. -/
def run (look : Lookup) (seeds : Nat → Bytes) (i : Invocation) : Except TaskFault Report :=
  match i.task with
  | .keygen signers => keygen seeds i signers
  | .describe threshold keys => describe look i threshold keys
  | .genpsbt block => do
    let d ← readDescriptor look i
    let p ← ((← readBlock look block).signetPsbt d.challenge).mapError .federation
    return .print [psbtText p]
  | .sign psbt => do
    let d ← readDescriptor look i
    return .print [psbtText (← (sign d (← readPsbt look psbt)).mapError .federation)]
  | .combine psbts => do return .print [psbtText (← combine look (← readDescriptor look i) psbts)]
  | .solution psbt => do
    let d ← readDescriptor look i
    let found ← ((← readPsbt look psbt).commitmentSection d.quorum).mapError .federation
    return .print [Hex.encode found]
  | .embed block psbt => do
    let d ← readDescriptor look i
    let b ← readBlock look block
    let b ← (embed d b (← readPsbt look psbt)).mapError .federation
    return .print [Hex.encode b.encode]
  | .relay block _ => do
    let _ ← readBlock look block
    let _ ← readDescriptor look i
    throw (.noRelay i.relay)
  | .info => do return .print (infoLines (← readDescriptor look i))

end Signer

/-- How the tool ends: its exit code, what it printed, and what it complained about. -/
structure Completion where
  code : Nat
  output : String
  complaint : Option String
  deriving DecidableEq

namespace Completion

/-- The end of a task that is done. -/
def done (output : String) : Completion := ⟨0, output, none⟩

/-- The end of a task that cannot be done. -/
def failed (why : TaskFault) : Completion := ⟨1, "", some why.message⟩

/-- The end of a command line that is no invocation. -/
def refused : Refusal → Completion
  | .shown text => done text
  | .usage => ⟨2, "", some ("usage error; try " ++ Signer.toolName ++ " --help")⟩

end Completion

/-- Runs a command line among files. -/
def execute (environment : String → Option String) (seeds : Nat → Bytes) (line : List String)
    (f : Files) : Files × Completion :=
  match Signer.invocation environment line with
  | .error why => (f, .refused why)
  | .ok i =>
    match Signer.run f.read? seeds i with
    | .error why => (f, .failed why)
    | .ok r =>
      match r.perform f with
      | (f, true) => (f, .done r.output)
      | (f, false) => (f, .failed .unwritable)

end SignetFederation.Command
